import ValidatorGen.Proofs.Schema.TypeGrammar

/-! Reading and writing type references. A reference is read back from its text exactly when it is
well formed, and the text of what is read is the text that was read without its blanks; the base
name is what is left of that without brackets and non-null marks. -/
namespace ValidatorGen

namespace Text

def withoutBlanks (cs : List Char) : List Char :=
  cs.filter (!isBlank ·)

theorem withoutBlanks_append (cs ds : List Char) :
    withoutBlanks (cs ++ ds) = withoutBlanks cs ++ withoutBlanks ds :=
  List.filter_append cs ds

theorem AllBlank.withoutBlanks_eq {cs : List Char} (h : AllBlank cs) : withoutBlanks cs = [] :=
  List.filter_eq_nil_iff.mpr fun c hc => by simp [h c hc]

theorem withoutBlanks_eq_concat_iff {c : Char} (hc : isBlank c = false) {cs ds : List Char} :
    withoutBlanks cs = ds ++ [c] ↔
      ∃ front after, AllBlank after ∧ cs = front ++ c :: after ∧ withoutBlanks front = ds := by
  constructor
  · intro h
    obtain ⟨front, rest, rfl, hfront, hrest⟩ := List.filter_eq_append_iff.mp h
    obtain ⟨blanks, after, rfl, hblanks, -, ha⟩ := List.filter_eq_cons_iff.mp hrest
    have hb : AllBlank blanks := by simpa [AllBlank] using hblanks
    refine ⟨front ++ blanks, after, by simpa [AllBlank] using ha, by simp, ?_⟩
    rw [withoutBlanks_append, hb.withoutBlanks_eq, List.append_nil]
    exact hfront
  · rintro ⟨front, after, ha, rfl, rfl⟩
    have hone : withoutBlanks [c] = [c] := by simp [withoutBlanks, hc]
    rw [List.append_cons, withoutBlanks_append, withoutBlanks_append, hone, ha.withoutBlanks_eq,
      List.append_nil]

end Text

namespace TypeRef
open ValidatorGen.Text

/-- A bracket or a non-null mark. -/
def isModifier (c : Char) : Bool :=
  c == '[' || c == ']' || c == '!'

theorem isBlank_of_isModifier {c : Char} (h : isModifier c = true) : isBlank c = false := by
  simp only [isModifier, Bool.or_eq_true, beq_iff_eq] at h
  rcases h with (rfl | rfl) | rfl <;> rfl

theorem IsNamePart.isModifier_eq_false {c : Char} (h : IsNamePart c) : isModifier c = false := by
  rw [Bool.eq_false_iff]
  intro hmodifier
  simp only [isModifier, Bool.or_eq_true, beq_iff_eq] at hmodifier
  have hcode := h.toNat
  rcases hmodifier with (rfl | rfl) | rfl <;> revert hcode <;> decide

/-- The text of a well-formed reference has characters of a name and modifiers, and no others. -/
theorem WellFormed.mem_text {t : TypeRef} (h : t.WellFormed) {c : Char} (hc : c ∈ t.text.toList) :
    IsNamePart c ∨ isModifier c = true := by
  induction t with
  | named name => exact .inl ((wellFormed_named.mp h).isNamePart c hc)
  | list element ih =>
    simp only [text_list, String.toList_append, List.mem_append] at hc
    rcases hc with (hc | hc) | hc
    · obtain rfl : c = '[' := by simpa using hc
      exact .inr rfl
    · exact ih (wellFormed_list.mp h) hc
    · obtain rfl : c = ']' := by simpa using hc
      exact .inr rfl
  | nonNull inner ih =>
    simp only [text_nonNull, String.toList_append, List.mem_append] at hc
    rcases hc with hc | hc
    · exact ih (wellFormed_nonNull.mp h).2 hc
    · obtain rfl : c = '!' := by simpa using hc
      exact .inr rfl

theorem WellFormed.withoutBlanks_text {t : TypeRef} (h : t.WellFormed) :
    withoutBlanks t.text.toList = t.text.toList := by
  refine List.filter_eq_self.mpr fun c hc => ?_
  rcases h.mem_text hc with hname | hmodifier
  · simp [hname.isBlank_eq_false]
  · simp [isBlank_of_isModifier hmodifier]

/-- Without the modifiers the text of a reference is its base name. -/
theorem filter_text {t : TypeRef} (h : IsName t.baseName) :
    t.text.toList.filter (!isModifier ·) = t.baseName.toList := by
  induction t with
  | named name =>
    refine List.filter_eq_self.mpr fun c hc => ?_
    simp [(h.isNamePart c hc).isModifier_eq_false]
  | list element ih =>
    have hopen : isModifier '[' = true := rfl
    have hclose : isModifier ']' = true := rfl
    simp [hopen, hclose, ih h]
  | nonNull inner ih =>
    have hmark : isModifier '!' = true := rfl
    simp [hmark, ih h]

/-- Blanks between tokens are all that is lost when a text is put together from its tokens. -/
theorem Spells.withoutBlanks_eq {tokens : List Token} {cs : List Char} (h : Spells tokens cs) :
    withoutBlanks cs = withoutBlanks (tokens.flatMap Token.text) := by
  induction h with
  | nil hb => exact hb.withoutBlanks_eq
  | cons hb token _ ih =>
    simp only [List.flatMap_cons, withoutBlanks_append]
    rw [hb.withoutBlanks_eq, ih, List.nil_append]

theorem text_of_readChars {cs : List Char} {t : TypeRef} (h : readChars cs = .ok t) :
    t.text.toList = withoutBlanks cs := by
  obtain ⟨hwf, hspells⟩ := readChars_eq_ok_iff.mp h
  rw [hspells.withoutBlanks_eq, flatMap_text_tokens, hwf.withoutBlanks_text]

/-- A reference is read back from its own text exactly if no non-null modifier is doubled in it and
its base is a name. From any text that can be read, the reference is written without the blanks of
the text, and its base name is the text without blanks and modifiers. -/
theorem read_inverts_text :
    (∀ t : TypeRef, read t.text = .ok t ↔ t.SingleNonNull ∧ IsName t.baseName) ∧
    ∀ (input : String) (t : TypeRef), read input = .ok t →
      t.text.toList = withoutBlanks input.toList ∧
      t.baseName.toList = (withoutBlanks input.toList).filter (!isModifier ·) := by
  refine ⟨fun t => read_text_eq_ok, ?_⟩
  intro input t h
  have hchars := read_eq_ok.mp h
  have htext := text_of_readChars hchars
  obtain ⟨-, hname⟩ := (readChars_eq_ok_iff.mp hchars).1
  exact ⟨htext, by rw [← htext, filter_text hname]⟩

/-- Blanks of several kinds around the tokens, and two references whose texts read as others. -/
theorem read_inverts_text_node :
    let input := " [\u2003[Node\t!\u0085] ]\n! "
    let t : TypeRef := .nonNull (.list (.list (.nonNull (.named "Node"))))
    read input = .ok t ∧ t.text = "[[Node!]]!" ∧ t.baseName = "Node" ∧
      read (named "[Int]").text ≠ .ok (named "[Int]") ∧
      read (nonNull (named "A!")).text ≠ .ok (nonNull (named "A!")) := by
  intro input t
  have hread : read input = .ok t := by decide +kernel
  obtain ⟨hback, hforth⟩ := read_inverts_text
  obtain ⟨htext, hname⟩ := hforth input t hread
  refine ⟨hread, ?_, ?_, ?_, ?_⟩
  · rw [← String.toList_inj, htext]
    decide
  · rw [← String.toList_inj, hname]
    decide
  · rw [Ne, hback]
    decide
  · rw [Ne, hback]
    decide

end TypeRef

end ValidatorGen

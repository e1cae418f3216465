import ValidatorGen.Text.Layout

/-! Texts put together from lines. Reading lines strips the carriage return in front of a
terminator, so a line is sure to stay non-empty only if it has some other character. -/
namespace ValidatorGen.Text

/-! Reading. -/

/-- A line without the carriage return at its end. -/
def stripReturn : List Char → List Char
  | [] => []
  | ['\r'] => []
  | c :: rest => c :: stripReturn rest

theorem stripReturn_subset (line : List Char) : stripReturn line ⊆ line := by
  fun_induction stripReturn line with
  | case1 => exact List.Subset.refl _
  | case2 => exact List.nil_subset _
  | case3 c rest _ ih => exact List.cons_subset_cons c ih

theorem lines_append_newline {line : List Char} (h : '\n' ∉ line) (rest : List Char) :
    lines (line ++ '\n' :: rest) = stripReturn line :: lines rest := by
  fun_induction stripReturn line with
  | case1 => rw [List.nil_append, lines]
  | case2 => simp [lines]
  | case3 c line hreturn ih =>
    obtain ⟨hc, hline⟩ := not_or.mp (mt List.mem_cons.mpr h)
    rw [List.cons_append, lines, ih hline]
    · exact Ne.symm hc
    · rintro tail rfl htail
      cases line with
      | nil => exact hreturn rfl rfl
      | cons d line => simp_all

theorem lines_of_not_mem {line : List Char} (h : '\n' ∉ line) (hne : line ≠ []) :
    lines line = [line] := by
  induction line with
  | nil => exact (hne rfl).elim
  | cons c line ih =>
    obtain ⟨hc, hline⟩ := not_or.mp (mt List.mem_cons.mpr h)
    rw [lines]
    · cases line with
      | nil => rfl
      | cons d line => rw [ih hline (List.cons_ne_nil d line)]
    · exact Ne.symm hc
    · rintro tail rfl rfl
      simp at hline

theorem lines_ne_nil {cs : List Char} (h : cs ≠ []) : lines cs ≠ [] := by
  fun_cases lines cs with
  | case1 => exact (h rfl).elim
  | case2 => simp
  | case3 => simp
  | case4 => simp
  | case5 => simp

/-! Texts put together from texts with a property that carries over to two side by side. -/

section Together

variable {P : String → Prop} (hempty : P "") (happend : ∀ {s t : String}, P s → P t → P (s ++ t))
include hempty happend

theorem join_of_append {texts : List String} (h : ∀ text ∈ texts, P text) :
    P (String.join texts) := by
  induction texts with
  | nil => exact hempty
  | cons text texts ih =>
    obtain ⟨htext, htexts⟩ := List.forall_mem_cons.mp h
    rw [String.join_cons]
    exact happend htext (ih htexts)

theorem intercalate_of_append {sep : String} (hsep : P sep) {texts : List String}
    (h : ∀ text ∈ texts, P text) : P (sep.intercalate texts) := by
  induction texts with
  | nil => simpa using hempty
  | cons text texts ih =>
    obtain ⟨htext, htexts⟩ := List.forall_mem_cons.mp h
    cases texts with
    | nil => simpa using htext
    | cons next texts =>
      rw [String.intercalate_cons_cons]
      exact happend (happend htext hsep) (ih htexts)

end Together

/-! Texts on one line. -/

def OneLine (s : String) : Prop :=
  '\n' ∉ s.toList

instance : DecidablePred OneLine :=
  fun s => inferInstanceAs (Decidable ('\n' ∉ s.toList))

@[simp] theorem oneLine_append {s t : String} : OneLine (s ++ t) ↔ OneLine s ∧ OneLine t := by
  simp [OneLine]

theorem OneLine.append {s t : String} (hs : OneLine s) (ht : OneLine t) : OneLine (s ++ t) :=
  oneLine_append.mpr ⟨hs, ht⟩

theorem oneLine_ofList {cs : List Char} : OneLine (String.ofList cs) ↔ '\n' ∉ cs := by
  simp [OneLine]

theorem oneLine_join {texts : List String} (h : ∀ text ∈ texts, OneLine text) :
    OneLine (String.join texts) :=
  join_of_append (by decide) OneLine.append h

theorem oneLine_intercalate {sep : String} (hsep : OneLine sep) {texts : List String}
    (h : ∀ text ∈ texts, OneLine text) : OneLine (sep.intercalate texts) :=
  intercalate_of_append (by decide) OneLine.append hsep h

/-- The text has no control character. -/
def Printable (cs : List Char) : Prop :=
  ∀ c ∈ cs, 0x20 ≤ c.toNat

instance : DecidablePred Printable :=
  fun cs => List.decidableBAll (0x20 ≤ Char.toNat ·) cs

namespace Printable

@[simp] theorem nil : Printable [] := by
  simp [Printable]

@[simp] theorem cons {c : Char} {cs : List Char} :
    Printable (c :: cs) ↔ 0x20 ≤ c.toNat ∧ Printable cs :=
  List.forall_mem_cons

@[simp] theorem append {cs ds : List Char} :
    Printable (cs ++ ds) ↔ Printable cs ∧ Printable ds :=
  List.forall_mem_append

theorem subset {cs ds : List Char} (h : Printable ds) (hsub : cs ⊆ ds) : Printable cs :=
  fun c hc => h c (hsub hc)

theorem intercalate {sep : String} (hsep : Printable sep.toList) {texts : List String}
    (h : ∀ text ∈ texts, Printable text.toList) : Printable (sep.intercalate texts).toList := by
  apply intercalate_of_append (P := fun s => Printable s.toList) _ _ hsep h
  · exact nil
  · intro s t hs ht
    rw [String.toList_append]
    exact append.mpr ⟨hs, ht⟩

theorem oneLine {s : String} (h : Printable s.toList) : OneLine s := by
  intro hmem
  have hcode := h '\n' hmem
  simp at hcode

end Printable

/-! Indenting. -/

theorem indent_eq_ofList {s : String} (h : OneLine s) (hne : s ≠ "") (level : Nat) :
    indent level s = String.ofList (indentLine level s.toList) := by
  rw [indent, lines_of_not_mem h (by simpa using hne)]
  simp

theorem indent_append_newline {s t : String} (h : OneLine s) (hne : t ≠ "") (level : Nat) :
    indent level (s ++ "\n" ++ t) =
      String.ofList (indentLine level (stripReturn s.toList)) ++ "\n" ++ indent level t := by
  have hlines : lines (s ++ "\n" ++ t).toList = stripReturn s.toList :: lines t.toList := by
    simpa using lines_append_newline h t.toList
  have hrest : lines t.toList ≠ [] := lines_ne_nil (by simpa using hne)
  rw [indent, hlines, List.map_cons, String.intercalate_cons_of_ne_nil (by simpa using hrest),
    indent]

theorem not_mem_indentLine {line : List Char} (h : '\n' ∉ line) (level : Nat) :
    '\n' ∉ indentLine level line := by
  unfold indentLine
  split
  · exact List.not_mem_nil
  · simp [h]

/-! Texts without empty lines. -/

/-- The line has more than carriage returns. -/
def Visible (line : List Char) : Prop :=
  ∃ c ∈ line, c ≠ '\r'

instance : DecidablePred Visible :=
  fun line => List.decidableBEx (· ≠ '\r') line

namespace Visible

variable {line : List Char}

theorem ne_nil (h : Visible line) : line ≠ [] := by
  rintro rfl
  obtain ⟨c, hc, -⟩ := h
  exact List.not_mem_nil hc

theorem of_subset {more : List Char} (h : Visible line) (hsub : line ⊆ more) : Visible more := by
  obtain ⟨c, hc, hne⟩ := h
  exact ⟨c, hsub hc, hne⟩

theorem stripReturn (h : Visible line) : Visible (stripReturn line) := by
  fun_induction Text.stripReturn line with
  | case1 => exact h
  | case2 => simp [Visible] at h
  | case3 c rest _ ih =>
    obtain ⟨d, hd, hne⟩ := h
    rcases List.mem_cons.mp hd with rfl | hd
    · exact ⟨d, List.mem_cons_self, hne⟩
    · exact (ih ⟨d, hd, hne⟩).of_subset (List.subset_cons_self c _)

theorem indentLine (h : Visible line) (level : Nat) : Visible (indentLine level line) := by
  rw [Text.indentLine, if_neg h.ne_nil]
  exact h.of_subset (List.subset_append_right _ _)

end Visible

/-- A visible text on one line. -/
structure SolidLine (s : String) : Prop where
  oneLine : OneLine s
  visible : Visible s.toList

instance : DecidablePred SolidLine :=
  fun _ => decidable_of_iff _ ⟨fun h => ⟨h.1, h.2⟩, fun h => And.intro h.oneLine h.visible⟩

/-- Visible lines with a line feed between each two of them. -/
inductive Solid : String → Prop
  | line {s : String} (h : SolidLine s) : Solid s
  | cons {s t : String} (hs : SolidLine s) (ht : Solid t) : Solid (s ++ "\n" ++ t)

namespace SolidLine

variable {s t : String}

theorem append (hs : SolidLine s) (ht : OneLine t) : SolidLine (s ++ t) where
  oneLine := hs.oneLine.append ht
  visible := hs.visible.of_subset (by simp)

theorem prepend (ht : SolidLine t) (hs : OneLine s) : SolidLine (s ++ t) where
  oneLine := hs.append ht.oneLine
  visible := ht.visible.of_subset (by simp)

theorem ofList_indentLine {line : List Char} (h : '\n' ∉ line) (hvisible : Visible line)
    (level : Nat) : SolidLine (String.ofList (indentLine level line)) where
  oneLine := oneLine_ofList.mpr (not_mem_indentLine h level)
  visible := by simpa using hvisible.indentLine level

end SolidLine

namespace Solid

variable {s t : String}

theorem ne_empty (h : Solid s) : s ≠ "" := by
  cases h with
  | line h => simpa using h.visible.ne_nil
  | cons hs ht => simp

theorem append_newline (hs : Solid s) (ht : Solid t) : Solid (s ++ "\n" ++ t) := by
  induction hs with
  | line h => exact .cons h ht
  | cons hline _ ih => simpa only [String.append_assoc] using cons hline ih

theorem append (hs : Solid s) (ht : OneLine t) : Solid (s ++ t) := by
  induction hs with
  | line h => exact .line (h.append ht)
  | cons hline _ ih =>
    rw [String.append_assoc]
    exact .cons hline ih

theorem prepend (ht : Solid t) (hs : OneLine s) : Solid (s ++ t) := by
  cases ht with
  | line h => exact .line (h.prepend hs)
  | cons hline hrest =>
    rw [← String.append_assoc, ← String.append_assoc]
    exact .cons (hline.prepend hs) hrest

/-- No line of the text is lost when it is indented. -/
theorem indent (h : Solid s) (level : Nat) : Solid (indent level s) := by
  induction h with
  | line h =>
    rw [indent_eq_ofList h.oneLine (line h).ne_empty]
    exact .line (.ofList_indentLine h.oneLine h.visible level)
  | cons hline hrest ih =>
    rw [indent_append_newline hline.oneLine hrest.ne_empty]
    have hfree := fun hmem => hline.oneLine (stripReturn_subset _ hmem)
    exact .cons (.ofList_indentLine hfree hline.visible.stripReturn level) ih

end Solid

end ValidatorGen.Text

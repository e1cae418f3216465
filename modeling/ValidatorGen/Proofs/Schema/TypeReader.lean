import ValidatorGen.Proofs.Schema.WellFormed
import ValidatorGen.Proofs.Text.Blank
import ValidatorGen.Schema.TypeRef.Reader

/-! Reading a type reference by the ends of its text. Blanks around the text do not matter; apart
from them a text ends in a mark, or stands in brackets, or opens a bracket that it does not close,
or is read as a name. -/
namespace ValidatorGen.TypeRef
open ValidatorGen.Text

theorem isNameStart_iff {c : Char} : isNameStart c = true ↔ IsNameStart c := by
  have hupper : c.isUpper = true ↔ 'A' ≤ c ∧ c ≤ 'Z' := decide_eq_true_iff
  have hlower : c.isLower = true ↔ 'a' ≤ c ∧ c ≤ 'z' := by
    show (decide ('a' ≤ c) && decide (c ≤ 'z')) = true ↔ _
    rw [Bool.and_eq_true, decide_eq_true_iff, decide_eq_true_iff]
  show (c == '_' || (c.isUpper || c.isLower)) = true ↔ _
  rw [Bool.or_eq_true, Bool.or_eq_true, beq_iff_eq, hupper, hlower]
  rfl

theorem isNameRest_iff {c : Char} : isNameRest c = true ↔ IsNamePart c := by
  have hdigit : c.isDigit = true ↔ '0' ≤ c ∧ c ≤ '9' := by
    show (decide ('0' ≤ c) && decide (c ≤ '9')) = true ↔ _
    rw [Bool.and_eq_true, decide_eq_true_iff, decide_eq_true_iff]
  show (c == '_' || (c.isAlpha || c.isDigit)) = true ↔ _
  rw [← Bool.or_assoc, Bool.or_eq_true, hdigit]
  exact or_congr_left isNameStart_iff

instance : DecidablePred IsName := fun name =>
  match h : name.toList with
  | [] => isFalse (by simp [IsName, h])
  | first :: rest =>
    decidable_of_iff (isNameStart first = true ∧ rest.all isNameRest = true)
      (by simp [IsName, h, isNameStart_iff, isNameRest_iff, and_assoc])

/-- The code points of names are far from blanks, brackets and marks. -/
theorem IsNamePart.toNat {c : Char} (h : IsNamePart c) :
    (48 ≤ c.toNat ∧ c.toNat ≤ 57) ∨ (65 ≤ c.toNat ∧ c.toNat ≤ 90) ∨ c.toNat = 95 ∨
      (97 ≤ c.toNat ∧ c.toNat ≤ 122) := by
  rcases h with (rfl | h | h) | h
  · decide
  · exact Or.inr (Or.inl h)
  · exact Or.inr (Or.inr (Or.inr h))
  · exact Or.inl h

theorem IsNamePart.isBlank_eq_false {c : Char} (h : IsNamePart c) : isBlank c = false := by
  have := h.toNat
  simp only [isBlank, Bool.or_eq_false_iff, Bool.and_eq_false_iff, decide_eq_false_iff_not,
    beq_eq_false_iff_ne]
  omega

theorem IsNamePart.ne {c d : Char} (h : IsNamePart c) (hd : d = '!' ∨ d = '[') : c ≠ d := by
  rintro rfl
  have := h.toNat
  rcases hd with rfl | rfl <;> revert this <;> decide

theorem IsName.isNamePart {name : String} (h : IsName name) : ∀ c ∈ name.toList, IsNamePart c := by
  obtain ⟨first, rest, hname, hfirst, hrest⟩ := h
  intro c hc
  rw [hname] at hc
  rcases List.mem_cons.mp hc with rfl | hc
  · exact Or.inl hfirst
  · exact hrest c hc

theorem IsName.trim_toList {name : String} (h : IsName name) :
    trim name.toList = name.toList :=
  trim_eq_self fun c hc => (h.isNamePart c hc).isBlank_eq_false

theorem IsName.head?_ne {name : String} (h : IsName name) : name.toList.head? ≠ some '[' :=
  fun hc => (h.isNamePart _ (List.mem_of_head? hc)).ne (Or.inr rfl) rfl

theorem IsName.getLast?_ne {name : String} (h : IsName name) : name.toList.getLast? ≠ some '!' :=
  fun hc => (h.isNamePart _ (List.mem_of_getLast? hc)).ne (Or.inl rfl) rfl

theorem readName_eq_ok {cs : List Char} {t : TypeRef} :
    readName cs = .ok t ↔ ∃ name, name.toList = cs ∧ IsName name ∧ t = named name := by
  constructor
  · intro h
    refine ⟨String.ofList cs, String.toList_ofList, ?_⟩
    cases cs with
    | nil => cases h
    | cons first rest =>
      simp only [readName] at h
      split at h
      · cases h
      split at h
      · cases h
      cases h
      refine ⟨⟨first, rest, String.toList_ofList, ?_, ?_⟩, rfl⟩
      · simp_all [isNameStart_iff]
      · simp_all [isNameRest_iff]
  · rintro ⟨name, rfl, ⟨first, rest, hname, hfirst, hrest⟩, rfl⟩
    have hall : rest.all isNameRest = true := by simpa [isNameRest_iff] using hrest
    rw [← String.ofList_toList (s := name), hname]
    simp [readName, isNameStart_iff.mpr hfirst, hall]

@[simp] theorem beforeLast?_concat (last : Char) (cs : List Char) :
    beforeLast? last (cs ++ [last]) = some cs := by
  simp [beforeLast?]

theorem beforeLast?_eq_none {last : Char} {cs : List Char} (h : cs.getLast? ≠ some last) :
    beforeLast? last cs = none := by
  simp [beforeLast?, h]

/-- Around what a mark or a bracket encloses, all that counts is whether it can be read. -/
def wrap (f : TypeRef → TypeRef) (fault : Fault) : Except Fault TypeRef → Except Fault TypeRef
  | .ok t => .ok (f t)
  | .error _ => .error fault

@[simp] theorem wrap_eq_ok {f : TypeRef → TypeRef} {fault : Fault} {r : Except Fault TypeRef}
    {t : TypeRef} : wrap f fault r = .ok t ↔ ∃ inner, r = .ok inner ∧ t = f inner := by
  cases r <;> simp [wrap, eq_comm]

theorem readChars_eq (cs : List Char) : readChars cs =
    match beforeLast? '!' (trim cs) with
    | some front =>
      if (trimEnd front).getLast? = some '!' then .error .repeatedNonNull
      else wrap nonNull .malformedNonNull (readChars (trimEnd front))
    | none =>
      match trim cs with
      | '[' :: rest =>
        match beforeLast? ']' rest with
        | some middle => wrap list .malformedElement (readChars middle)
        | none => .error .unterminatedList
      | name => readName name := by
  rw [readChars.eq_def]
  split
  · next front h =>
    simp only [h]
    split
    · rfl
    · cases readChars (trimEnd front) <;> rfl
  · next h =>
    simp only [h]
    split
    · next rest hrest =>
      simp only [hrest]
      split
      · next middle hmiddle =>
        simp only [hmiddle]
        cases readChars middle <;> rfl
      · next hmiddle => simp only [hmiddle]
    · next hopen =>
      split
      · next rest hrest => exact (hopen rest hrest).elim
      · rfl

/-- Reading looks at the trimmed text only. -/
theorem readChars_trim (cs : List Char) : readChars (trim cs) = readChars cs := by
  rw [readChars_eq, readChars_eq cs, trim_trim]

theorem readChars_congr {cs ds : List Char} (h : trim cs = trim ds) :
    readChars cs = readChars ds := by
  rw [← readChars_trim cs, h, readChars_trim]

theorem trim_append_cons {c : Char} (hc : isBlank c = false) (cs : List Char) {after : List Char}
    (h : AllBlank after) : trim (cs ++ c :: after) = trimStart cs ++ [c] := by
  rw [List.append_cons, trim_append_right h, trim, trimStart_append_cons hc, trimEnd_concat hc]

theorem readChars_bang (cs : List Char) {after : List Char} (h : AllBlank after) :
    readChars (cs ++ '!' :: after) =
      if (trim cs).getLast? = some '!' then .error .repeatedNonNull
      else wrap nonNull .malformedNonNull (readChars cs) := by
  rw [readChars_eq, trim_append_cons rfl _ h, beforeLast?_concat, ← readChars_trim cs]
  rfl

theorem readChars_brackets {before after : List Char} (hb : AllBlank before) (cs : List Char)
    (ha : AllBlank after) :
    readChars (before ++ '[' :: (cs ++ ']' :: after)) =
      wrap list .malformedElement (readChars cs) := by
  have htrim : trim (before ++ '[' :: (cs ++ ']' :: after)) = '[' :: (cs ++ [']']) := by
    rw [trim_append_left hb, ← List.cons_append, trim_append_cons rfl _ ha, trimStart_cons rfl]
    rfl
  have hlast : ('[' :: (cs ++ [']'])).getLast? ≠ some '!' := by
    rw [← List.cons_append, List.getLast?_concat]
    decide
  rw [readChars_eq, htrim, beforeLast?_eq_none hlast]
  simp

/-- A text with a bracket at its start and neither a bracket nor a mark at its end. -/
theorem readChars_unterminated {cs rest : List Char} (h : trim cs = '[' :: rest)
    (hclose : rest.getLast? ≠ some ']') (hbang : rest.getLast? ≠ some '!') :
    readChars cs = .error .unterminatedList := by
  have hlast : ('[' :: rest).getLast? ≠ some '!' := by
    cases rest <;> simp_all [List.getLast?_cons]
  rw [readChars_eq, h, beforeLast?_eq_none hlast]
  simp [beforeLast?_eq_none hclose]

theorem readChars_name {cs : List Char} (hopen : (trim cs).head? ≠ some '[')
    (hbang : (trim cs).getLast? ≠ some '!') : readChars cs = readName (trim cs) := by
  rw [readChars_eq, beforeLast?_eq_none hbang]
  cases h : trim cs with
  | nil => rfl
  | cons c rest =>
    have hc : c ≠ '[' := by simpa [h] using hopen
    simp [hc]

/-- Every text has one of the four forms above. -/
theorem readChars_cases (cs : List Char) :
    (∃ front after, AllBlank after ∧ cs = front ++ '!' :: after) ∨
    (∃ before middle after, AllBlank before ∧ AllBlank after ∧
      cs = before ++ '[' :: (middle ++ ']' :: after)) ∨
    (∃ rest, trim cs = '[' :: rest ∧ rest.getLast? ≠ some ']' ∧ rest.getLast? ≠ some '!') ∨
    ((trim cs).head? ≠ some '[' ∧ (trim cs).getLast? ≠ some '!') := by
  obtain ⟨before, after, hb, ha, hcs⟩ := exists_append_trim cs
  by_cases hbang : (trim cs).getLast? = some '!'
  · exact Or.inl ((getLast?_trim_eq_some_iff rfl).mp hbang)
  by_cases hopen : (trim cs).head? = some '['
  · obtain ⟨rest, hrest⟩ := List.head?_eq_some_iff.mp hopen
    right
    by_cases hclose : rest.getLast? = some ']'
    · left
      obtain ⟨middle, hmiddle⟩ := List.getLast?_eq_some_iff.mp hclose
      exact ⟨before, middle, after, hb, ha, by rw [hcs, hrest, hmiddle]; simp⟩
    · right
      left
      refine ⟨rest, hrest, hclose, ?_⟩
      intro h
      apply hbang
      rw [hrest, List.getLast?_cons, h]
      rfl
  · exact Or.inr (Or.inr (Or.inr ⟨hopen, hbang⟩))

/-- What reading a type reference from a text says of the text. -/
theorem readChars_eq_ok {cs : List Char} {t : TypeRef} (h : readChars cs = .ok t) :
    (∃ front after inner, AllBlank after ∧ cs = front ++ '!' :: after ∧
      (trim front).getLast? ≠ some '!' ∧ readChars front = .ok inner ∧ t = nonNull inner) ∨
    (∃ before middle after element, AllBlank before ∧ AllBlank after ∧
      cs = before ++ '[' :: (middle ++ ']' :: after) ∧ readChars middle = .ok element ∧
      t = list element) ∨
    (∃ name, trim cs = name.toList ∧ IsName name ∧ t = named name) := by
  rcases readChars_cases cs with ⟨front, after, ha, rfl⟩ | ⟨before, middle, after, hb, ha, rfl⟩ |
    ⟨rest, hrest, hclose, hbang⟩ | ⟨hopen, hbang⟩
  · rw [readChars_bang front ha] at h
    split at h
    · cases h
    · next hlast =>
      obtain ⟨inner, hinner, rfl⟩ := wrap_eq_ok.mp h
      exact Or.inl ⟨front, after, inner, ha, rfl, hlast, hinner, rfl⟩
  · rw [readChars_brackets hb middle ha] at h
    obtain ⟨element, helement, rfl⟩ := wrap_eq_ok.mp h
    exact Or.inr (Or.inl ⟨before, middle, after, element, hb, ha, rfl, helement, rfl⟩)
  · rw [readChars_unterminated hrest hclose hbang] at h
    cases h
  · rw [readChars_name hopen hbang] at h
    obtain ⟨name, hname, hn, rfl⟩ := readName_eq_ok.mp h
    exact Or.inr (Or.inr ⟨name, hname.symm, hn, rfl⟩)

/-- The last character of a text tells whether the reference in it is non-null. -/
theorem getLast?_trim_eq_bang_iff {cs : List Char} {t : TypeRef} (h : readChars cs = .ok t) :
    (trim cs).getLast? = some '!' ↔ t.isNonNull = true := by
  rcases readChars_eq_ok h with ⟨front, after, inner, ha, rfl, -, -, rfl⟩ |
    ⟨before, middle, after, element, hb, ha, rfl, -, rfl⟩ | ⟨name, hname, hn, rfl⟩
  · rw [trim_append_cons rfl _ ha, List.getLast?_concat]
    simp [isNonNull]
  · rw [trim_append_left hb, ← List.cons_append, trim_append_cons rfl _ ha, List.getLast?_concat]
    simp [isNonNull]
  · rw [hname]
    simp [isNonNull, hn.getLast?_ne]

end ValidatorGen.TypeRef

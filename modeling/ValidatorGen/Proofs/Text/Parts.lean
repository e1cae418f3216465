import ValidatorGen.Proofs.Text.Indent

/-! Texts as parts of other texts. Indenting rewrites the lines of a text, so what stands on several
lines of it is a part of the indented text only up to spaces and line breaks. What stands on one
line is still there as it was. -/
namespace ValidatorGen.Text

/-- The first text is a part of the second one. -/
def Within (part text : String) : Prop :=
  part.toList <:+: text.toList

/-- The characters of a text but its spaces and line breaks. -/
def ink (cs : List Char) : List Char :=
  cs.filter fun c => c ≠ ' ' ∧ c ≠ '\n' ∧ c ≠ '\r'

/-- The first text is a part of the second one up to spaces and line breaks. -/
def Shown (part text : String) : Prop :=
  ink part.toList <:+: ink text.toList

/-- A property that what is put together from texts has from any of them. -/
structure Inherited (P : String → Prop) : Prop where
  append_left (s : String) {t : String} : P t → P (s ++ t)
  append_right {s : String} (t : String) : P s → P (s ++ t)
  indent (level : Nat) {t : String} : P t → P (indent level t)

theorem intercalate_of_mem {P : String → Prop} (hleft : ∀ s {t : String}, P t → P (s ++ t))
    (hright : ∀ {s : String} t, P s → P (s ++ t)) (sep : String) {items : List String}
    {item : String} (hmem : item ∈ items) (hitem : P item) : P (sep.intercalate items) := by
  induction items with
  | nil => cases hmem
  | cons first rest ih =>
    cases rest with
    | nil =>
      obtain rfl := List.mem_singleton.mp hmem
      simpa using hitem
    | cons next rest =>
      rw [String.intercalate_cons_cons]
      rcases List.mem_cons.mp hmem with rfl | hrest
      · exact hright _ (hright _ hitem)
      · exact hleft _ (ih hrest)

/-! Up to spaces and line breaks. -/

@[simp] theorem ink_append (cs ds : List Char) : ink (cs ++ ds) = ink cs ++ ink ds :=
  List.filter_append ..

theorem ink_cons (c : Char) (cs : List Char) : ink (c :: cs) = ink [c] ++ ink cs :=
  ink_append [c] cs

theorem ink_indentLine (level : Nat) (line : List Char) :
    ink (indentLine level line) = ink line := by
  unfold indentLine
  split
  · simp_all
  · simp [ink]

theorem flatMap_ink_lines (cs : List Char) : (lines cs).flatMap ink = ink cs := by
  fun_induction lines cs with
  | case1 => rfl
  | case2 rest ih => simpa [ink] using ih
  | case3 rest ih => simpa [ink] using ih
  | case4 c rest _ _ hnil =>
    obtain rfl : rest = [] := Decidable.byContradiction fun hne => lines_ne_nil hne hnil
    simp
  | case5 c rest _ _ line more hlines ih =>
    rw [hlines, List.flatMap_cons] at ih
    rw [List.flatMap_cons, ink_cons c line, ink_cons c rest, ← ih, List.append_assoc]

theorem ink_intercalate_newline (ls : List String) :
    ink ("\n".intercalate ls).toList = ls.flatMap fun l => ink l.toList := by
  induction ls with
  | nil => rfl
  | cons l rest ih =>
    cases rest with
    | nil => simp
    | cons next rest =>
      have hnewline : ink "\n".toList = [] := by decide
      rw [String.intercalate_cons_cons, String.toList_append, String.toList_append, ink_append,
        ink_append, hnewline, ih, List.append_nil]
      rfl

theorem ink_indent (level : Nat) (text : String) :
    ink (indent level text).toList = ink text.toList := by
  rw [indent, ink_intercalate_newline, List.flatMap_map, ← flatMap_ink_lines text.toList]
  simp only [String.toList_ofList, ink_indentLine]

theorem inherited_shown (part : String) : Inherited (Shown part) where
  append_left s t h := by
    rw [Shown, String.toList_append, ink_append]
    exact h.trans (List.suffix_append _ _).isInfix
  append_right t h := by
    rw [Shown, String.toList_append, ink_append]
    exact h.trans (List.prefix_append _ _).isInfix
  indent level t h := by
    rw [Shown, ink_indent]
    exact h

/-! On one line. -/

section Unbroken

variable {part cs : List Char} (hbreak : ∀ c ∈ part, c ≠ '\n' ∧ c ≠ '\r') (hne : part ≠ [])
include hbreak hne

theorem not_prefix_of_break {c : Char} (hc : c = '\n' ∨ c = '\r') (rest : List Char) :
    ¬ part <+: c :: rest := by
  intro h
  obtain ⟨d, part, rfl⟩ := List.exists_cons_of_ne_nil hne
  obtain ⟨hnewline, hreturn⟩ := hbreak d List.mem_cons_self
  rw [(List.cons_prefix_cons.mp h).1] at hnewline hreturn
  exact hc.elim hnewline hreturn

/-- What starts a text without breaking its line starts the first line. -/
theorem exists_lines_eq_of_prefix (h : part <+: cs) :
    ∃ line more, lines cs = line :: more ∧ part <+: line := by
  induction part generalizing cs with
  | nil => exact (hne rfl).elim
  | cons c part ih =>
    obtain ⟨rest, rfl⟩ := h
    obtain ⟨⟨hnewline, hreturn⟩, hpart⟩ := List.forall_mem_cons.mp hbreak
    rw [List.cons_append]
    cases hlines : lines (part ++ rest) with
    | nil =>
      have hnil : part ++ rest = [] :=
        Decidable.byContradiction fun hne => lines_ne_nil hne hlines
      obtain ⟨rfl, rfl⟩ := List.append_eq_nil_iff.mp hnil
      exact ⟨[c], [], lines_of_not_mem (by simp [hnewline.symm]) (by simp), List.prefix_rfl⟩
    | cons line more =>
      have hcons : lines (c :: (part ++ rest)) = (c :: line) :: more := by
        rw [lines, hlines]
        · exact hnewline
        · intro _ hc
          exact absurd hc hreturn
      have hline : part <+: line := by
        by_cases hempty : part = []
        · exact hempty ▸ List.nil_prefix
        · obtain ⟨first, others, heq, hprefix⟩ := ih hpart hempty (List.prefix_append part rest)
          rw [hlines] at heq
          exact (List.cons.inj heq).1 ▸ hprefix
      exact ⟨c :: line, more, hcons, List.cons_prefix_cons.mpr ⟨rfl, hline⟩⟩

/-- What stands in a text without breaking its line stands in one of its lines. -/
theorem exists_line_of_infix (h : part <:+: cs) : ∃ line ∈ lines cs, part <:+: line := by
  have hstart {cs : List Char} (h : part <+: cs) : ∃ line ∈ lines cs, part <:+: line := by
    obtain ⟨line, more, hlines, hprefix⟩ := exists_lines_eq_of_prefix hbreak hne h
    exact ⟨line, by simp [hlines], hprefix.isInfix⟩
  fun_induction lines cs with
  | case1 => exact (hne (List.infix_nil.mp h)).elim
  | case2 rest ih =>
    have hrest := (List.infix_cons_iff.mp h).resolve_left
      (not_prefix_of_break hbreak hne (Or.inl rfl) rest)
    obtain ⟨line, hline, hinfix⟩ := ih hrest
    exact ⟨line, List.mem_cons_of_mem _ hline, hinfix⟩
  | case3 rest ih =>
    have hmore := (List.infix_cons_iff.mp h).resolve_left
      (not_prefix_of_break hbreak hne (Or.inr rfl) _)
    have hrest := (List.infix_cons_iff.mp hmore).resolve_left
      (not_prefix_of_break hbreak hne (Or.inl rfl) rest)
    obtain ⟨line, hline, hinfix⟩ := ih hrest
    exact ⟨line, List.mem_cons_of_mem _ hline, hinfix⟩
  | case4 c rest _ _ hnil =>
    obtain rfl : rest = [] := Decidable.byContradiction fun hne => lines_ne_nil hne hnil
    exact ⟨[c], List.mem_singleton_self _, h⟩
  | case5 c rest _ _ first more hlines ih =>
    rcases List.infix_cons_iff.mp h with hprefix | hrest
    · have hcons : lines (c :: rest) = (c :: first) :: more := by
        rw [lines, hlines] <;> assumption
      exact hcons ▸ hstart hprefix
    · obtain ⟨line, hline, hinfix⟩ := ih hrest
      rcases List.mem_cons.mp (hlines ▸ hline) with rfl | hmore
      · exact ⟨c :: line, List.mem_cons_self, List.infix_cons_iff.mpr (Or.inr hinfix)⟩
      · exact ⟨line, List.mem_cons_of_mem _ hmore, hinfix⟩

end Unbroken

namespace Within

variable {part : String}

theorem append_left (s : String) {t : String} (h : Within part t) : Within part (s ++ t) := by
  rw [Within, String.toList_append]
  exact h.trans (List.suffix_append _ _).isInfix

theorem append_right {s : String} (t : String) (h : Within part s) : Within part (s ++ t) := by
  rw [Within, String.toList_append]
  exact h.trans (List.prefix_append _ _).isInfix

theorem refl (part : String) : Within part part :=
  List.infix_refl _

end Within

/-- A text on one line is not lost when the text around it is indented. -/
theorem Unbroken.inherited_within {part : String} (h : Unbroken part) (hne : part ≠ "") :
    Inherited (Within part) where
  append_left := Within.append_left
  append_right := Within.append_right
  indent level text hpart := by
    obtain ⟨line, hline, hinfix⟩ := exists_line_of_infix h (by simpa using hne) hpart
    have hpadded : line <:+: indentLine level line := by
      unfold indentLine
      split
      · simp_all
      · exact (List.suffix_append _ _).isInfix
    have hitem : Within part (String.ofList (indentLine level line)) := by
      rw [Within, String.toList_ofList]
      exact hinfix.trans hpadded
    exact intercalate_of_mem Within.append_left Within.append_right "\n"
      (List.mem_map_of_mem hline) hitem

end ValidatorGen.Text

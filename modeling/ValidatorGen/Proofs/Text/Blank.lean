import Mathlib.Data.List.DropRight
import ValidatorGen.Text.Layout

/-! Trimming takes off the blanks at both ends and nothing else. -/
namespace ValidatorGen.Text

def AllBlank (cs : List Char) : Prop :=
  ∀ c ∈ cs, isBlank c = true

@[simp] theorem allBlank_nil : AllBlank [] := by simp [AllBlank]

theorem AllBlank.append {cs ds : List Char} (hc : AllBlank cs) (hd : AllBlank ds) :
    AllBlank (cs ++ ds) := by
  intro c h
  rcases List.mem_append.mp h with h | h
  · exact hc c h
  · exact hd c h

theorem trimEnd_eq_rdropWhile (cs : List Char) : trimEnd cs = cs.rdropWhile isBlank := rfl

theorem allBlank_takeWhile (cs : List Char) : AllBlank (cs.takeWhile isBlank) :=
  fun _ h => List.mem_takeWhile_imp h

theorem allBlank_rtakeWhile (cs : List Char) : AllBlank (cs.rtakeWhile isBlank) :=
  fun _ h => List.mem_rtakeWhile_imp h

/-- A text is its trimmed text with blanks before and after. -/
theorem exists_append_trim (cs : List Char) :
    ∃ before after, AllBlank before ∧ AllBlank after ∧ cs = before ++ trim cs ++ after := by
  refine ⟨_, _, allBlank_takeWhile cs, allBlank_rtakeWhile (trimStart cs), ?_⟩
  rw [trim, trimEnd_eq_rdropWhile, List.append_assoc, List.rdropWhile_append_rtakeWhile]
  exact List.takeWhile_append_dropWhile.symm

theorem trimStart_append {before : List Char} (h : AllBlank before) (cs : List Char) :
    trimStart (before ++ cs) = trimStart cs :=
  List.dropWhile_append_of_pos h

theorem trimEnd_append {after : List Char} (h : AllBlank after) (cs : List Char) :
    trimEnd (cs ++ after) = trimEnd cs := by
  have hr : ∀ c ∈ after.reverse, isBlank c = true := fun c hc => h c (List.mem_reverse.mp hc)
  simp only [trimEnd, List.reverse_append, List.dropWhile_append_of_pos hr]

theorem trimStart_eq_nil {cs : List Char} (h : AllBlank cs) : trimStart cs = [] :=
  List.dropWhile_eq_nil_iff.mpr h

@[simp] theorem trimStart_cons {c : Char} (h : isBlank c = false) (cs : List Char) :
    trimStart (c :: cs) = c :: cs :=
  List.dropWhile_cons_of_neg (by simp [h])

@[simp] theorem trimEnd_concat {c : Char} (h : isBlank c = false) (cs : List Char) :
    trimEnd (cs ++ [c]) = cs ++ [c] :=
  List.rdropWhile_concat_neg isBlank cs c (by simp [h])

theorem trim_eq_self {cs : List Char} (h : ∀ c ∈ cs, isBlank c = false) : trim cs = cs := by
  have hstart : trimStart cs = cs := by
    cases cs with
    | nil => rfl
    | cons c rest => exact trimStart_cons (h c (by simp)) rest
  rw [trim, hstart, trimEnd_eq_rdropWhile, List.rdropWhile_eq_self_iff]
  intro hne
  simp [h _ (List.getLast_mem hne)]

/-- Blanks are dropped before a character that is none, also where only blanks stand before it. -/
theorem trimStart_append_cons {c : Char} (h : isBlank c = false) (cs ds : List Char) :
    trimStart (cs ++ c :: ds) = trimStart cs ++ c :: ds := by
  rw [trimStart, List.dropWhile_append]
  split
  · next hcs => simp [trimStart, List.isEmpty_iff.mp hcs, h]
  · rfl

/-- The ends of a text may be trimmed in either order. -/
theorem trim_eq_trimStart_trimEnd (cs : List Char) : trim cs = trimStart (trimEnd cs) := by
  induction cs using List.reverseRecOn with
  | nil => rfl
  | append_singleton cs c ih =>
    cases hc : isBlank c with
    | true =>
      have hblank : AllBlank [c] := by simp [AllBlank, hc]
      rw [trimEnd_append hblank, ← ih, trim, trim]
      by_cases hcs : AllBlank cs
      · rw [trimStart_eq_nil hcs, trimStart_eq_nil (hcs.append hblank)]
      · have hne : (cs.dropWhile isBlank).isEmpty = false := by
          simpa [AllBlank] using hcs
        rw [trimStart, List.dropWhile_append, hne]
        exact trimEnd_append hblank _
    | false => rw [trimEnd_concat hc, trim, trimStart_append_cons hc, trimEnd_concat hc]

theorem trim_append_left {before : List Char} (h : AllBlank before) (cs : List Char) :
    trim (before ++ cs) = trim cs := by
  rw [trim, trimStart_append h, trim]

theorem trim_append_right {after : List Char} (h : AllBlank after) (cs : List Char) :
    trim (cs ++ after) = trim cs := by
  rw [trim_eq_trimStart_trimEnd, trimEnd_append h, trim_eq_trimStart_trimEnd]

/-- Trimming at the start does not move the last character. -/
theorem getLast?_trim (cs : List Char) : (trim cs).getLast? = (trimEnd cs).getLast? := by
  rw [trim_eq_trimStart_trimEnd]
  rcases List.eq_nil_or_concat' (trimEnd cs) with h | ⟨front, c, h⟩
  · rw [h]
    rfl
  · have hne : trimEnd cs ≠ [] := by simp [h]
    have hlast := List.rdropWhile_last_not isBlank cs hne
    have hc : isBlank c = false := by simpa [← trimEnd_eq_rdropWhile, h] using hlast
    rw [h, trimStart_append_cons hc, List.getLast?_concat, List.getLast?_concat]

/-- The last character of a trimmed text is the last one of the text that is no blank. -/
theorem getLast?_trim_eq_some_iff {c : Char} (hc : isBlank c = false) {cs : List Char} :
    (trim cs).getLast? = some c ↔ ∃ front after, AllBlank after ∧ cs = front ++ c :: after := by
  constructor
  · intro h
    obtain ⟨before, after, -, ha, hcs⟩ := exists_append_trim cs
    obtain ⟨front, hfront⟩ := List.getLast?_eq_some_iff.mp h
    exact ⟨before ++ front, after, ha, by rw [hcs, hfront]; simp⟩
  · rintro ⟨front, after, ha, rfl⟩
    rw [List.append_cons, trim_append_right ha, trim, trimStart_append_cons hc, trimEnd_concat hc,
      List.getLast?_concat]

theorem trim_trim (cs : List Char) : trim (trim cs) = trim cs := by
  obtain ⟨before, after, hb, ha, h⟩ := exists_append_trim cs
  conv_rhs => rw [h, trim_append_right ha, trim_append_left hb]

end ValidatorGen.Text

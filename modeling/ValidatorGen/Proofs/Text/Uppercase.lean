import ValidatorGen.Text.Uppercase

/-! Upper case of characters and names. Apart from the character itself, upper-casing gives only
capital letters and characters beyond ASCII, and on ASCII it is the case mapping of letters. So
among names that start in ASCII, those with one capitalization differ at most in the case of their
first letters. -/
namespace ValidatorGen.Text

theorem expansions_bounds : ∀ e ∈ expansions, 0x80 ≤ e.1 ∧
    ∀ code ∈ e.2, 0x41 ≤ code ∧ code ≤ 0x5A ∨ 0x80 ≤ code ∧ code < 0xD800 := by
  decide +kernel

/-- No run leads into the surrogates, and only capital letters of ASCII are reached. -/
theorem caseRuns_bounds : ∀ run ∈ caseRuns,
    0x41 ≤ run.first + run.shift ∧ run.last + run.shift ≤ 0x5A ∨
    0x80 ≤ run.first + run.shift ∧ run.last + run.shift < 0xD800 ∨
    0xDFFF < run.first + run.shift ∧ run.last + run.shift < 0x110000 := by
  decide +kernel

/-- The small letters of ASCII have the first run, and all others lie beyond ASCII. -/
theorem caseRuns_tail_bounds : ∀ run ∈ caseRuns.tail, 0x80 ≤ run.first := by
  decide +kernel

theorem toNat_ofNat {code : Nat} (h : code.isValidChar) : (Char.ofNat code).toNat = code := by
  rw [Char.ofNat, dif_pos h]
  rfl

theorem isUpper_iff {c : Char} : c.isUpper = true ↔ 0x41 ≤ c.toNat ∧ c.toNat ≤ 0x5A := by
  show decide ('A'.val ≤ c.val ∧ c.val ≤ 'Z'.val) = true ↔ _
  simp [UInt32.le_iff_toNat_le, Char.toNat_val]

theorem isLower_iff {c : Char} : c.isLower = true ↔ 0x61 ≤ c.toNat ∧ c.toNat ≤ 0x7A := by
  show (decide ('a'.val ≤ c.val) && decide (c.val ≤ 'z'.val)) = true ↔ _
  simp [UInt32.le_iff_toNat_le, Char.toNat_val]

theorem isUpper_or_of_code {code : Nat}
    (h : 0x41 ≤ code ∧ code ≤ 0x5A ∨ 0x80 ≤ code ∧ code < 0xD800 ∨
      0xDFFF < code ∧ code < 0x110000) :
    (Char.ofNat code).isUpper = true ∨ 0x80 ≤ (Char.ofNat code).toNat := by
  have hvalid : code.isValidChar := by
    unfold Nat.isValidChar
    omega
  have hcode := toNat_ofNat hvalid
  rw [isUpper_iff, hcode]
  omega

theorem mem_upper {c d : Char} (h : d ∈ upper c) :
    d = c ∨ d.isUpper = true ∨ 0x80 ≤ d.toNat := by
  unfold upper at h
  split at h
  · next codes hlookup =>
    obtain ⟨code, hcode, rfl⟩ := List.mem_map.mp h
    obtain ⟨before, after, htable, -⟩ := List.lookup_eq_some_iff.mp hlookup
    have hbounds := (expansions_bounds (c.toNat, codes) (by simp [htable])).2 code hcode
    right
    apply isUpper_or_of_code
    omega
  · split at h
    · next run hrun =>
      obtain rfl := List.mem_singleton.mp h
      have hbounds := caseRuns_bounds run (List.mem_of_find?_eq_some hrun)
      have hcontains := List.find?_some hrun
      simp only [CaseRun.contains, Bool.and_eq_true, decide_eq_true_eq] at hcontains
      right
      apply isUpper_or_of_code
      omega
    · left
      exact List.mem_singleton.mp h

theorem toUpper_of_isLower {c : Char} (h : c.isLower = true) :
    c.toUpper = Char.ofNat (c.toNat - 32) := by
  have hrange := isLower_iff.mp h
  have hvalid : (c.toNat - 32).isValidChar := by
    unfold Nat.isValidChar
    omega
  have hletter : 'a'.val ≤ c.val ∧ c.val ≤ 'z'.val := by
    simpa [UInt32.le_iff_toNat_le, Char.toNat_val] using hrange
  have hshift : ('A'.val - 'a'.val).toNat = 2 ^ 32 - 32 := by decide
  have hcode : (c.val + ('A'.val - 'a'.val)).toNat = c.toNat - 32 := by
    rw [UInt32.toNat_add, Char.toNat_val]
    omega
  have hupper : c.toUpper = ⟨c.val + ('A'.val - 'a'.val), _⟩ := dif_pos hletter
  rw [← Char.toNat_inj, toNat_ofNat hvalid, hupper]
  exact hcode

theorem toUpper_of_not_isLower {c : Char} (h : c.isLower = false) : c.toUpper = c := by
  refine dif_neg fun hletter => ?_
  have hlower : c.isLower = true :=
    isLower_iff.mpr (by simpa [UInt32.le_iff_toNat_le, Char.toNat_val] using hletter)
  rw [h] at hlower
  cases hlower

theorem upper_of_ascii {c : Char} (h : c.toNat < 0x80) : upper c = [c.toUpper] := by
  have hlookup : expansions.lookup c.toNat = none := by
    rw [List.lookup_eq_none_iff]
    intro e he
    have := (expansions_bounds e he).1
    simp only [bne_iff_ne, ne_eq]
    omega
  have hruns : caseRuns = ⟨0x61, 0x7A, 1, -32⟩ :: caseRuns.tail := rfl
  have htail : caseRuns.tail.find? (·.contains c.toNat) = none := by
    rw [List.find?_eq_none]
    intro run hrun
    have := caseRuns_tail_bounds run hrun
    simp only [CaseRun.contains, Bool.and_eq_true, decide_eq_true_eq]
    omega
  have hlower : CaseRun.contains ⟨0x61, 0x7A, 1, -32⟩ c.toNat = c.isLower := by
    rw [Bool.eq_iff_iff, isLower_iff]
    simp [CaseRun.contains, Nat.mod_one]
  rw [upper, hlookup, hruns, List.find?_cons, hlower, htail]
  cases hcase : c.isLower with
  | true =>
    have hshift : ((c.toNat : Int) + -32).toNat = c.toNat - 32 := by omega
    rw [toUpper_of_isLower hcase]
    simp only [hshift]
  | false => rw [toUpper_of_not_isLower hcase]

theorem toList_capitalize {name : String} {c : Char} {rest : List Char}
    (h : name.toList = c :: rest) : (capitalize name).toList = upper c ++ rest := by
  simp [capitalize, h]

theorem mem_capitalize {name : String} {d : Char} (h : d ∈ (capitalize name).toList) :
    d ∈ name.toList ∨ d.isUpper = true ∨ 0x80 ≤ d.toNat := by
  cases hname : name.toList with
  | nil => simp [capitalize, hname] at h
  | cons c rest =>
    rw [toList_capitalize hname] at h
    rcases List.mem_append.mp h with hfirst | hrest
    · rcases mem_upper hfirst with rfl | hupper
      · exact Or.inl List.mem_cons_self
      · exact Or.inr hupper
    · exact Or.inl (List.mem_cons_of_mem c hrest)

/-- An ASCII character that has no other upper case is kept. -/
theorem mem_capitalize_of_mem {name : String} {d : Char} (h : d ∈ name.toList)
    (hascii : d.toNat < 0x80) (hupper : d.toUpper = d) : d ∈ (capitalize name).toList := by
  cases hname : name.toList with
  | nil => simp [hname] at h
  | cons c rest =>
    rw [hname] at h
    rw [toList_capitalize hname]
    rcases List.mem_cons.mp h with rfl | hrest
    · simp [upper_of_ascii hascii, hupper]
    · exact List.mem_append_right _ hrest

end ValidatorGen.Text

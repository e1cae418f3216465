import ValidatorGen.Json.Numeral

/-! Integers can be read back from their decimal text. -/
namespace ValidatorGen.Json

/-- The literal that an integer is written as. -/
def Integer.numeral (n : Integer) : Numeral :=
  ⟨decide (n.toInt < 0), Nat.toDigits 10 n.toInt.natAbs, [], none⟩

@[simp] theorem Integer.ofInt?_toInt (n : Integer) : Integer.ofInt? n.toInt = some n := by
  rw [ofInt?, dif_pos n.lower, dif_pos n.upper]

/-- What follows a value inside a document. -/
def Delimits (rest : List Char) : Prop :=
  ∀ c, rest.head? = some c → c = ',' ∨ c = ']' ∨ c = '\x7d'

theorem delimits_nil : Delimits [] := by
  simp [Delimits]

theorem delimits_cons {c : Char} (h : c = ',' ∨ c = ']' ∨ c = '\x7d') (rest : List Char) :
    Delimits (c :: rest) := by
  simpa [Delimits] using h

theorem head?_toDigits {n : Nat} (h : 0 < n) : (Nat.toDigits 10 n).head? ≠ some '0' := by
  induction n using Nat.strongRecOn with
  | ind n ih =>
    rw [Nat.toDigits_eq_if (by decide)]
    split
    · next hlt =>
      have hdigit : ∀ m < 10, 0 < m → Nat.digitChar m ≠ '0' := by decide
      simpa using hdigit n hlt h
    · have hhead := ih (n / 10) (by omega) (by omega)
      cases hdigits : Nat.toDigits 10 (n / 10) with
      | nil => exact (Nat.toDigits_ne_nil hdigits).elim
      | cons d ds => simpa [hdigits] using hhead

namespace Numeral

theorem isDigit_toDigits (n : Nat) : ∀ c ∈ Nat.toDigits 10 n, c.isDigit = true :=
  fun _ hc => Nat.isDigit_of_mem_toDigits (by decide) (by decide) hc

theorem exists_toDigits_eq_cons (n : Nat) :
    ∃ d ds, Nat.toDigits 10 n = d :: ds ∧ d.isDigit = true := by
  cases h : Nat.toDigits 10 n with
  | nil => exact (Nat.toDigits_ne_nil h).elim
  | cons d ds => exact ⟨d, ds, rfl, isDigit_toDigits n d (by simp [h])⟩

theorem digits?_toDigits_append (n : Nat) {rest : List Char}
    (h : ∀ c, rest.head? = some c → c.isDigit = false) :
    digits? (Nat.toDigits 10 n ++ rest) = some (Nat.toDigits 10 n, rest) := by
  have htake : rest.takeWhile Char.isDigit = [] := by
    cases rest with
    | nil => rfl
    | cons c rest => simp [h c rfl]
  have hdrop : rest.dropWhile Char.isDigit = rest := by
    cases rest with
    | nil => rfl
    | cons c rest => simp [h c rfl]
  rw [digits?, List.takeWhile_append_of_pos (isDigit_toDigits n),
    List.dropWhile_append_of_pos (isDigit_toDigits n), htake, hdrop]
  simp

theorem whole?_toDigits_append (n : Nat) {rest : List Char}
    (h : ∀ c, rest.head? = some c → c.isDigit = false) :
    whole? (Nat.toDigits 10 n ++ rest) = some (Nat.toDigits 10 n, rest) := by
  rw [whole?, digits?_toDigits_append n h]
  split
  · next d ds after hzero =>
    have hdigits : Nat.toDigits 10 n = '0' :: d :: ds := (Prod.mk.inj (Option.some.inj hzero)).1
    cases n with
    | zero => simp [Nat.toDigits_zero] at hdigits
    | succ n =>
      have := head?_toDigits n.succ_pos
      simp [hdigits] at this
  · rfl

theorem unsigned?_toDigits_append (negative : Bool) (n : Nat) {rest : List Char}
    (h : Delimits rest) :
    unsigned? negative (Nat.toDigits 10 n ++ rest) =
      some (⟨negative, Nat.toDigits 10 n, [], none⟩, rest) := by
  have hdigit : ∀ c, rest.head? = some c → c.isDigit = false := by
    intro c hc
    rcases h c hc with rfl | rfl | rfl <;> rfl
  have hfraction : fraction? rest = some ([], rest) := by
    cases rest with
    | nil => rfl
    | cons c rest => rcases h c rfl with rfl | rfl | rfl <;> rfl
  have hexponent : exponent? rest = some (none, rest) := by
    cases rest with
    | nil => rfl
    | cons c rest => rcases h c rfl with rfl | rfl | rfl <;> rfl
  simp [unsigned?, whole?_toDigits_append n hdigit, hfraction, hexponent]

theorem toList_toString (n : Integer) :
    (toString n.toInt).toList =
      (if n.toInt < 0 then ['-'] else []) ++ Nat.toDigits 10 n.toInt.natAbs := by
  rw [Int.toString_eq_repr, Int.repr_eq_if]
  by_cases h : n.toInt < 0
  · have hnat : (-n.toInt).toNat = n.toInt.natAbs := by omega
    simp [h, Int.not_le.mpr h, hnat]
  · have hnat : n.toInt.toNat = n.toInt.natAbs := by omega
    simp [h, Int.not_lt.mp h, hnat]

theorem exists_toString_eq_cons (n : Integer) :
    ∃ c cs, (toString n.toInt).toList = c :: cs ∧ (c.isDigit = true ∨ c = '-') := by
  obtain ⟨d, ds, hd, hdigit⟩ := exists_toDigits_eq_cons n.toInt.natAbs
  rw [toList_toString, hd]
  by_cases hneg : n.toInt < 0
  · rw [if_pos hneg]
    exact ⟨'-', _, rfl, Or.inr rfl⟩
  · rw [if_neg hneg]
    exact ⟨d, ds, rfl, Or.inl hdigit⟩

/-- The text of an integer is read as its literal. -/
theorem scan_toString_append (n : Integer) {rest : List Char} (h : Delimits rest) :
    scan ((toString n.toInt).toList ++ rest) = some (n.numeral, rest) := by
  rw [toList_toString]
  by_cases hneg : n.toInt < 0
  · simp [hneg, scan, unsigned?_toDigits_append true _ h, Integer.numeral]
  · rw [if_neg hneg, List.nil_append, scan]
    · rw [unsigned?_toDigits_append false _ h]
      simp [hneg, Integer.numeral]
    · intro cs hcs
      obtain ⟨d, ds, hd, hdigit⟩ := exists_toDigits_eq_cons n.toInt.natAbs
      rw [hd, List.cons_append] at hcs
      obtain ⟨rfl, -⟩ := List.cons.inj hcs
      cases hdigit

theorem value?_numeral (n : Integer) : n.numeral.value? = some (.integer n) := by
  have hinteger : n.numeral.integer? = some n := by
    simp only [integer?, Integer.numeral, Nat.ofDigitChars_ten_toDigits, and_self, if_true]
    by_cases hneg : n.toInt < 0
    · have habs : n.toInt.natAbs ≠ 0 := by omega
      have hint : -(n.toInt.natAbs : Int) = n.toInt := by omega
      simp only [hneg, decide_true, if_true, habs, if_false, hint, Integer.ofInt?_toInt]
    · have hint : (n.toInt.natAbs : Int) = n.toInt := by omega
      simp only [hneg, decide_false, Bool.false_eq_true, if_false, hint, Integer.ofInt?_toInt]
  rw [value?, hinteger]

end Numeral

end ValidatorGen.Json

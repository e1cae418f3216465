import ValidatorGen.Json.Value
import ValidatorGen.Proofs.Json.Value
import ValidatorGen.Proofs.Text.Quoted

/-! JSON text holds no control character, whatever the value: literals escape them, numbers are
written in digits and signs, and nothing is put between lines. -/
namespace ValidatorGen

open Text

namespace Decimal

/-- The text is written in the characters of numbers. -/
def Numeric (cs : List Char) : Prop :=
  ∀ c ∈ cs, c.isDigit = true ∨ c ∈ ['.', 'e', '+', '-']

namespace Numeric

@[simp] theorem nil : Numeric [] := by
  simp [Numeric]

@[simp] theorem cons {c : Char} {cs : List Char} :
    Numeric (c :: cs) ↔ (c.isDigit = true ∨ c ∈ ['.', 'e', '+', '-']) ∧ Numeric cs :=
  List.forall_mem_cons

@[simp] theorem append {cs ds : List Char} : Numeric (cs ++ ds) ↔ Numeric cs ∧ Numeric ds :=
  List.forall_mem_append

theorem subset {cs ds : List Char} (h : Numeric ds) (hsub : cs ⊆ ds) : Numeric cs :=
  fun c hc => h c (hsub hc)

theorem printable {cs : List Char} (h : Numeric cs) : Printable cs := by
  intro c hc
  have hpunctuation : Printable ['.', 'e', '+', '-'] := by decide
  rcases h c hc with hdigit | hmem
  · have hcode : 48 ≤ c.toNat ∧ c.toNat ≤ 57 := Char.isDigit_iff_toNat.mp hdigit
    omega
  · exact hpunctuation c hmem

end Numeric

theorem numeric_toDigits (n : Nat) : Numeric (Nat.toDigits 10 n) :=
  fun c hc => Or.inl (Json.Numeral.isDigit_toDigits n c hc)

theorem numeric_toString (n : Nat) : Numeric (toString n).toList := by
  rw [Nat.toString_eq_repr, Nat.repr, String.toList_ofList]
  exact numeric_toDigits n

theorem numeric_zeros (n : Nat) : Numeric (zeros n) := by
  intro c hc
  obtain rfl := List.eq_of_mem_replicate hc
  exact Or.inl rfl

theorem numeric_positional {digits : List Char} (h : Numeric digits) (exponent : Int) :
    Numeric (Layout.positional digits exponent) := by
  have htake (n : Nat) : Numeric (digits.take n) := h.subset (List.take_subset n digits)
  have hdrop (n : Nat) : Numeric (digits.drop n) := h.subset (List.drop_subset n digits)
  simp only [Layout.positional]
  split
  · simp [h, numeric_zeros]
  · split <;> simp [h, htake, hdrop, numeric_zeros]

theorem numeric_scientific {digits : List Char} (h : Numeric digits) (leading : Int) :
    Numeric (Layout.scientific digits leading) := by
  have hsign : (if 0 ≤ leading then '+' else '-') ∈ ['.', 'e', '+', '-'] := by
    split <;> decide
  unfold Layout.scientific
  split <;> simp_all [numeric_toDigits]

theorem numeric_text (x : Float) : Numeric (text x).toList := by
  have hwrite (d : Scaled) : Numeric (layout.write d) := by
    simp only [Layout.write]
    split
    · exact numeric_positional (numeric_toDigits d.digits) d.exponent
    · exact numeric_scientific (numeric_toDigits d.digits) _
  have hmagnitude (b : Binary) :
      Numeric (if b.mantissa = 0 then ['0', '.', '0'] else layout.write (shortest b)) := by
    split
    · simp
    · exact hwrite _
  simp only [text, String.toList_ofList]
  split <;> simp [hmagnitude]

end Decimal

namespace Json

theorem numeric_toString (n : Integer) : Decimal.Numeric (toString n.toInt).toList := by
  rw [Numeral.toList_toString]
  split <;> simp [Decimal.numeric_toDigits]

namespace Value

theorem renderItems_eq_map (items : List Value) : renderItems items = items.map render := by
  induction items with
  | nil => rfl
  | cons item rest ih => rw [renderItems, ih, List.map_cons]

theorem renderMembers_eq_map (members : List (String × Value)) :
    renderMembers members =
      members.map fun member => Quoted.encode member.1 ++ ":" ++ member.2.render := by
  induction members with
  | nil => rfl
  | cons member rest ih => rw [renderMembers, ih, List.map_cons]

/-- The text of a value has no control character. -/
theorem printable_render (v : Value) : Printable v.render.toList := by
  induction v using induct with
  | null => decide
  | bool b => cases b <;> decide
  | integer n => exact (numeric_toString n).printable
  | float x => exact (Decimal.numeric_text x).printable
  | string s => exact Quoted.printable_encode s
  | array items ih =>
    have hitems : Printable (",".intercalate (renderItems items)).toList := by
      apply Printable.intercalate (by decide)
      rw [renderItems_eq_map]
      exact List.forall_mem_map.mpr ih
    simp [render, -String.toList_intercalate, hitems]
  | object members ih =>
    have hmembers : Printable (",".intercalate (renderMembers members)).toList := by
      apply Printable.intercalate (by decide)
      rw [renderMembers_eq_map]
      refine List.forall_mem_map.mpr fun member hmember => ?_
      simp [Quoted.printable_encode, ih member hmember]
    simp [render, -String.toList_intercalate, hmembers]

end Value

end Json

end ValidatorGen

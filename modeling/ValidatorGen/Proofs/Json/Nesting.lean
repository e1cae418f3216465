import ValidatorGen.Proofs.Json.Printer
import ValidatorGen.Proofs.Text.Nesting

/-! JSON text is well nested, whatever the value: arrays and objects are closed where they end, and
all brackets and quotes of texts stand in literals. -/
namespace ValidatorGen

open Text

theorem Decimal.Numeric.undelimited {s : String} (h : Numeric s.toList) : Undelimited s := by
  intro c hc
  have hpunctuation : ∀ c ∈ ['.', 'e', '+', '-'], c ∉ delimiters := by
    simp [delimiters]
  have hdelimiters : ∀ c ∈ delimiters, c.isDigit = false := by
    simp [delimiters]
  rcases h c hc with hdigit | hmem
  · intro hdelimiter
    simp [hdelimiters c hdelimiter] at hdigit
  · exact hpunctuation c hmem

theorem Json.Value.wellNested_render (v : Value) : WellNested v.render := by
  induction v using induct with
  | null => decide
  | bool b => cases b <;> decide
  | integer n => exact (numeric_toString n).undelimited.wellNested
  | float x => exact (Decimal.numeric_text x).undelimited.wellNested
  | string s => exact Quoted.wellNested_encode s
  | array items ih =>
    have hitems : WellNested (",".intercalate (renderItems items)) := by
      apply wellNested_intercalate (by decide)
      rw [renderItems_eq_map]
      exact List.forall_mem_map.mpr ih
    rw [render]
    exact hitems.enclose [']'] rfl rfl
  | object members ih =>
    have hcolon : WellNested ":" := by decide
    have hmembers : WellNested (",".intercalate (renderMembers members)) := by
      apply wellNested_intercalate (by decide)
      rw [renderMembers_eq_map]
      refine List.forall_mem_map.mpr fun member hmember => ?_
      exact ((Quoted.wellNested_encode member.1).append hcolon).append (ih member hmember)
    rw [render]
    exact hmembers.enclose ['\x7d'] rfl rfl

end ValidatorGen

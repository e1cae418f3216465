import ValidatorGen.Proofs.Json.Nesting
import ValidatorGen.Proofs.Validator.Preserved
import ValidatorGen.Target.Builtin

/-! The built-in vocabularies keep expressions well nested: whatever stands around an expression
closes the brackets that it opens. -/
namespace ValidatorGen

open Text

structure Call.WellNested (c : Call) : Prop where
  method : Undelimited c.method
  args : ∀ arg ∈ c.args, Text.WellNested arg

theorem wellNested_commaSeparated {items : List String} (h : ∀ item ∈ items, WellNested item) :
    WellNested (commaSeparated items) :=
  wellNested_intercalate (by decide) h

theorem Call.WellNested.text {c : Call} (h : c.WellNested) : Text.WellNested c.text := by
  have hdot : Undelimited "." := by decide
  have hmethod : Text.WellNested ("." ++ c.method) := (hdot.append h.method).wellNested
  have hargs : Text.WellNested ("(" ++ commaSeparated c.args ++ ")") :=
    (wellNested_commaSeparated h.args).enclose [')'] rfl rfl
  simpa only [Call.text, String.append_assoc] using hmethod.append hargs

theorem wellNested_chain {expr : String} {calls : List Call} (hexpr : WellNested expr)
    (hcalls : ∀ call ∈ calls, call.WellNested) : WellNested (chain expr calls) := by
  have htexts : WellNested (String.join (calls.map Call.text)) :=
    wellNested_join (List.forall_mem_map.mpr fun call hcall => (hcalls call hcall).text)
  exact hexpr.append htexts

theorem wellNested_pipe {expr : String} {calls : List Call} (hexpr : WellNested expr)
    (hcalls : ∀ call ∈ calls, call.WellNested) : WellNested (pipe expr calls) := by
  cases calls with
  | nil => exact hexpr
  | cons call calls =>
    have hv : WellNested "v" := by decide
    have hcomma : WellNested ", " := by decide
    have htexts : WellNested (commaSeparated ((call :: calls).map fun c => "v" ++ c.text)) := by
      apply wellNested_commaSeparated
      exact List.forall_mem_map.mpr fun c hc => hv.append (hcalls c hc).text
    have hpipe : WellNested ("v.pipe(" ++ (expr ++ ", " ++ commaSeparated _) ++ ")") :=
      ((hexpr.append hcomma).append htexts).enclose [')'] rfl rfl
    simpa only [pipe, String.append_assoc] using hpipe

theorem wellNested_lengthCall {method : String} (h : Undelimited method) (length : Nat) :
    Call.WellNested ⟨method, [toString length]⟩ where
  method := h
  args := by simpa using (Decimal.numeric_toString length).undelimited.wellNested

theorem keepsNesting_zod : zod.Keeps WellNested Call.WellNested where
  primitive kind := by cases kind <;> decide
  anyDefined := by decide
  listOf h := h.enclose [')'] rfl rfl
  nullable h := h.append (by decide)
  nullish h := h.append (by decide)
  deferred h := h.enclose [')'] rfl rfl
  constrain := wellNested_chain
  minLength := wellNested_lengthCall (by decide)

theorem keepsNesting_myzod : myzod.Keeps WellNested Call.WellNested where
  primitive kind := by cases kind <;> decide
  anyDefined := by decide
  listOf h := h.enclose [')'] rfl rfl
  nullable h := h.append (by decide)
  nullish h := h.append (by decide)
  deferred h := h.enclose [')'] rfl rfl
  constrain := wellNested_chain
  minLength := wellNested_lengthCall (by decide)

theorem keepsNesting_valibot : valibot.Keeps WellNested Call.WellNested where
  primitive kind := by cases kind <;> decide
  anyDefined := by decide
  listOf h := h.enclose [')'] rfl rfl
  nullable h := h.enclose [')'] rfl rfl
  nullish h := h.enclose [')'] rfl rfl
  deferred h := h.enclose [')'] rfl rfl
  constrain := wellNested_pipe
  minLength := wellNested_lengthCall (by decide)

theorem keepsNesting_yup : yup.Keeps WellNested Call.WellNested where
  primitive kind := by cases kind <;> decide
  anyDefined := by decide
  listOf h := h.enclose [')'] rfl rfl
  nullable h := h.append (by decide)
  nullish h := h.append (by decide)
  deferred h := h.enclose [')'] rfl rfl
  constrain := wellNested_chain
  minLength := wellNested_lengthCall (by decide)

theorem keepsNesting_of_mem_builtins {v : Vocabulary} (h : v ∈ builtins) :
    v.Keeps WellNested Call.WellNested := by
  rcases mem_builtins.mp h with rfl | rfl | rfl | rfl
  · exact keepsNesting_zod
  · exact keepsNesting_myzod
  · exact keepsNesting_valibot
  · exact keepsNesting_yup

end ValidatorGen

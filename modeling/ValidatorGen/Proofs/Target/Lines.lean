import ValidatorGen.Proofs.Json.Printer
import ValidatorGen.Proofs.Validator.Preserved
import ValidatorGen.Target.Builtin

/-! The built-in vocabularies write expressions on one line, and declarations without empty lines.
An empty line in a module therefore always stands between two declarations. -/
namespace ValidatorGen

open Text

structure Call.OneLine (c : Call) : Prop where
  method : Text.OneLine c.method
  args : ∀ arg ∈ c.args, Text.OneLine arg

/-- A declaration that is written without empty lines. -/
structure Declaration.Compact (d : Declaration) : Prop where
  head : OneLine d.head
  body : Solid d.body

namespace Declaration

/-- The text of a declaration before its last line feed. -/
def block (d : Declaration) : String :=
  (if d.exported then "export " else "") ++
    match d.kind with
    | .type => "type " ++ d.head ++ " = " ++ d.body ++ ";"
    | .const => "const " ++ d.head ++ " = " ++ d.body ++ ";"
    | .function => "function " ++ d.head ++ " \x7b" ++ "\n" ++ d.body ++ "\n" ++ "\x7d"

theorem render_eq_block (d : Declaration) : d.render = d.block ++ "\n" := by
  rw [render, block]
  cases d.kind <;> simp [← String.toList_inj]

theorem map_block_append_newline (declarations : List Declaration) :
    (declarations.map block).map (· ++ "\n") = declarations.map render := by
  rw [List.map_map]
  exact List.map_congr_left fun d _ => d.render_eq_block.symm

theorem Compact.solid_block {d : Declaration} (h : d.Compact) : Solid d.block := by
  have hexport : OneLine (if d.exported then "export " else "") := by
    split <;> decide
  apply Solid.prepend _ hexport
  cases d.kind with
  | type =>
    have hhead : OneLine ("type " ++ d.head ++ " = ") := by simp +decide [h.head]
    exact (h.body.prepend hhead).append (by decide)
  | const =>
    have hhead : OneLine ("const " ++ d.head ++ " = ") := by simp +decide [h.head]
    exact (h.body.prepend hhead).append (by decide)
  | function =>
    have hhead : SolidLine ("function " ++ d.head ++ " \x7b") :=
      (SolidLine.append (by decide) h.head).append (by decide)
    exact ((Solid.line hhead).append_newline h.body).append_newline (.line (by decide))

end Declaration

namespace Vocabulary

/-- Texts on one line are kept on one line, and the parts of declarations without empty lines. -/
structure KeepsLines (v : Vocabulary) : Prop extends v.Keeps OneLine Call.OneLine where
  helpers : ∀ d ∈ v.helpers, d.Compact
  oneOf {values : List String} : (∀ value ∈ values, OneLine value) → SolidLine (v.oneOf values)
  memberOf {type : String} : OneLine type → SolidLine (v.memberOf type)
  objectStart : SolidLine v.objectStart
  typenameTag {type : String} : OneLine type → OneLine (v.typenameTag type)
  objectType {type : String} : OneLine type → OneLine (v.objectType type)

end Vocabulary

theorem oneLine_commaSeparated {items : List String} (h : ∀ item ∈ items, OneLine item) :
    OneLine (commaSeparated items) :=
  oneLine_intercalate (by decide) h

theorem oneLine_quotedList {values : List String} (h : ∀ value ∈ values, OneLine value) :
    OneLine (quotedList values) := by
  apply oneLine_commaSeparated
  refine List.forall_mem_map.mpr fun value hvalue => ?_
  simp +decide [h value hvalue]

theorem Call.OneLine.text {c : Call} (h : c.OneLine) : Text.OneLine c.text := by
  simp +decide [Call.text, h.method, oneLine_commaSeparated h.args]

theorem oneLine_chain {expr : String} {calls : List Call} (hexpr : OneLine expr)
    (hcalls : ∀ call ∈ calls, call.OneLine) : OneLine (chain expr calls) := by
  have htexts : OneLine (String.join (calls.map Call.text)) :=
    oneLine_join (List.forall_mem_map.mpr fun call hcall => (hcalls call hcall).text)
  simp [chain, hexpr, htexts]

theorem oneLine_pipe {expr : String} {calls : List Call} (hexpr : OneLine expr)
    (hcalls : ∀ call ∈ calls, call.OneLine) : OneLine (pipe expr calls) := by
  cases calls with
  | nil => simpa using hexpr
  | cons call calls =>
    have htexts : OneLine (commaSeparated ((call :: calls).map fun c => "v" ++ c.text)) := by
      apply oneLine_commaSeparated
      refine List.forall_mem_map.mpr fun c hc => ?_
      simp +decide [(hcalls c hc).text]
    simp +decide only [pipe, oneLine_append, hexpr, htexts, and_self]

theorem oneLine_lengthCall {method : String} (h : OneLine method) (length : Nat) :
    Call.OneLine ⟨method, [toString length]⟩ where
  method := h
  args := by simpa using (Decimal.numeric_toString length).printable.oneLine

/-- The declaration of the helper for unknown types, after those that all vocabularies have. -/
theorem compact_of_mem_helpers {body : String} (h : SolidLine body) :
    ∀ d ∈ anyDefinedHelpers ++ [anyDefinedDeclaration body], d.Compact := by
  have hname : OneLine anyDefinedName := by decide
  simp only [anyDefinedHelpers, List.cons_append, List.nil_append, List.forall_mem_cons]
  exact ⟨⟨by decide, .line (by decide)⟩, ⟨by decide, .line (by decide)⟩, ⟨hname, .line h⟩, nofun⟩

theorem keepsLines_zod : zod.KeepsLines where
  primitive kind := by cases kind <;> decide
  anyDefined := by decide
  listOf h := (OneLine.append (by decide) h).append (by decide)
  nullable h := OneLine.append h (by decide)
  nullish h := OneLine.append h (by decide)
  deferred h := (OneLine.append (by decide) h).append (by decide)
  constrain := oneLine_chain
  minLength := oneLine_lengthCall (by decide)
  helpers := by
    have hproperties :
        Solid "Required<\x7b\n  [K in keyof T]: z.ZodType<T[K], any, T[K]>;\n\x7d>" :=
      .cons (s := "Required<\x7b") (by decide)
        (.cons (s := "  [K in keyof T]: z.ZodType<T[K], any, T[K]>;") (by decide)
          (.line (s := "\x7d>") (by decide)))
    exact List.forall_mem_cons.mpr ⟨⟨by decide, hproperties⟩, compact_of_mem_helpers (by decide)⟩
  oneOf h := (SolidLine.append (by decide) (oneLine_quotedList h)).append (by decide)
  memberOf h := (SolidLine.append (by decide) h).append (by decide)
  objectStart := by decide
  typenameTag h := (OneLine.append (by decide) h).append (by decide)
  objectType h := (OneLine.append (by decide) h).append (by decide)

theorem keepsLines_myzod : myzod.KeepsLines where
  primitive kind := by cases kind <;> decide
  anyDefined := by decide
  listOf h := (OneLine.append (by decide) h).append (by decide)
  nullable h := OneLine.append h (by decide)
  nullish h := OneLine.append h (by decide)
  deferred h := (OneLine.append (by decide) h).append (by decide)
  constrain := oneLine_chain
  minLength := oneLine_lengthCall (by decide)
  helpers := compact_of_mem_helpers (by decide)
  oneOf h := (SolidLine.append (by decide) (oneLine_quotedList h)).append (by decide)
  memberOf h := (SolidLine.append (by decide) h).append (by decide)
  objectStart := by decide
  typenameTag h := (OneLine.append (by decide) h).append (by decide)
  objectType h := (OneLine.append (by decide) h).append (by decide)

theorem keepsLines_valibot : valibot.KeepsLines where
  primitive kind := by cases kind <;> decide
  anyDefined := by decide
  listOf h := (OneLine.append (by decide) h).append (by decide)
  nullable h := (OneLine.append (by decide) h).append (by decide)
  nullish h := (OneLine.append (by decide) h).append (by decide)
  deferred h := (OneLine.append (by decide) h).append (by decide)
  constrain := oneLine_pipe
  minLength := oneLine_lengthCall (by decide)
  helpers := compact_of_mem_helpers (by decide)
  oneOf h := (SolidLine.append (by decide) (oneLine_quotedList h)).append (by decide)
  memberOf h := (SolidLine.append (by decide) h).append (by decide)
  objectStart := by decide
  typenameTag h := (OneLine.append (by decide) h).append (by decide)
  objectType h := (OneLine.append (by decide) h).append (by decide)

theorem keepsLines_yup : yup.KeepsLines where
  primitive kind := by cases kind <;> decide
  anyDefined := by decide
  listOf h := (OneLine.append (by decide) h).append (by decide)
  nullable h := OneLine.append h (by decide)
  nullish h := OneLine.append h (by decide)
  deferred h := (OneLine.append (by decide) h).append (by decide)
  constrain := oneLine_chain
  minLength := oneLine_lengthCall (by decide)
  helpers := compact_of_mem_helpers (by decide)
  oneOf h := (SolidLine.append (by decide) (oneLine_quotedList h)).append (by decide)
  memberOf h := by
    have hfront : SolidLine ("yup.string<" ++ _ ++ ">().oneOf(Object.values(") :=
      (SolidLine.append (by decide) h).append (by decide)
    exact (hfront.append h).append (by decide)
  objectStart := by decide
  typenameTag h := (OneLine.append (by decide) h).append (by decide)
  objectType h := (OneLine.append (by decide) h).append (by decide)

theorem keepsLines_of_mem_builtins {v : Vocabulary} (h : v ∈ builtins) : v.KeepsLines := by
  rcases mem_builtins.mp h with rfl | rfl | rfl | rfl
  · exact keepsLines_zod
  · exact keepsLines_myzod
  · exact keepsLines_valibot
  · exact keepsLines_yup

end ValidatorGen

import ValidatorGen.Proofs.Schema.WellFormed
import ValidatorGen.Proofs.Text.Parts
import ValidatorGen.Proofs.Validator.Layers

/-! Validators as trees. A validator is a tree of the operations of a vocabulary around one name,
and its text is the spelling of that tree. What the tree does not defer is evaluated with the
expression; a field's base name is used there unless it names an input object. -/
namespace ValidatorGen

/-- A validator before it is spelled in a vocabulary. -/
inductive Expression
  /-- The validator that a name refers to. -/
  | named (name : String)
  | listOf (element : Expression)
  | nullable (inner : Expression)
  | nullish (inner : Expression)
  | deferred (inner : Expression)
  | constrained (inner : Expression) (calls : List Call)
  /-- What a type reference without a shape gives. -/
  | missing

namespace Expression

/-- The text of a tree, with names and operations spelled as an environment does. -/
def spell (env : Environment) : Expression → String
  | named name => (env.reference name).value.expr
  | listOf element => env.vocabulary.listOf (element.spell env)
  | nullable inner => env.vocabulary.nullable (inner.spell env)
  | nullish inner => env.vocabulary.nullish (inner.spell env)
  | deferred inner => env.vocabulary.deferred (inner.spell env)
  | constrained inner calls => env.vocabulary.constrain (inner.spell env) calls
  | missing => ""

/-- The names that a tree refers to outside of all deferred parts. -/
def eagerNames : Expression → List String
  | named name => [name]
  | listOf element => element.eagerNames
  | nullable inner => inner.eagerNames
  | nullish inner => inner.eagerNames
  | deferred _ => []
  | constrained inner _ => inner.eagerNames
  | missing => []

end Expression

namespace Environment

open Logged

/-- The tree of a name under the modifier around it. -/
def referenceTree (env : Environment) (field : Field) (name : String) : Surrounding → Expression
  | .list => .nullable (.named name)
  | .nonNull =>
    .constrained (.named name)
      (env.fieldCalls field ++ env.emptyStringCalls (env.reference name).value)
  | .none => .nullish (.constrained (.named name) (env.fieldCalls field))

def namedTree (env : Environment) (field : Field) (around : Surrounding) (name : String) :
    Expression :=
  if env.kindOf name = .inputObject then .deferred (env.referenceTree field name around)
  else env.referenceTree field name around

/-- The tree of a type reference; `inList` holds below the outermost list. -/
def tree (env : Environment) (field : Field) (around : Surrounding) (inList : Bool) :
    TypeRef → Expression
  | .named name => env.namedTree field around name
  | .list element =>
    let array := Expression.listOf (env.tree field .list true element)
    let constrained := if inList then array else .constrained array (env.fieldCalls field)
    if around = .nonNull then constrained else .nullish constrained
  | .nonNull (.nonNull _) => .missing
  | .nonNull inner => env.tree field .nonNull inList inner

/-- The tree of the whole validator of a field. -/
def fieldTree (env : Environment) (field : Field) : Expression :=
  env.tree field .none false field.type

variable (env : Environment) (field : Field)

theorem spell_referenceTree (name : String) (around : Surrounding) :
    (env.referenceTree field name around).spell env =
      (env.referenceExpr field (env.reference name).value around).value := by
  cases around <;> rfl

theorem spell_namedTree (around : Surrounding) (name : String) :
    (env.namedTree field around name).spell env = (env.namedExpr field around name).value := by
  have hdeferred : (env.reference name).value.isDeferred = true ↔
      env.kindOf name = .inputObject := by
    rw [Reference.isDeferred, kind_reference, beq_iff_eq]
  have hspell := env.spell_referenceTree field name around
  simp only [namedTree, namedExpr, value_bind, value_pure, hdeferred]
  split
  · rw [Expression.spell, hspell]
  · exact hspell

theorem tree_nonNull {t : TypeRef} (h : t.isNonNull = false) (around : Surrounding)
    (inList : Bool) :
    env.tree field around inList (.nonNull t) = env.tree field .nonNull inList t := by
  cases t with
  | nonNull inner => cases h
  | named name => rfl
  | list element => rfl

/-- The validator of a type reference is the spelling of its tree. -/
theorem spell_tree (t : TypeRef) (around : Surrounding) (inList : Bool) :
    (env.tree field around inList t).spell env = (env.walk field around inList t).value := by
  induction t generalizing around inList with
  | named name => exact env.spell_namedTree field around name
  | list element ih =>
    have harray := ih .list true
    cases inList <;> cases around <;>
      simp [tree, walk, Expression.spell, harray, constrained, fieldCalls]
  | nonNull inner ih =>
    cases inner with
    | nonNull inner => rfl
    | named name => exact ih .nonNull inList
    | list element => exact ih .nonNull inList

theorem spell_fieldTree : (env.fieldTree field).spell env = (env.fieldExpr field).value :=
  env.spell_tree field field.type .none false

theorem eagerNames_namedTree (around : Surrounding) (name : String) :
    (env.namedTree field around name).eagerNames =
      if env.kindOf name = .inputObject then [] else [name] := by
  unfold namedTree
  split
  · rfl
  · cases around <;> rfl

/-- A tree refers to the base name unless a doubled modifier hides it, and defers it exactly if it
names an input object. -/
theorem mem_eagerNames_tree {name : String} (t : TypeRef) (around : Surrounding) (inList : Bool) :
    name ∈ (env.tree field around inList t).eagerNames ↔
      t.SingleNonNull ∧ t.baseName = name ∧ env.kindOf name ≠ .inputObject := by
  induction t generalizing around inList with
  | named base =>
    rw [tree, eagerNames_namedTree]
    by_cases hinput : env.kindOf base = .inputObject
    · simp only [hinput, if_true, List.not_mem_nil, TypeRef.baseName_named, false_iff]
      rintro ⟨-, rfl, hne⟩
      exact hne hinput
    · simp only [hinput, if_false, List.mem_singleton, TypeRef.baseName_named]
      constructor
      · rintro rfl
        exact ⟨trivial, rfl, hinput⟩
      · rintro ⟨-, rfl, -⟩
        rfl
  | list element ih =>
    have helement := ih .list true
    cases inList <;> cases around <;> simpa [tree, Expression.eagerNames] using helement
  | nonNull inner ih =>
    cases inner with
    | nonNull inner => simp [tree, Expression.eagerNames, TypeRef.isNonNull]
    | named base =>
      rw [tree_nonNull _ _ rfl]
      simpa [TypeRef.isNonNull] using ih .nonNull inList
    | list element =>
      rw [tree_nonNull _ _ rfl]
      simpa [TypeRef.isNonNull] using ih .nonNull inList

end Environment

/-- The operations that a tree does not defer are written around their operand. -/
structure Vocabulary.Surrounds (v : Vocabulary) : Prop where
  listOf (expr : String) : Text.Within expr (v.listOf expr)
  nullable (expr : String) : Text.Within expr (v.nullable expr)
  nullish (expr : String) : Text.Within expr (v.nullish expr)
  constrain (expr : String) (calls : List Call) : Text.Within expr (v.constrain expr calls)

theorem surrounds_of_mem_builtins {v : Vocabulary} (h : v ∈ builtins) : v.Surrounds := by
  have hself (expr : String) : Text.Within expr expr := .refl expr
  have hinside (before expr after : String) : Text.Within expr (before ++ expr ++ after) :=
    .append_right after (.append_left before (hself expr))
  have hchain (expr : String) (calls : List Call) : Text.Within expr (chain expr calls) :=
    .append_right _ (hself expr)
  have hpipe (expr : String) (calls : List Call) : Text.Within expr (pipe expr calls) := by
    cases calls with
    | nil => exact hself expr
    | cons call calls => exact .append_right _ (.append_right _ (hinside _ expr _))
  have hbehind (expr after : String) : Text.Within expr (expr ++ after) :=
    .append_right after (hself expr)
  rcases mem_builtins.mp h with rfl | rfl | rfl | rfl
  · exact ⟨fun e => hinside _ e _, fun e => hbehind e _, fun e => hbehind e _, hchain⟩
  · exact ⟨fun e => hinside _ e _, fun e => hbehind e _, fun e => hbehind e _, hchain⟩
  · exact ⟨fun e => hinside _ e _, fun e => hinside _ e _, fun e => hinside _ e _, hpipe⟩
  · exact ⟨fun e => hinside _ e _, fun e => hbehind e _, fun e => hbehind e _, hchain⟩

/-- What a tree refers to outside of deferred parts stands in its text. -/
theorem Expression.within_spell {env : Environment} (hv : env.vocabulary.Surrounds)
    {tree : Expression} {name : String} (h : name ∈ tree.eagerNames) :
    Text.Within (env.reference name).value.expr (tree.spell env) := by
  induction tree with
  | named other =>
    obtain rfl := List.mem_singleton.mp h
    exact .refl _
  | listOf element ih => exact (ih h).trans (hv.listOf _)
  | nullable inner ih => exact (ih h).trans (hv.nullable _)
  | nullish inner ih => exact (ih h).trans (hv.nullish _)
  | deferred inner => cases h
  | constrained inner calls ih => exact (ih h).trans (hv.constrain _ calls)
  | missing => cases h

end ValidatorGen

import ValidatorGen.Artifact.Emission
import ValidatorGen.Target.Registry

/-!
Generated modules: import lines, and the content below them. Generation fails only when the backend
is unknown or a definition is repeated, in this order.
-/
namespace ValidatorGen

/-- A generated module. The first lines go to its top. -/
structure Artifact where
  prepend : List String
  content : String
  deriving DecidableEq, Repr

def Artifact.render (a : Artifact) : String :=
  "\n".intercalate a.prepend ++ "\n" ++ a.content

inductive GenerationError
  | unknownBackend (name : String)
  | duplicateDefinition (e : DuplicateDefinition)
  deriving DecidableEq, Repr

def GenerationError.message : GenerationError → String
  | unknownBackend name => "unknown validation backend \x60" ++ name ++ "\x60"
  | duplicateDefinition e => e.message

/-- The types that emitted declarations refer to. -/
def ImportList.ofEmissions (emissions : List Emission) : ImportList :=
  emissions.foldl (fun all e => all.merge e.imports) .empty

/-- The statement that imports the names from a module. -/
def ImportList.statement (names : ImportList) (source : String) : String :=
  "import \x7b " ++ ", ".intercalate names.toList ++ " \x7d from '" ++ source ++ "'"

namespace Environment

/-- The emissions of all definitions that have one, in order. -/
def emissions (env : Environment) : Logged (List Emission) := do
  pure (← env.index.schema.definitions.mapM env.emission?).reduceOption

/-- The import of the library, then that of the types, if they have a source and there are any. -/
def prepend (env : Environment) (names : ImportList) : List String :=
  env.vocabulary.importLine ::
    match env.settings.importFrom with
    | some source => if names.isEmpty then [] else [names.statement source]
    | none => []

/-- The helpers and the emitted declarations, with an empty line before each. -/
def content (env : Environment) (emissions : List Emission) : String :=
  "\n" ++ "\n".intercalate
    (env.vocabulary.helpers.map Declaration.render ++ emissions.map Emission.text)

def artifact (env : Environment) : Logged Artifact := do
  let emissions ← env.emissions
  pure { prepend := env.prepend (.ofEmissions emissions), content := env.content emissions }

end Environment

/-- The module for a schema, with the backend and the naming of the settings. -/
def Artifact.generate (registry : Registry) (schema : Schema) (settings : Settings) :
    Logged (Except GenerationError Artifact) :=
  match registry.find? settings.backend with
  | none => pure (.error (.unknownBackend settings.backend))
  | some vocabulary => do
    Logged.note (.backendResolved vocabulary.name)
    match Index.ofSchema schema with
    | .error e => pure (.error (.duplicateDefinition e))
    | .ok index => do
      let env : Environment :=
        { index, settings, vocabulary, names := .ofSettings settings }
      pure (.ok (← env.artifact))

end ValidatorGen

import ValidatorGen.Artifact.Assembly
import ValidatorGen.Proofs.Schema.Index

/-! The blocks of a generated module. Each declared definition gives one block, whose text is made
from the validators of its fields, and the module is put together from the blocks of the declared
definitions in order. -/
namespace ValidatorGen

/-- Whether the definitions of a kind are declared. -/
def Settings.declares (settings : Settings) : Kind → Bool
  | .enumeration => true
  | .inputObject => true
  | .object => settings.emitObjects
  | .scalar => false

/-- The definitions that are declared, in order. -/
def Schema.declared (s : Schema) (settings : Settings) : List Definition :=
  s.definitions.filter fun d => settings.declares d.kind

theorem Schema.mem_declared {s : Schema} {settings : Settings} {d : Definition} :
    d ∈ s.declared settings ↔ d ∈ s.definitions ∧ settings.declares d.kind = true :=
  List.mem_filter

theorem Schema.NamesDistinct.declared {s : Schema} (hs : s.NamesDistinct) (settings : Settings) :
    ((s.declared settings).map Definition.name).Nodup :=
  List.Pairwise.sublist (List.filter_sublist.map Definition.name) hs

namespace Environment

open Logged

variable (env : Environment)

/-- The entry by which an object names its type; no other kind has it. -/
def typenameEntries (d : Definition) : List String :=
  if d.kind = .object then [env.typenameEntry d.name] else []

/-- The entries of a definition whose fields have the given validators. -/
def entriesWith (d : Definition) (validators : List String) : List String :=
  env.typenameEntries d ++ List.zipWith entry (d.fields.map Field.name) validators

/-- The declaration of a definition whose fields have the given validators. -/
def declarationWith (d : Definition) (validators : List String) : Declaration :=
  match d.body with
  | .enumeration values => env.declareEnum d.name values
  | _ => env.declareObject d.name (env.entriesWith d validators)

def validators (d : Definition) : List String :=
  d.fields.map fun field => (env.fieldExpr field).value

/-- The definitions that are declared, in order. -/
def declared : List Definition :=
  env.index.schema.declared env.settings

theorem declared_of_ofSchema {env : Environment} {s : Schema}
    (h : Index.ofSchema s = .ok env.index) : env.declared = s.declared env.settings := by
  rw [declared, (Index.ofSchema_eq_ok h).1]

def block (d : Definition) : Emission :=
  { name := env.names.validatorName d.name
    text := (env.declarationWith d (env.validators d)).render
    imports := .ofList [env.names.typeName d.name] }

theorem text_block {d : Definition} (h : d.kind ≠ .enumeration) :
    (env.block d).text =
      (env.declareObject d.name (env.entriesWith d (env.validators d))).render := by
  obtain ⟨name, description, body⟩ := d
  cases body with
  | enumeration values => exact absurd rfl h
  | inputObject fields => rfl
  | object fields => rfl
  | scalar => rfl

@[simp] theorem value_fieldEntry (field : Field) :
    (env.fieldEntry field).value = entry field.name (env.fieldExpr field).value := rfl

theorem zipWith_entry_validators (d : Definition) :
    List.zipWith entry (d.fields.map Field.name) (env.validators d) =
      d.fields.map fun field => (env.fieldEntry field).value := by
  simp [validators, List.zipWith_map]

theorem value_declaration? (d : Definition) :
    (env.declaration? d).value =
      if env.settings.declares d.kind then some (env.declarationWith d (env.validators d))
      else none := by
  have hentries := env.zipWith_entry_validators d
  obtain ⟨name, description, body⟩ := d
  cases body with
  | enumeration values => rfl
  | inputObject fields =>
    simp only [declarationWith, entriesWith, hentries]
    simp [declaration?, Settings.declares, Definition.kind, Body.kind, typenameEntries,
      Definition.fields, Body.fields]
  | object fields =>
    simp only [declarationWith, entriesWith, hentries]
    cases hemit : env.settings.emitObjects <;>
      simp [declaration?, hemit, Settings.declares, Definition.kind, Body.kind, typenameEntries,
        Definition.fields, Body.fields]
  | scalar => rfl

theorem value_emission? (d : Definition) :
    (env.emission? d).value = (env.declaration? d).value.map fun declaration =>
      { name := env.names.validatorName d.name
        text := declaration.render
        imports := .ofList [env.names.typeName d.name] } := by
  rw [emission?, value_bind]
  cases (env.declaration? d).value <;> rfl

/-- A definition is emitted as its block exactly if its kind is declared. -/
theorem value_emission?_eq_block (d : Definition) :
    (env.emission? d).value =
      if env.settings.declares d.kind then some (env.block d) else none := by
  rw [value_emission?, value_declaration?]
  cases env.settings.declares d.kind <;> rfl

theorem value_emission?_eq_some_iff {d : Definition} {e : Emission} :
    (env.emission? d).value = some e ↔ env.settings.declares d.kind = true ∧ env.block d = e := by
  rw [value_emission?_eq_block]
  split <;> simp_all

theorem value_emissions :
    env.emissions.value =
      env.index.schema.definitions.filterMap fun d => (env.emission? d).value := by
  have hreduce (found : List (Option Emission)) : found.reduceOption = found.filterMap id := rfl
  rw [emissions, value_bind, value_pure, value_mapM, hreduce, List.filterMap_map]
  rfl

theorem value_emissions_eq_blocks :
    env.emissions.value = env.declared.map env.block := by
  rw [value_emissions, declared, Schema.declared, ← List.filterMap_eq_map, List.filterMap_filter]
  congr 1
  funext d
  simp [value_emission?_eq_block]

end Environment

namespace ImportList

@[simp] theorem seen_empty : empty.seen = ∅ := rfl

theorem merge_ofList_singleton (l : ImportList) (name : String) :
    l.merge (ofList [name]) = l.insert name := by
  have hlist : (ofList [name]).toList = [name] := by
    simp [ofList, insertAll, toList_insert, seen_empty]
  rw [merge, hlist]
  rfl

theorem ofEmissions_map_block (env : Environment) (definitions : List Definition) :
    ofEmissions (definitions.map env.block) =
      ofList (definitions.map fun d => env.names.typeName d.name) := by
  have hstep (l : ImportList) (d : Definition) :
      l.merge (env.block d).imports = l.insert (env.names.typeName d.name) :=
    l.merge_ofList_singleton _
  simp only [ofEmissions, ofList, insertAll, List.foldl_map, hstep]

end ImportList

namespace Environment

variable (env : Environment)

/-- The names of the types that the declared definitions refer to. -/
def imports : ImportList :=
  .ofList (env.declared.map fun d => env.names.typeName d.name)

theorem value_artifact :
    env.artifact.value =
      { prepend := env.prepend env.imports
        content := env.content (env.declared.map env.block) } := by
  rw [artifact, Logged.value_bind, Logged.value_pure, value_emissions_eq_blocks,
    ImportList.ofEmissions_map_block]
  rfl

/-- The text of the declaration of a definition, if it has one. -/
def text? (d : Definition) : Option String :=
  (env.emission? d).value.map Emission.text

theorem text?_eq (d : Definition) :
    env.text? d =
      if env.settings.declares d.kind then
        some (env.declarationWith d (env.validators d)).render
      else none := by
  rw [text?, value_emission?_eq_block]
  cases env.settings.declares d.kind <;> rfl

theorem isSome_text? (d : Definition) : (env.text? d).isSome = env.settings.declares d.kind := by
  rw [text?_eq]
  cases env.settings.declares d.kind <;> rfl

/-- The helpers and the declarations of the definitions in order, each after an empty line. -/
theorem content_artifact :
    env.artifact.value.content =
      "\n" ++ "\n".intercalate
        (env.vocabulary.helpers.map Declaration.render ++
          env.index.schema.definitions.filterMap env.text?) := by
  rw [artifact, Logged.value_bind, Logged.value_pure, value_emissions, content,
    List.map_filterMap]
  rfl

end Environment

end ValidatorGen

import ValidatorGen.Target.Vocabulary

/-!
The built-in vocabularies: zod, myzod, valibot and yup.
-/
namespace ValidatorGen

/-- The type of all defined values and the predicate for it. -/
def anyDefinedHelpers : List Declaration :=
  [{ kind := .type, head := "definedNonNullAny", body := "\x7b\x7d" },
   { exported := true
     kind := .const
     head := "isDefinedNonNullAny"
     body := "(v: any): v is definedNonNullAny => v !== undefined && v !== null" }]

def anyDefinedDeclaration (body : String) : Declaration :=
  { exported := true, kind := .const, head := anyDefinedName, body }

def commaSeparated (items : List String) : String :=
  ", ".intercalate items

/-- A method call after a dot. -/
def Call.text (c : Call) : String :=
  "." ++ c.method ++ "(" ++ commaSeparated c.args ++ ")"

/-- Constraints as a chain of method calls. -/
def chain (expr : String) (calls : List Call) : String :=
  expr ++ String.join (calls.map Call.text)

def quotedList (values : List String) : String :=
  commaSeparated (values.map fun value => "'" ++ value ++ "'")

def zod : Vocabulary where
  name := "zod"
  importLine := "import \x7b z \x7d from 'zod'"
  helpers :=
    { kind := .type
      head := "Properties<T>"
      body := "Required<\x7b\n  [K in keyof T]: z.ZodType<T[K], any, T[K]>;\n\x7d>" } ::
      anyDefinedHelpers ++
      [anyDefinedDeclaration "z.any().refine((v) => isDefinedNonNullAny(v))"]
  primitive
    | .string => "z.string()"
    | .number => "z.number()"
    | .boolean => "z.boolean()"
  listOf element := "z.array(" ++ element ++ ")"
  nullable expr := expr ++ ".nullable()"
  nullish expr := expr ++ ".nullish()"
  deferred expr := "z.lazy(() => " ++ expr ++ ")"
  constrain := chain
  minLength length := ⟨"min", [toString length]⟩
  oneOf values := "z.enum([" ++ quotedList values ++ "])"
  memberOf type := "z.nativeEnum(" ++ type ++ ")"
  objectStart := "z.object(\x7b"
  typenameTag type := "z.literal('" ++ type ++ "').optional()"
  objectType type := "z.ZodObject<Properties<" ++ type ++ ">>"

/-- Optional and nullable are two methods here, and nullish is both. -/
def myzod : Vocabulary where
  name := "myzod"
  importLine := "import * as myzod from 'myzod'"
  helpers :=
    anyDefinedHelpers ++
      [anyDefinedDeclaration "myzod.unknown().withPredicate(isDefinedNonNullAny)"]
  primitive
    | .string => "myzod.string()"
    | .number => "myzod.number()"
    | .boolean => "myzod.boolean()"
  listOf element := "myzod.array(" ++ element ++ ")"
  nullable expr := expr ++ ".nullable()"
  nullish expr := expr ++ ".optional().nullable()"
  deferred expr := "myzod.lazy(() => " ++ expr ++ ")"
  constrain := chain
  minLength length := ⟨"min", [toString length]⟩
  oneOf values := "myzod.literals(" ++ quotedList values ++ ")"
  memberOf type := "myzod.enum(" ++ type ++ ")"
  objectStart := "myzod.object(\x7b"
  typenameTag type := "myzod.literal('" ++ type ++ "').optional()"
  objectType type := "myzod.Type<" ++ type ++ ">"

/-- Constraints as further arguments of one pipe around the expression. -/
def pipe (expr : String) (calls : List Call) : String :=
  match calls with
  | [] => expr
  | calls => "v.pipe(" ++ expr ++ ", " ++ commaSeparated (calls.map fun c => "v" ++ c.text) ++ ")"

def valibot : Vocabulary where
  name := "valibot"
  importLine := "import * as v from 'valibot'"
  helpers :=
    anyDefinedHelpers ++
      [anyDefinedDeclaration "v.pipe(v.any(), v.check((value) => isDefinedNonNullAny(value)))"]
  primitive
    | .string => "v.string()"
    | .number => "v.number()"
    | .boolean => "v.boolean()"
  listOf element := "v.array(" ++ element ++ ")"
  nullable expr := "v.nullable(" ++ expr ++ ")"
  nullish expr := "v.nullish(" ++ expr ++ ")"
  deferred expr := "v.lazy(() => " ++ expr ++ ")"
  constrain := pipe
  minLength length := ⟨"minLength", [toString length]⟩
  oneOf values := "v.picklist([" ++ quotedList values ++ "])"
  memberOf type := "v.enum(" ++ type ++ ")"
  objectStart := "v.object(\x7b"
  typenameTag type := "v.optional(v.literal('" ++ type ++ "'))"
  objectType type := "v.GenericSchema<" ++ type ++ ">"

/-- Expressions accept absence unless told otherwise, so every base validator is defined first. -/
def yup : Vocabulary where
  name := "yup"
  importLine := "import * as yup from 'yup'"
  helpers :=
    anyDefinedHelpers ++
      [anyDefinedDeclaration <|
        "yup.mixed().test('defined-non-null-any', 'value must not be null or undefined', " ++
          "isDefinedNonNullAny)"]
  primitive
    | .string => "yup.string().defined()"
    | .number => "yup.number().defined()"
    | .boolean => "yup.boolean().defined()"
  listOf element := "yup.array(" ++ element ++ ").defined()"
  nullable expr := expr ++ ".nullable()"
  nullish expr := expr ++ ".nullable().optional()"
  deferred expr := "yup.lazy(() => " ++ expr ++ ")"
  constrain := chain
  minLength length := ⟨"min", [toString length]⟩
  oneOf values := "yup.string().oneOf([" ++ quotedList values ++ "]).defined()"
  memberOf type :=
    "yup.string<" ++ type ++ ">().oneOf(Object.values(" ++ type ++ ")).defined()"
  objectStart := "yup.object(\x7b"
  typenameTag type := "yup.string<'" ++ type ++ "'>().optional()"
  objectType type := "yup.ObjectSchema<" ++ type ++ ">"

/-- The built-in vocabularies in order of registration. -/
def builtins : List Vocabulary :=
  [zod, myzod, valibot, yup]

theorem mem_builtins {v : Vocabulary} :
    v ∈ builtins ↔ v = zod ∨ v = myzod ∨ v = valibot ∨ v = yup := by
  simp [builtins]

@[simp] theorem chain_nil (expr : String) : chain expr [] = expr := by
  simp [chain, String.join]

@[simp] theorem pipe_nil (expr : String) : pipe expr [] = expr := rfl

end ValidatorGen

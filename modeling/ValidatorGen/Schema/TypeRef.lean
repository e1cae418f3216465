/-!
Type references: a base name under list and non-null modifiers.
-/
namespace ValidatorGen

inductive TypeRef
  | named (name : String)
  | list (element : TypeRef)
  | nonNull (inner : TypeRef)
  deriving DecidableEq, Repr

/-- The outermost modifier of a type reference. -/
inductive Shape
  | named (name : String)
  | list (element : TypeRef)
  | nonNull (inner : TypeRef)
  deriving DecidableEq, Repr

namespace TypeRef

def baseName : TypeRef → String
  | named name => name
  | list element => baseName element
  | nonNull inner => baseName inner

def text : TypeRef → String
  | named name => name
  | list element => "[" ++ text element ++ "]"
  | nonNull inner => text inner ++ "!"

/-- A non-null modifier directly around another one has no shape. -/
def shape? : TypeRef → Option Shape
  | named name => some (.named name)
  | list element => some (.list element)
  | nonNull (nonNull _) => none
  | nonNull inner => some (.nonNull inner)

@[simp] theorem baseName_named (name : String) : (named name).baseName = name := rfl

@[simp] theorem baseName_list (t : TypeRef) : (list t).baseName = t.baseName := rfl

@[simp] theorem baseName_nonNull (t : TypeRef) : (nonNull t).baseName = t.baseName := rfl

@[simp] theorem text_named (name : String) : (named name).text = name := rfl

@[simp] theorem text_list (t : TypeRef) : (list t).text = "[" ++ t.text ++ "]" := rfl

@[simp] theorem text_nonNull (t : TypeRef) : (nonNull t).text = t.text ++ "!" := rfl

end TypeRef

end ValidatorGen

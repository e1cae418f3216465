import ValidatorGen.Schema.TypeRef

/-! Type references that a schema text can hold: no non-null modifier stands directly around
another one, and the base is a name. -/
namespace ValidatorGen.TypeRef

def isNonNull : TypeRef → Bool
  | nonNull _ => true
  | _ => false

/-- No non-null modifier stands directly around another one. -/
def SingleNonNull : TypeRef → Prop
  | named _ => True
  | list element => element.SingleNonNull
  | nonNull inner => inner.isNonNull = false ∧ inner.SingleNonNull

@[simp] theorem singleNonNull_named (name : String) : (named name).SingleNonNull := trivial

@[simp] theorem singleNonNull_list {t : TypeRef} :
    (list t).SingleNonNull ↔ t.SingleNonNull := Iff.rfl

@[simp] theorem singleNonNull_nonNull {t : TypeRef} :
    (nonNull t).SingleNonNull ↔ t.isNonNull = false ∧ t.SingleNonNull := Iff.rfl

instance decidableSingleNonNull : DecidablePred SingleNonNull
  | named _ => isTrue trivial
  | list element => decidableSingleNonNull element
  | nonNull inner =>
    have := decidableSingleNonNull inner
    decidable_of_iff _ singleNonNull_nonNull.symm

def IsNameStart (c : Char) : Prop :=
  c = '_' ∨ ('A' ≤ c ∧ c ≤ 'Z') ∨ ('a' ≤ c ∧ c ≤ 'z')

def IsNamePart (c : Char) : Prop :=
  IsNameStart c ∨ ('0' ≤ c ∧ c ≤ '9')

/-- A letter or an underscore, then letters, underscores and digits. -/
def IsName (name : String) : Prop :=
  ∃ first rest, name.toList = first :: rest ∧ IsNameStart first ∧ ∀ c ∈ rest, IsNamePart c

def WellFormed (t : TypeRef) : Prop :=
  t.SingleNonNull ∧ IsName t.baseName

@[simp] theorem wellFormed_named {name : String} : (named name).WellFormed ↔ IsName name := by
  simp [WellFormed]

@[simp] theorem wellFormed_list {t : TypeRef} : (list t).WellFormed ↔ t.WellFormed := Iff.rfl

@[simp] theorem wellFormed_nonNull {t : TypeRef} :
    (nonNull t).WellFormed ↔ t.isNonNull = false ∧ t.WellFormed := by
  simp [WellFormed, and_assoc]

end ValidatorGen.TypeRef

import ValidatorGen.Schema.TypeRef
import ValidatorGen.Text.Layout

/-!
Reading type references. Modifiers are taken off from the outside, with blanks allowed around
every token, and a fault is that of the outermost level that failed.
-/
namespace ValidatorGen.TypeRef

inductive Fault
  | repeatedNonNull
  | malformedNonNull
  | unterminatedList
  | malformedElement
  | missingName
  | malformedName
  deriving DecidableEq, Repr

def Fault.reason : Fault → String
  | repeatedNonNull => "non-null modifier applied twice"
  | malformedNonNull => "malformed non-null type"
  | unterminatedList => "unterminated list type"
  | malformedElement => "malformed list element type"
  | missingName => "expected a type name"
  | malformedName => "type name contains invalid characters"

structure ReadError where
  input : String
  fault : Fault
  deriving DecidableEq, Repr

def ReadError.message (e : ReadError) : String :=
  "invalid type reference \x60" ++ e.input ++ "\x60: " ++ e.fault.reason

def isNameStart (c : Char) : Bool :=
  c == '_' || c.isAlpha

def isNameRest (c : Char) : Bool :=
  c == '_' || c.isAlphanum

def readName : List Char → Except Fault TypeRef
  | [] => .error .missingName
  | c :: rest =>
    if !isNameStart c then .error .missingName
    else if !rest.all isNameRest then .error .malformedName
    else .ok (.named (String.ofList (c :: rest)))

/-- The text before a given last character. -/
def beforeLast? (last : Char) (cs : List Char) : Option (List Char) :=
  if cs.getLast? = some last then some cs.dropLast else none

theorem length_of_beforeLast?_eq_some {last : Char} {cs front : List Char}
    (h : beforeLast? last cs = some front) : front.length + 1 = cs.length := by
  unfold beforeLast? at h
  split at h
  · next hlast =>
    cases h
    have : cs ≠ [] := by rintro rfl; simp at hlast
    have := List.length_pos_iff.mpr this
    simp only [List.length_dropLast]
    omega
  · cases h

def readChars (cs : List Char) : Except Fault TypeRef :=
  match _hbang : beforeLast? '!' (Text.trim cs) with
  | some front =>
    if (Text.trimEnd front).getLast? = some '!' then .error .repeatedNonNull
    else
      match readChars (Text.trimEnd front) with
      | .ok inner => .ok (.nonNull inner)
      | .error _ => .error .malformedNonNull
  | none =>
    match _hopen : Text.trim cs with
    | '[' :: rest =>
      match _hclose : beforeLast? ']' rest with
      | some middle =>
        match readChars middle with
        | .ok element => .ok (.list element)
        | .error _ => .error .malformedElement
      | none => .error .unterminatedList
    | name => readName name
termination_by cs.length
decreasing_by
  · have h₁ := length_of_beforeLast?_eq_some _hbang
    have h₂ := Text.length_trimEnd_le front
    have h₃ := Text.length_trim_le cs
    omega
  · have h₁ := length_of_beforeLast?_eq_some _hclose
    have h₂ := Text.length_trim_le cs
    simp only [_hopen, List.length_cons] at h₂
    omega

/-- The type reference that a text holds. -/
def read (input : String) : Except ReadError TypeRef :=
  (readChars input.toList).mapError (⟨input, ·⟩)

end ValidatorGen.TypeRef

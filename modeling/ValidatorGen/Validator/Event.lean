/-!
Events noted while validators are made, and computations that return them beside their value.
-/
namespace ValidatorGen

inductive Level
  | warn
  | debug
  deriving DecidableEq, Repr

inductive Event
  /-- A scalar without validator or primitive kind. -/
  | unhandledScalar (scalar backend : String)
  /-- A type reference without a shape. -/
  | unhandledType (field type : String)
  /-- A mapped argument that gave no call. -/
  | noCall (directive argument : String)
  | emitted (typeName validatorName backend : String)
  | backendResolved (backend : String)
  deriving DecidableEq, Repr

namespace Event

def level : Event → Level
  | unhandledScalar .. => .warn
  | unhandledType .. => .warn
  | noCall .. => .debug
  | emitted .. => .debug
  | backendResolved .. => .debug

def message : Event → String
  | unhandledScalar .. => "unhandled scalar, accepting any defined non-null value"
  | unhandledType .. => "unhandled type expression"
  | noCall .. => "directive mapping produced no call"
  | emitted .. => "emitted validator"
  | backendResolved .. => "resolved validation backend"

def fields : Event → List (String × String)
  | unhandledScalar scalar backend => [("scalar", scalar), ("backend", backend)]
  | unhandledType field type => [("field", field), ("ty", type)]
  | noCall directive argument => [("directive", directive), ("argument", argument)]
  | emitted typeName validatorName backend =>
    [("type_name", typeName), ("schema", validatorName), ("backend", backend)]
  | backendResolved backend => [("backend", backend)]

end Event

/-- A value and the events noted on the way to it, in order. -/
structure Logged (α : Type) where
  value : α
  events : List Event := []

namespace Logged

variable {α β : Type}

def note (event : Event) : Logged Unit :=
  ⟨(), [event]⟩

protected def bind (x : Logged α) (f : α → Logged β) : Logged β :=
  ⟨(f x.value).value, x.events ++ (f x.value).events⟩

instance : Monad Logged where
  pure a := ⟨a, []⟩
  bind := Logged.bind

theorem ext_iff {x y : Logged α} : x = y ↔ x.value = y.value ∧ x.events = y.events := by
  cases x; cases y; simp

@[simp] theorem value_pure (a : α) : (pure a : Logged α).value = a := rfl

@[simp] theorem events_pure (a : α) : (pure a : Logged α).events = [] := rfl

@[simp] theorem value_bind (x : Logged α) (f : α → Logged β) :
    (x >>= f).value = (f x.value).value := rfl

@[simp] theorem events_bind (x : Logged α) (f : α → Logged β) :
    (x >>= f).events = x.events ++ (f x.value).events := rfl

@[simp] theorem value_map (f : α → β) (x : Logged α) : (f <$> x).value = f x.value := rfl

@[simp] theorem events_map (f : α → β) (x : Logged α) : (f <$> x).events = x.events := by
  change x.events ++ [] = x.events
  simp

@[simp] theorem value_note (e : Event) : (note e).value = () := rfl

@[simp] theorem events_note (e : Event) : (note e).events = [e] := rfl

instance : LawfulMonad Logged :=
  LawfulMonad.mk' Logged (fun x => by simp [ext_iff]) (fun _ _ => by simp [ext_iff])
    (fun _ _ _ => by simp [ext_iff])

@[simp] theorem value_mapM (f : α → Logged β) (items : List α) :
    (items.mapM f).value = items.map fun item => (f item).value := by
  induction items with
  | nil => rfl
  | cons item rest ih => simp [List.mapM_cons, ih]

theorem mapM_congr {f g : α → Logged β} {items : List α} (h : ∀ item ∈ items, f item = g item) :
    items.mapM f = items.mapM g := by
  induction items with
  | nil => rfl
  | cons item rest ih =>
    obtain ⟨hitem, hrest⟩ := List.forall_mem_cons.mp h
    rw [List.mapM_cons, List.mapM_cons, hitem, ih hrest]

end Logged

end ValidatorGen

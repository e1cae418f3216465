import ValidatorGen.Target.Builtin

/-!
Registries of vocabularies. Whatever a registry is first used for, the built-in vocabularies are
entered before it, so that no custom one can take over their names; among equal names the earlier
one is found.
-/
namespace ValidatorGen

structure Registry where
  /-- The vocabularies in order of registration. -/
  entries : List Vocabulary := []
  /-- Whether the built-in vocabularies are among them. -/
  ready : Bool := false

namespace Registry

/-- Enters the built-in vocabularies, the first time only. -/
def prepare (r : Registry) : Registry :=
  if r.ready then r else { entries := r.entries ++ builtins, ready := true }

def register (r : Registry) (v : Vocabulary) : Registry :=
  { r.prepare with entries := r.prepare.entries ++ [v] }

def backends (r : Registry) : List Vocabulary :=
  r.prepare.entries

def names (r : Registry) : List String :=
  r.backends.map (·.name)

def find? (r : Registry) (name : String) : Option Vocabulary :=
  r.backends.find? (·.name == name)

theorem prepare_of_ready {r : Registry} (h : r.ready = true) : r.prepare = r :=
  if_pos h

@[simp] theorem ready_prepare (r : Registry) : r.prepare.ready = true := by
  unfold prepare
  split
  · assumption
  · rfl

@[simp] theorem backends_prepare (r : Registry) : r.prepare.backends = r.backends := by
  rw [backends, prepare_of_ready r.ready_prepare, backends]

@[simp] theorem backends_register (r : Registry) (v : Vocabulary) :
    (r.register v).backends = r.backends ++ [v] := by
  have hready : (r.register v).ready = true := r.ready_prepare
  rw [backends, prepare_of_ready hready]
  rfl

end Registry

end ValidatorGen

import ValidatorGen.Proofs.Text.Frame
import ValidatorGen.Target.Builtin

/-! What a vocabulary puts around an expression for each modifier of its type, and when the
modifiers can be read off what it put there. Modifiers are written in front, behind, or both, and
the spelling of one may begin like that of another, as in absence, which some vocabularies spell as
null and one call more. -/
namespace ValidatorGen

open Text

/-- The frames of a vocabulary around an expression. -/
structure Wording where
  list : Frame
  nullable : Frame
  nullish : Frame
  deferred : Frame
  /-- Refuses the empty string. -/
  nonEmpty : Frame

namespace Wording

variable (w : Wording)

def frames : List Frame :=
  [w.list, w.nullable, w.nullish, w.deferred, w.nonEmpty]

/-- The frame of a base name, which may be non-null and may be in a list. -/
def mark (rejects inList nonNull : Bool) : Frame :=
  if nonNull then if rejects then w.nonEmpty else .bare
  else if inList then w.nullable else w.nullish

def leaf (deferred rejects inList nonNull : Bool) : Frame :=
  if deferred then w.deferred.enclose (w.mark rejects inList nonNull)
  else w.mark rejects inList nonNull

/-- The frame of a list. -/
def level (nonNull : Bool) : Frame :=
  if nonNull then w.list else w.nullish.enclose w.list

/-- Lists around a frame, innermost list first. -/
def nest (lists : List Bool) (inner : Frame) : Frame :=
  lists.foldl (fun inner nonNull => (w.level nonNull).enclose inner) inner

/-- The frame of a base name under lists. -/
def frame (deferred rejects nonNull : Bool) (lists : List Bool) : Frame :=
  w.nest lists (w.leaf deferred rejects (0 < lists.length) nonNull)

theorem before_nest (lists : List Bool) (inner : Frame) :
    (w.nest lists inner).before =
      (lists.reverse.flatMap fun nonNull => (w.level nonNull).before) ++ inner.before := by
  induction lists generalizing inner with
  | nil => rfl
  | cons nonNull rest ih =>
    rw [nest, List.foldl_cons, ← nest, ih]
    simp [Frame.enclose]

theorem after_nest (lists : List Bool) (inner : Frame) :
    (w.nest lists inner).after =
      inner.after ++ lists.flatMap fun nonNull => (w.level nonNull).after := by
  induction lists generalizing inner with
  | nil => simp [nest]
  | cons nonNull rest ih =>
    rw [nest, List.foldl_cons, ← nest, ih]
    simp [Frame.enclose]

theorem before_leaf (deferred rejects inList nonNull : Bool) :
    (w.leaf deferred rejects inList nonNull).before =
      (if deferred then w.deferred.before else []) ++ (w.mark rejects inList nonNull).before := by
  cases deferred <;> rfl

theorem after_leaf (deferred rejects inList nonNull : Bool) :
    (w.leaf deferred rejects inList nonNull).after =
      (w.mark rejects inList nonNull).after ++ if deferred then w.deferred.after else [] := by
  cases deferred <;> simp [leaf, Frame.enclose]

section Balanced

variable {w} {weight : Char → Nat} (h : ∀ f ∈ w.frames, f.Balanced weight)
include h

theorem balanced_mark (rejects inList nonNull : Bool) :
    (w.mark rejects inList nonNull).Balanced weight := by
  simp only [frames, List.forall_mem_cons] at h
  obtain ⟨-, hnullable, hnullish, -, hnonEmpty, -⟩ := h
  unfold mark
  split_ifs
  exacts [hnonEmpty, Frame.balanced_bare, hnullable, hnullish]

theorem balanced_leaf (deferred rejects inList nonNull : Bool) :
    (w.leaf deferred rejects inList nonNull).Balanced weight := by
  have hmark := balanced_mark h rejects inList nonNull
  cases deferred with
  | false => exact hmark
  | true => exact (h w.deferred (by simp [frames])).enclose hmark

theorem balanced_level (nonNull : Bool) : (w.level nonNull).Balanced weight := by
  have hlist := h w.list (by simp [frames])
  cases nonNull with
  | true => exact hlist
  | false => exact (h w.nullish (by simp [frames])).enclose hlist

theorem balanced_frame (deferred rejects nonNull : Bool) (lists : List Bool) :
    (w.frame deferred rejects nonNull lists).Balanced weight := by
  have hnest {inner : Frame} (hinner : inner.Balanced weight) :
      (w.nest lists inner).Balanced weight := by
    induction lists generalizing inner with
    | nil => exact hinner
    | cons nonNull rest ih => exact ih ((balanced_level h nonNull).enclose hinner)
  exact hnest (balanced_leaf h deferred rejects (0 < lists.length) nonNull)

end Balanced

/-- The lists of a type can be counted in what stands before its base name. -/
structure Counts : Prop where
  list : 0 < w.list.before.count 'y'
  nullish : w.nullish.before.count 'y' = 0
  mark : ∀ rejects inList nonNull, (w.mark rejects inList nonNull).before.count 'y' = 0

theorem count_nest {w : Wording} (h : w.Counts) (lists : List Bool) (inner : Frame) :
    (w.nest lists inner).before.count 'y' =
      lists.length * w.list.before.count 'y' + inner.before.count 'y' := by
  have hlevel (nonNull : Bool) :
      (w.level nonNull).before.count 'y' = w.list.before.count 'y' := by
    cases nonNull <;> simp [level, Frame.enclose, h.nullish]
  induction lists generalizing inner with
  | nil => simp [nest]
  | cons nonNull rest ih =>
    rw [nest, List.foldl_cons, ← nest, ih, Frame.enclose, List.count_append, hlevel,
      List.length_cons, Nat.succ_mul, Nat.add_assoc]

theorem Counts.length_eq {w : Wording} (h : w.Counts) {deferred rejects nonNull other : Bool}
    {lists others : List Bool}
    (heq : w.frame deferred rejects nonNull lists = w.frame deferred rejects other others) :
    lists.length = others.length := by
  have hleaf (inList nonNull : Bool) : (w.leaf deferred rejects inList nonNull).before.count 'y' =
      (if deferred then w.deferred.before else []).count 'y' := by
    rw [before_leaf, List.count_append, h.mark, Nat.add_zero]
  have hcount := congrArg (fun f => f.before.count 'y') heq
  simp only [frame, count_nest h, hleaf, Nat.add_right_cancel_iff] at hcount
  exact Nat.eq_of_mul_eq_mul_right h.list hcount

/-- A text that no call begins. -/
def NoCall (cs : List Char) : Prop :=
  cs.head? ≠ some '.'

/-- Modifiers are calls behind the expression, which a list or a deferral closes. -/
structure Chains : Prop where
  list : w.list.after.head? = some ')'
  deferred : w.deferred.after.head? = some ')'
  calls : w.nullable.after.head? = some '.' ∧ w.nullish.after.head? = some '.'
  nonEmpty : Diverge w.nonEmpty.after w.nullable.after ∧ Diverge w.nonEmpty.after w.nullish.after

/-- Modifiers are functions around the expression. -/
structure Wraps : Prop where
  level : Diverge (w.level true).before (w.level false).before
  mark : ∀ rejects inList,
    (w.mark rejects inList true).before ≠ (w.mark rejects inList false).before

theorem noCall_nil : NoCall [] := nofun

theorem noCall_append {cs : List Char} (h : cs.head? = some ')') (more : List Char) :
    NoCall (cs ++ more) := by
  simp [NoCall, List.head?_append, h]

/-- A word and the same word with a call behind it, where no other call can follow. -/
theorem separate_of_call {word : Bool → List Char} {call : List Char}
    (hcall : call.head? = some '.') (hword : word false = word true ++ call) :
    Separate NoCall word := by
  intro rest more hrest _ heq
  rw [hword, List.append_assoc] at heq
  apply hrest
  rw [List.append_cancel_left heq, List.head?_append, hcall]
  rfl

section Read

variable {w} {deferred rejects nonNull other : Bool} {lists others : List Bool}

theorem Chains.noCall_level (h : w.Chains) (nonNull : Bool) (cs : List Char) :
    NoCall ((w.level nonNull).after ++ cs) := by
  cases nonNull with
  | true => exact noCall_append h.list cs
  | false =>
    rw [level, if_neg Bool.false_ne_true, Frame.enclose, List.append_assoc]
    exact noCall_append h.list _

/-- No call follows the modifiers of a base name but those of its lists. -/
theorem Chains.noCall_nest (h : w.Chains) (deferred : Bool) (lists : List Bool) :
    NoCall ((if deferred then w.deferred.after else []) ++
      lists.flatMap fun nonNull => (w.level nonNull).after) := by
  cases deferred with
  | true => exact noCall_append h.deferred _
  | false =>
    cases lists with
    | nil => exact noCall_nil
    | cons nonNull rest => exact h.noCall_level nonNull _

theorem Chains.separate_level (h : w.Chains) :
    Separate NoCall fun nonNull => (w.level nonNull).after :=
  separate_of_call h.calls.2 rfl

theorem Chains.separate_mark (h : w.Chains) (rejects inList : Bool) :
    Separate NoCall fun nonNull => (w.mark rejects inList nonNull).after := by
  cases rejects <;> cases inList
  · exact separate_of_call h.calls.2 rfl
  · exact separate_of_call h.calls.1 rfl
  · exact Diverge.separate h.nonEmpty.2
  · exact Diverge.separate h.nonEmpty.1

/-- Calls are read from the inside outwards. -/
theorem Chains.frame_inj (h : w.Chains) (hlength : lists.length = others.length)
    (heq : w.frame deferred rejects nonNull lists = w.frame deferred rejects other others) :
    nonNull = other ∧ lists = others := by
  have hafter := congrArg Frame.after heq
  simp only [frame, after_nest, after_leaf, List.append_assoc, hlength] at hafter
  obtain ⟨rfl, htail⟩ := (h.separate_mark rejects _).append_inj (h.noCall_nest deferred lists)
    (h.noCall_nest deferred others) hafter
  -- Deferral is on both sides or on none, so the calls of the lists are left.
  have hlists := List.append_cancel_left htail
  rw [← List.append_nil (lists.flatMap _), ← List.append_nil (others.flatMap _)] at hlists
  obtain ⟨rfl, -⟩ := h.separate_level.flatMap_append_inj
    (fun nonNull cs _ => h.noCall_level nonNull cs) noCall_nil noCall_nil hlength hlists
  exact ⟨rfl, rfl⟩

/-- Functions are read from the outside inwards. -/
theorem Wraps.frame_inj (h : w.Wraps) (hlength : lists.length = others.length)
    (heq : w.frame deferred rejects nonNull lists = w.frame deferred rejects other others) :
    nonNull = other ∧ lists = others := by
  have hbefore := congrArg Frame.before heq
  simp only [frame, before_nest, before_leaf, hlength] at hbefore
  have hlevel : Separate (fun _ => True) fun nonNull => (w.level nonNull).before :=
    Diverge.separate h.level
  obtain ⟨hlists, hleaf⟩ := hlevel.flatMap_append_inj (fun _ _ _ => trivial) trivial trivial
    (by simpa using hlength) hbefore
  refine ⟨?_, List.reverse_injective hlists⟩
  have hmark := List.append_cancel_left hleaf
  cases nonNull <;> cases other
  · rfl
  · exact (h.mark rejects _ hmark.symm).elim
  · exact (h.mark rejects _ hmark).elim
  · rfl

end Read

/-- The modifiers of a type can be read off the frame that stands for them. -/
structure Legible : Prop where
  balanced : ∃ weight, ∀ f ∈ w.frames, f.Balanced weight
  counts : w.Counts
  sides : w.Chains ∨ w.Wraps

/-- Whatever text is framed, equal results have equal modifiers. -/
theorem Legible.fill_frame_inj {w : Wording} (h : w.Legible) {deferred rejects nonNull other : Bool}
    {lists others : List Bool} {cs : List Char}
    (heq : (w.frame deferred rejects nonNull lists).fill cs =
      (w.frame deferred rejects other others).fill cs) :
    nonNull = other ∧ lists = others := by
  obtain ⟨weight, hbalanced⟩ := h.balanced
  have hframe := (balanced_frame hbalanced deferred rejects nonNull lists).fill_inj
    (balanced_frame hbalanced deferred rejects other others) heq
  have hlength := h.counts.length_eq hframe
  rcases h.sides with hchains | hwraps
  · exact hchains.frame_inj hlength hframe
  · exact hwraps.frame_inj hlength hframe

end Wording

/-- A vocabulary writes the modifiers of a type as a wording has them. -/
structure Vocabulary.Writes (v : Vocabulary) (w : Wording) : Prop where
  listOf (expr : String) : (v.listOf expr).toList = w.list.fill expr.toList
  nullable (expr : String) : (v.nullable expr).toList = w.nullable.fill expr.toList
  nullish (expr : String) : (v.nullish expr).toList = w.nullish.fill expr.toList
  deferred (expr : String) : (v.deferred expr).toList = w.deferred.fill expr.toList
  unconstrained (expr : String) : v.constrain expr [] = expr
  nonEmpty (expr : String) :
    (v.constrain expr [v.minLength 1]).toList = w.nonEmpty.fill expr.toList

/-- The wording of a library whose modifiers are methods. -/
def methodWording (library listEnd nullish : String) : Wording where
  list := .ofTexts (library ++ ".array(") listEnd
  nullable := .ofTexts "" ".nullable()"
  nullish := .ofTexts "" nullish
  deferred := .ofTexts (library ++ ".lazy(() => ") ")"
  nonEmpty := .ofTexts "" ".min(1)"

/-- The wording of a library whose modifiers are functions. -/
def functionWording : Wording where
  list := .ofTexts "v.array(" ")"
  nullable := .ofTexts "v.nullable(" ")"
  nullish := .ofTexts "v.nullish(" ")"
  deferred := .ofTexts "v.lazy(() => " ")"
  nonEmpty := .ofTexts "v.pipe(" ", v.minLength(1))"

theorem toList_chain_min (expr : String) :
    (chain expr [⟨"min", [toString 1]⟩]).toList =
      (Frame.ofTexts "" ".min(1)").fill expr.toList := by
  have htexts : String.join ([⟨"min", [toString 1]⟩].map Call.text) = ".min(1)" := by decide
  rw [chain, htexts, String.toList_append]
  rfl

theorem writes_zod : zod.Writes (methodWording "z" ")" ".nullish()") where
  listOf expr := by simp [zod, methodWording, Frame.ofTexts, Frame.fill]
  nullable expr := by simp [zod, methodWording, Frame.ofTexts, Frame.fill]
  nullish expr := by simp [zod, methodWording, Frame.ofTexts, Frame.fill]
  deferred expr := by simp [zod, methodWording, Frame.ofTexts, Frame.fill]
  unconstrained := chain_nil
  nonEmpty := toList_chain_min

theorem writes_myzod : myzod.Writes (methodWording "myzod" ")" ".optional().nullable()") where
  listOf expr := by simp [myzod, methodWording, Frame.ofTexts, Frame.fill]
  nullable expr := by simp [myzod, methodWording, Frame.ofTexts, Frame.fill]
  nullish expr := by simp [myzod, methodWording, Frame.ofTexts, Frame.fill]
  deferred expr := by simp [myzod, methodWording, Frame.ofTexts, Frame.fill]
  unconstrained := chain_nil
  nonEmpty := toList_chain_min

theorem writes_yup : yup.Writes (methodWording "yup" ").defined()" ".nullable().optional()") where
  listOf expr := by simp [yup, methodWording, Frame.ofTexts, Frame.fill]
  nullable expr := by simp [yup, methodWording, Frame.ofTexts, Frame.fill]
  nullish expr := by simp [yup, methodWording, Frame.ofTexts, Frame.fill]
  deferred expr := by simp [yup, methodWording, Frame.ofTexts, Frame.fill]
  unconstrained := chain_nil
  nonEmpty := toList_chain_min

theorem writes_valibot : valibot.Writes functionWording where
  listOf expr := by simp [valibot, functionWording, Frame.ofTexts, Frame.fill]
  nullable expr := by simp [valibot, functionWording, Frame.ofTexts, Frame.fill]
  nullish expr := by simp [valibot, functionWording, Frame.ofTexts, Frame.fill]
  deferred expr := by simp [valibot, functionWording, Frame.ofTexts, Frame.fill]
  unconstrained := pipe_nil
  nonEmpty expr := by
    have htexts : commaSeparated ([⟨"minLength", [toString 1]⟩].map fun c => "v" ++ Call.text c) =
        "v.minLength(1)" := by decide
    simp only [valibot, pipe, htexts]
    simp [functionWording, Frame.ofTexts, Frame.fill]

/-- Weights of some characters; the others weigh nothing. -/
def weights (table : List (Char × Nat)) (c : Char) : Nat :=
  (table.lookup c).getD 0

theorem legible_zod : (methodWording "z" ")" ".nullish()").Legible where
  balanced := ⟨weights [('y', 8), ('>', 5)], by decide⟩
  counts := ⟨by decide, by decide, by decide⟩
  sides := Or.inl ⟨by decide, by decide, by decide, by decide⟩

theorem legible_myzod : (methodWording "myzod" ")" ".optional().nullable()").Legible where
  balanced := ⟨weights [('y', 6), ('>', 5)], by decide⟩
  counts := ⟨by decide, by decide, by decide⟩
  sides := Or.inl ⟨by decide, by decide, by decide, by decide⟩

theorem legible_yup : (methodWording "yup" ").defined()" ".nullable().optional()").Legible where
  balanced := ⟨weights [('y', 5), ('>', 5)], by decide⟩
  counts := ⟨by decide, by decide, by decide⟩
  sides := Or.inl ⟨by decide, by decide, by decide, by decide⟩

/-- Each function has a letter of its own to be known by. -/
theorem legible_valibot : functionWording.Legible where
  balanced := ⟨weights [('y', 8), ('>', 5), ('b', 11), ('s', 10), ('L', 7)], by decide⟩
  counts := ⟨by decide, by decide, by decide⟩
  sides := Or.inr ⟨by decide, by decide⟩

theorem exists_wording {v : Vocabulary} (hv : v ∈ builtins) :
    ∃ w : Wording, v.Writes w ∧ w.Legible := by
  rcases mem_builtins.mp hv with rfl | rfl | rfl | rfl
  · exact ⟨_, writes_zod, legible_zod⟩
  · exact ⟨_, writes_myzod, legible_myzod⟩
  · exact ⟨_, writes_valibot, legible_valibot⟩
  · exact ⟨_, writes_yup, legible_yup⟩

end ValidatorGen

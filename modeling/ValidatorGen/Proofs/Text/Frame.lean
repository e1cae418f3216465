import Mathlib.Data.List.Infix

/-! Frames: texts with a gap. Nothing is known of what fills the gap, so its place in the whole has
to be found from the frame alone. Where the characters of a frame weigh as many as stand before its
gap, the weight of the whole gives that place away. -/
namespace ValidatorGen.Text

/-- What stands before and after a gap. -/
structure Frame where
  before : List Char
  after : List Char
  deriving DecidableEq, Repr

namespace Frame

def ofTexts (before after : String) : Frame :=
  ⟨before.toList, after.toList⟩

/-- Nothing but the gap. -/
def bare : Frame := ⟨[], []⟩

def fill (f : Frame) (cs : List Char) : List Char :=
  f.before ++ cs ++ f.after

/-- The second frame in the gap of the first one. -/
def enclose (outer inner : Frame) : Frame :=
  ⟨outer.before ++ inner.before, inner.after ++ outer.after⟩

@[simp] theorem fill_bare (cs : List Char) : bare.fill cs = cs := by
  simp [bare, fill]

@[simp] theorem fill_enclose (outer inner : Frame) (cs : List Char) :
    (outer.enclose inner).fill cs = outer.fill (inner.fill cs) := by
  simp [enclose, fill]

def weigh (weight : Char → Nat) : List Char → Nat
  | [] => 0
  | c :: cs => weight c + weigh weight cs

@[simp] theorem weigh_append (weight : Char → Nat) (cs ds : List Char) :
    weigh weight (cs ++ ds) = weigh weight cs + weigh weight ds := by
  induction cs with
  | nil => simp [weigh]
  | cons c cs ih => simp [weigh, ih, Nat.add_assoc]

/-- The characters of a frame weigh as many as stand before its gap. -/
def Balanced (weight : Char → Nat) (f : Frame) : Prop :=
  weigh weight f.before + weigh weight f.after = f.before.length

instance (weight : Char → Nat) (f : Frame) : Decidable (f.Balanced weight) := by
  unfold Balanced
  infer_instance

variable {weight : Char → Nat}

theorem balanced_bare : bare.Balanced weight := rfl

theorem Balanced.enclose {outer inner : Frame} (houter : outer.Balanced weight)
    (hinner : inner.Balanced weight) : (outer.enclose inner).Balanced weight := by
  unfold Balanced at *
  simp only [Frame.enclose, weigh_append, List.length_append]
  omega

/-- Frames around the same text are equal if they read the same. -/
theorem Balanced.fill_inj {f g : Frame} (hf : f.Balanced weight) (hg : g.Balanced weight)
    {cs : List Char} (h : f.fill cs = g.fill cs) : f = g := by
  unfold Balanced at hf hg
  -- The filling weighs the same on both sides, whatever its own characters are.
  have hlength : f.before.length = g.before.length := by
    have hweight := congrArg (weigh weight) h
    simp only [fill, weigh_append] at hweight
    omega
  rw [fill, fill, List.append_assoc, List.append_assoc] at h
  obtain ⟨hbefore, hrest⟩ := List.append_inj h hlength
  have hafter := List.append_cancel_left hrest
  cases f
  cases g
  simp_all

end Frame

/-- Neither text goes on from the other. -/
def Diverge (a b : List Char) : Prop :=
  ¬ a <+: b ∧ ¬ b <+: a

instance (a b : List Char) : Decidable (Diverge a b) := by
  unfold Diverge
  infer_instance

/-- The two words differ whatever follows them there. -/
def Separate (Follows : List Char → Prop) (word : Bool → List Char) : Prop :=
  ∀ rest more, Follows rest → Follows more → word true ++ rest ≠ word false ++ more

section Words

variable {Follows : List Char → Prop} {word : Bool → List Char} {rest more : List Char}

theorem Diverge.separate (h : Diverge (word true) (word false)) : Separate Follows word := by
  intro rest more _ _ heq
  have hfalse : word false <+: word true ++ rest := heq ▸ List.prefix_append (word false) more
  rcases List.prefix_or_prefix_of_prefix (List.prefix_append (word true) rest) hfalse with
    hprefix | hprefix
  · exact h.1 hprefix
  · exact h.2 hprefix

/-- One of two separate words is known from a text that begins with it. -/
theorem Separate.append_inj (h : Separate Follows word) (hrest : Follows rest)
    (hmore : Follows more) {b c : Bool} (heq : word b ++ rest = word c ++ more) :
    b = c ∧ rest = more := by
  cases b <;> cases c
  · exact ⟨rfl, List.append_cancel_left heq⟩
  · exact (h more rest hmore hrest heq.symm).elim
  · exact (h rest more hrest hmore heq).elim
  · exact ⟨rfl, List.append_cancel_left heq⟩

/-- So is a sequence of such words, if its length is known. -/
theorem Separate.flatMap_append_inj (h : Separate Follows word)
    (hword : ∀ b cs, Follows cs → Follows (word b ++ cs)) (hrest : Follows rest)
    (hmore : Follows more) {bs cs : List Bool} (hlength : bs.length = cs.length)
    (heq : bs.flatMap word ++ rest = cs.flatMap word ++ more) : bs = cs ∧ rest = more := by
  have hmany {cs : List Char} (hcs : Follows cs) (bs : List Bool) :
      Follows (bs.flatMap word ++ cs) := by
    induction bs with
    | nil => exact hcs
    | cons b bs ih =>
      rw [List.flatMap_cons, List.append_assoc]
      exact hword b _ ih
  induction bs generalizing cs with
  | nil =>
    obtain rfl := List.eq_nil_of_length_eq_zero hlength.symm
    exact ⟨rfl, heq⟩
  | cons b bs ih =>
    cases cs with
    | nil => cases hlength
    | cons c cs =>
      rw [List.flatMap_cons, List.flatMap_cons, List.append_assoc, List.append_assoc] at heq
      obtain ⟨rfl, htail⟩ := h.append_inj (hmany hrest bs) (hmany hmore cs) heq
      obtain ⟨rfl, hends⟩ := ih (Nat.succ.inj hlength) htail
      exact ⟨rfl, hends⟩

end Words

end ValidatorGen.Text

import Mathlib.Data.List.Chain
import Mathlib.Data.List.TakeWhile
import ValidatorGen.Validator.Template

/-! What templates mean. A template is a sequence of characters and placeholders. It reads as one in
a single way when every placeholder takes all digits after its dollar sign. -/
namespace ValidatorGen.Template

open ValidatorGen.Json (Value)

inductive Part
  | char (c : Char)
  | placeholder (digits : List Char)
  deriving DecidableEq, Repr

namespace Part

def spelling : Part → List Char
  | char c => [c]
  | placeholder digits => '$' :: digits

/-- Digits after the part would belong to a placeholder. -/
def takesDigits : Part → Bool
  | char c => c == '$'
  | placeholder _ => true

def isDigit : Part → Bool
  | char c => c.isDigit
  | placeholder _ => false

@[simp] theorem spelling_char (c : Char) : (char c).spelling = [c] := rfl

@[simp] theorem spelling_placeholder (digits : List Char) :
    (placeholder digits).spelling = '$' :: digits := rfl

end Part

/-- The parts spell the text, and none could be longer: no digit that is a character stands after a
placeholder or after a dollar sign. -/
structure Splits (parts : List Part) (cs : List Char) : Prop where
  spelling : parts.flatMap Part.spelling = cs
  digits : ∀ digits, .placeholder digits ∈ parts → digits ≠ [] ∧ ∀ d ∈ digits, d.isDigit = true
  longest : parts.IsChain fun part next => part.takesDigits = true → next.isDigit = false

def split : List Char → List Part
  | [] => []
  | c :: rest =>
    if c = '$' ∧ rest.takeWhile Char.isDigit ≠ [] then
      .placeholder (rest.takeWhile Char.isDigit) :: split (rest.dropWhile Char.isDigit)
    else .char c :: split rest
termination_by cs => cs.length
decreasing_by
  · have := (List.dropWhile_suffix (l := rest) Char.isDigit).length_le
    simp only [List.length_cons]
    omega
  · simp

/-- The value of this number, counted from one. Numbers of more than 64 bits have none. -/
def valueAt? (values : List Value) (n : Nat) : Option Value :=
  if 1 ≤ n ∧ n < 1 <<< 64 then values[n - 1]? else none

/-- The value that a placeholder stands for. -/
def placed? (values : List Value) (digits : List Char) : Option Value :=
  valueAt? values (Nat.ofDigitChars 10 digits 0)

/-- What is put in for a part: placeholders without a value leave nothing. -/
def Part.text (values : List Value) : Part → List Char
  | .char c => [c]
  | .placeholder digits => (((placed? values digits).map rawText).getD "").toList

/-- The argument that parts give. A placeholder alone is its value as a literal; all other parts are
put together to one text, which is dropped when it is empty. -/
def meaning (values : List Value) : List Part → Option String
  | [.placeholder digits] => (placed? values digits).map literal
  | parts =>
    match parts.flatMap (Part.text values) with
    | [] => none
    | text => some (stringLiteral (String.ofList text))

/-! The split of a text. -/

theorem takeWhile_spelling {parts : List Part} (h : ∀ next ∈ parts.head?, next.isDigit = false) :
    (parts.flatMap Part.spelling).takeWhile Char.isDigit = [] := by
  cases parts with
  | nil => rfl
  | cons part rest =>
    have hpart : part.isDigit = false := h part rfl
    cases part with
    | char c => exact List.takeWhile_cons_of_neg (Bool.eq_false_iff.mp hpart)
    | placeholder digits => rfl

theorem isDigit_of_mem_head?_split {cs : List Char} {part : Part} (h : part ∈ (split cs).head?)
    (hdigit : part.isDigit = true) : cs.takeWhile Char.isDigit ≠ [] := by
  cases cs with
  | nil => simp [split] at h
  | cons c rest =>
    rw [split] at h
    split at h
    · cases h
      cases hdigit
    · cases h
      have hc : c.isDigit = true := hdigit
      simp [hc]

theorem splits_split (cs : List Char) : Splits (split cs) cs := by
  fun_induction split cs with
  | case1 => exact ⟨rfl, nofun, .nil⟩
  | case2 c rest h ih =>
    obtain ⟨rfl, hdigits⟩ := h
    refine ⟨?_, ?_, List.isChain_cons.mpr ⟨?_, ih.longest⟩⟩
    · rw [List.flatMap_cons, ih.spelling, Part.spelling_placeholder, List.cons_append,
        List.takeWhile_append_dropWhile]
    · intro digits hmem
      rcases List.mem_cons.mp hmem with heq | hmem
      · cases heq
        exact ⟨hdigits, fun d hd => List.mem_takeWhile_imp hd⟩
      · exact ih.digits digits hmem
    · intro next hnext _
      rw [Bool.eq_false_iff]
      intro hdigit
      exact isDigit_of_mem_head?_split hnext hdigit
        (List.takeWhile_eq_nil_iff.mpr (List.dropWhile_get_zero_not _ rest))
  | case3 c rest h ih =>
    refine ⟨?_, ?_, List.isChain_cons.mpr ⟨?_, ih.longest⟩⟩
    · rw [List.flatMap_cons, ih.spelling]
      rfl
    · intro digits hmem
      rcases List.mem_cons.mp hmem with heq | hmem
      · cases heq
      · exact ih.digits digits hmem
    · intro next hnext hdollar
      rw [Bool.eq_false_iff]
      intro hdigit
      exact h ⟨eq_of_beq hdollar, isDigit_of_mem_head?_split hnext hdigit⟩

theorem Splits.tail {part : Part} {rest : List Part} {cs : List Char}
    (h : Splits (part :: rest) cs) : Splits rest (rest.flatMap Part.spelling) :=
  ⟨rfl, fun digits hmem => h.digits digits (List.mem_cons_of_mem part hmem), h.longest.tail⟩

/-- A text has no other split. -/
theorem Splits.eq_split {parts : List Part} {cs : List Char} (h : Splits parts cs) :
    parts = split cs := by
  induction parts generalizing cs with
  | nil =>
    obtain rfl := h.spelling
    rw [List.flatMap_nil, split]
  | cons part rest ih =>
    have hrest := ih h.tail
    have hnext := (List.isChain_cons.mp h.longest).1
    obtain rfl := h.spelling
    cases part with
    | char c =>
      have hchar : ¬ (c = '$' ∧
          (rest.flatMap Part.spelling).takeWhile Char.isDigit ≠ []) := by
        rintro ⟨rfl, hdigits⟩
        exact hdigits (takeWhile_spelling fun next hmem => hnext next hmem rfl)
      rw [List.flatMap_cons, Part.spelling_char, List.singleton_append, split, if_neg hchar,
        ← hrest]
    | placeholder digits =>
      obtain ⟨hne, hdigits⟩ := h.digits digits (by simp)
      have htake : (digits ++ rest.flatMap Part.spelling).takeWhile Char.isDigit = digits := by
        rw [List.takeWhile_append_of_pos hdigits,
          takeWhile_spelling fun next hmem => hnext next hmem rfl, List.append_nil]
      have hdrop : (digits ++ rest.flatMap Part.spelling).dropWhile Char.isDigit =
          rest.flatMap Part.spelling := by
        have happend := List.takeWhile_append_dropWhile (p := Char.isDigit)
          (l := digits ++ rest.flatMap Part.spelling)
        rw [htake] at happend
        exact List.append_cancel_left happend
      rw [List.flatMap_cons, Part.spelling_placeholder, List.cons_append, split, htake, hdrop,
        if_pos ⟨rfl, hne⟩, ← hrest]

theorem splits_iff {parts : List Part} {cs : List Char} :
    Splits parts cs ↔ parts = split cs :=
  ⟨Splits.eq_split, fun h => h ▸ splits_split cs⟩

theorem split_eq_placeholder_iff {cs digits : List Char} :
    split cs = [.placeholder digits] ↔
      cs = '$' :: digits ∧ digits ≠ [] ∧ ∀ d ∈ digits, d.isDigit = true := by
  rw [eq_comm, ← splits_iff]
  constructor
  · rintro ⟨hspelling, hdigits, -⟩
    exact ⟨by simpa using hspelling.symm, hdigits digits (by simp)⟩
  · rintro ⟨rfl, hne, hdigits⟩
    refine ⟨by simp, ?_, .singleton _⟩
    intro other hmem
    cases List.mem_singleton.mp hmem
    exact ⟨hne, hdigits⟩

/-! Meanings. -/

theorem denoted?_eq_placed? (values : List Value) (digits : List Char) :
    denoted? values digits = placed? values digits := by
  rw [denoted?, place?, placed?, valueAt?]
  cases Nat.ofDigitChars 10 digits 0 with
  | zero => rfl
  | succ n =>
    by_cases h : n + 1 < 1 <<< 64
    · simp only [if_pos h, if_pos (And.intro (Nat.le_add_left 1 n) h), Option.bind_some,
        Nat.add_sub_cancel]
    · simp only [if_neg h, if_neg fun hboth : 1 ≤ n + 1 ∧ _ => h hboth.2, Option.bind_none]

theorem expand_eq (values : List Value) (cs : List Char) :
    expand values cs = (split cs).flatMap (Part.text values) := by
  fun_induction split cs with
  | case1 => simp [expand]
  | case2 c rest h ih =>
    rw [expand, if_pos h, ih, denoted?_eq_placed?]
    rfl
  | case3 c rest h ih =>
    rw [expand, if_neg h, ih]
    rfl

theorem meaning_of_ne {parts : List Part} (h : ∀ digits, parts ≠ [.placeholder digits])
    (values : List Value) :
    meaning values parts =
      match parts.flatMap (Part.text values) with
      | [] => none
      | text => some (stringLiteral (String.ofList text)) := by
  unfold meaning
  split
  · next digits => exact (h digits rfl).elim
  · rfl

theorem exactPlace?_eq_none {cs : List Char} (h : ∀ digits, split cs ≠ [.placeholder digits]) :
    exactPlace? cs = none := by
  unfold exactPlace?
  split
  · next digits =>
    rw [if_neg]
    rintro ⟨hne, hdigits⟩
    exact h digits (split_eq_placeholder_iff.mpr ⟨rfl, hne, List.all_eq_true.mp hdigits⟩)
  · rfl

/-- A template gives what its parts mean, and it has only one split into parts. -/
theorem apply_eq_meaning (values : List Value) (template : String) :
    (∀ parts, Splits parts template.toList ↔ parts = split template.toList) ∧
      apply values template = meaning values (split template.toList) := by
  refine ⟨fun parts => splits_iff, ?_⟩
  rw [apply, expand_eq]
  by_cases hone : ∃ digits, split template.toList = [.placeholder digits]
  · obtain ⟨digits, hsplit⟩ := hone
    obtain ⟨htemplate, hne, hdigits⟩ := split_eq_placeholder_iff.mp hsplit
    have hexact : exactPlace? template.toList = place? digits := by
      rw [htemplate, exactPlace?, if_pos ⟨hne, List.all_eq_true.mpr hdigits⟩]
    have hplaced : placed? values digits = (place? digits).bind (values[·]?) :=
      (denoted?_eq_placed? values digits).symm
    -- A placeholder without a place goes the way of longer templates, and ends up empty there.
    cases hplace : place? digits with
    | none => simp [hexact, hplace, hsplit, meaning, hplaced, Part.text]
    | some place => simp [hexact, hplace, hsplit, meaning, hplaced]
  · rw [not_exists] at hone
    rw [exactPlace?_eq_none hone]
    exact (meaning_of_ne hone values).symm

/-- Digits are taken as far as they go, and a dollar sign without digits is a character. -/
example : split "$1x$02$$9a$".toList =
    [.placeholder ['1'], .char 'x', .placeholder ['0', '2'], .char '$', .placeholder ['9'],
      .char 'a', .char '$'] := by
  cbv

end ValidatorGen.Template

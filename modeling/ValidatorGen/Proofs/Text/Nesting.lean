import ValidatorGen.Proofs.Text.Quoted
import ValidatorGen.Proofs.Text.Uppercase

/-! Nesting of source text. A scan from left to right passes over double-quoted literals with their
backslash escapes and keeps the closing brackets that it awaits. A text is well nested if the scan
ends outside of literals with nothing awaited; such texts stay so side by side and in brackets. -/
namespace ValidatorGen.Text

inductive Region
  | code
  | literal
  /-- Directly after a backslash in a literal. -/
  | escape
  deriving DecidableEq, Repr

structure Scan where
  region : Region := .code
  /-- The closing brackets of all groups that are open, innermost first. -/
  awaited : List Char := []
  deriving DecidableEq, Repr

/-- The bracket that closes what another one opens. -/
def closing? : Char → Option Char
  | '(' => some ')'
  | '[' => some ']'
  | '\x7b' => some '\x7d'
  | _ => none

def isClosing (c : Char) : Bool :=
  c == ')' || c == ']' || c == '\x7d'

namespace Scan

/-- One character of code; none for a closing bracket that is not awaited. -/
def stepCode (awaited : List Char) (c : Char) : Option Scan :=
  if c = '"' then some ⟨.literal, awaited⟩
  else
    match closing? c with
    | some closing => some ⟨.code, closing :: awaited⟩
    | none =>
      if isClosing c then
        match awaited with
        | [] => none
        | next :: rest => if c = next then some ⟨.code, rest⟩ else none
      else some ⟨.code, awaited⟩

def step (s : Scan) (c : Char) : Option Scan :=
  match s.region with
  | .code => stepCode s.awaited c
  | .literal =>
    some ⟨if c = '"' then .code else if c = '\\' then .escape else .literal, s.awaited⟩
  | .escape => some ⟨.literal, s.awaited⟩

def run (s : Scan) (cs : List Char) : Option Scan :=
  cs.foldlM step s

@[simp] theorem run_nil (s : Scan) : s.run [] = some s := rfl

@[simp] theorem run_cons (s : Scan) (c : Char) (cs : List Char) :
    s.run (c :: cs) = (s.step c).bind (·.run cs) := rfl

theorem run_append (s : Scan) (cs ds : List Char) :
    s.run (cs ++ ds) = (s.run cs).bind (·.run ds) :=
  List.foldlM_append

theorem stepCode_frame {awaited : List Char} {c : Char} {t : Scan}
    (h : stepCode awaited c = some t) (around : List Char) :
    stepCode (awaited ++ around) c = some ⟨t.region, t.awaited ++ around⟩ := by
  unfold stepCode at h ⊢
  by_cases hquote : c = '"'
  · rw [if_pos hquote] at h ⊢
    cases h
    rfl
  rw [if_neg hquote] at h ⊢
  cases hopen : closing? c with
  | some closing =>
    simp only [hopen] at h ⊢
    cases h
    rfl
  | none =>
    simp only [hopen] at h ⊢
    by_cases hclose : isClosing c = true
    · rw [if_pos hclose] at h ⊢
      -- the group that is closed was opened inside, so those around it are not looked at
      cases awaited with
      | nil => cases h
      | cons next rest =>
        simp only [List.cons_append] at h ⊢
        by_cases hnext : c = next
        · rw [if_pos hnext] at h ⊢
          cases h
          rfl
        · rw [if_neg hnext] at h
          cases h
    · rw [if_neg hclose] at h ⊢
      cases h
      rfl

/-- Further groups around a text do not change how it is scanned. -/
theorem step_frame {s t : Scan} {c : Char} (h : s.step c = some t) (around : List Char) :
    step ⟨s.region, s.awaited ++ around⟩ c = some ⟨t.region, t.awaited ++ around⟩ := by
  obtain ⟨region, awaited⟩ := s
  cases region with
  | code => exact stepCode_frame h around
  | literal =>
    cases h
    rfl
  | escape =>
    cases h
    rfl

theorem run_frame {s t : Scan} {cs : List Char} (h : s.run cs = some t) (around : List Char) :
    run ⟨s.region, s.awaited ++ around⟩ cs = some ⟨t.region, t.awaited ++ around⟩ := by
  induction cs generalizing s with
  | nil =>
    cases h
    rfl
  | cons c cs ih =>
    obtain ⟨next, hstep, hrun⟩ := Option.bind_eq_some_iff.mp h
    rw [run_cons, step_frame hstep around]
    exact ih hrun

end Scan

/-- Scanned from left to right, the text ends outside of literals, and its brackets are properly
nested. -/
def WellNested (s : String) : Prop :=
  Scan.run {} s.toList = some {}

instance : DecidablePred WellNested :=
  fun s => inferInstanceAs (Decidable (Scan.run {} s.toList = some {}))

example : WellNested "f(\"]\\\"(\")" ∧ ¬ WellNested "f(\"\\\")" ∧ ¬ WellNested "f([)]" := by
  decide

namespace WellNested

theorem run {s : String} (h : WellNested s) (awaited : List Char) :
    Scan.run ⟨.code, awaited⟩ s.toList = some ⟨.code, awaited⟩ :=
  Scan.run_frame h awaited

theorem append {s t : String} (hs : WellNested s) (ht : WellNested t) : WellNested (s ++ t) := by
  unfold WellNested at hs ht ⊢
  rw [String.toList_append, Scan.run_append, hs]
  exact ht

/-- What one text opens and another one closes may stand around a well-nested text. -/
theorem enclose {expr : String} (h : WellNested expr) {front back : String} (awaited : List Char)
    (hfront : Scan.run {} front.toList = some ⟨.code, awaited⟩)
    (hback : Scan.run ⟨.code, awaited⟩ back.toList = some {}) :
    WellNested (front ++ expr ++ back) := by
  unfold WellNested
  rw [String.toList_append, String.toList_append, Scan.run_append, Scan.run_append, hfront,
    Option.bind_some, h.run awaited, Option.bind_some, hback]

end WellNested

theorem wellNested_join {texts : List String} (h : ∀ text ∈ texts, WellNested text) :
    WellNested (String.join texts) :=
  join_of_append (by decide) WellNested.append h

theorem wellNested_intercalate {sep : String} (hsep : WellNested sep) {texts : List String}
    (h : ∀ text ∈ texts, WellNested text) : WellNested (sep.intercalate texts) :=
  intercalate_of_append (by decide) WellNested.append hsep h

/-! Texts without quotes and brackets. -/

def delimiters : List Char :=
  ['"', '(', ')', '[', ']', '\x7b', '\x7d']

/-- The text has no double quote and no bracket. -/
def Undelimited (s : String) : Prop :=
  ∀ c ∈ s.toList, c ∉ delimiters

instance : DecidablePred Undelimited :=
  fun s => List.decidableBAll (· ∉ delimiters) s.toList

theorem Scan.stepCode_of_not_mem {c : Char} (h : c ∉ delimiters) (awaited : List Char) :
    stepCode awaited c = some ⟨.code, awaited⟩ := by
  have hne : ∀ d ∈ delimiters, c ≠ d := fun d hd heq => h (heq ▸ hd)
  simp only [delimiters, List.forall_mem_cons] at hne
  obtain ⟨hquote, hround, hround', hsquare, hsquare', hbrace, hbrace', -⟩ := hne
  have hclosing : closing? c = none := by
    unfold closing?
    split <;> first | contradiction | rfl
  have hclose : isClosing c = false := by
    simp [isClosing, hround', hsquare', hbrace']
  simp [stepCode, hquote, hclosing, hclose]

namespace Undelimited

theorem append {s t : String} (hs : Undelimited s) (ht : Undelimited t) :
    Undelimited (s ++ t) := by
  intro c hc
  rw [String.toList_append] at hc
  exact (List.mem_append.mp hc).elim (hs c) (ht c)

theorem wellNested {s : String} (h : Undelimited s) : WellNested s := by
  unfold Undelimited at h
  unfold WellNested
  generalize s.toList = cs at h
  induction cs with
  | nil => rfl
  | cons c cs ih =>
    obtain ⟨hc, hcs⟩ := List.forall_mem_cons.mp h
    have hstep : Scan.step {} c = some {} := Scan.stepCode_of_not_mem hc []
    rw [Scan.run_cons, hstep]
    exact ih hcs

/-- Upper case has no brackets. -/
theorem capitalize {name : String} (h : Undelimited name) : Undelimited (capitalize name) := by
  have hdelimiters : ∀ c ∈ delimiters, c.isUpper = false ∧ c.toNat < 0x80 := by
    simp [delimiters]
  intro c hc hmem
  obtain ⟨hnot, hascii⟩ := hdelimiters c hmem
  rcases mem_capitalize hc with hname | hupper | hcode
  · exact h c hname hmem
  · rw [hnot] at hupper
    cases hupper
  · omega

end Undelimited

/-! Quoted literals. -/

namespace Quoted

/-- However a character is escaped, it does not end the literal. -/
theorem run_escape (c : Char) (awaited : List Char) :
    Scan.run ⟨.literal, awaited⟩ (escape c) = some ⟨.literal, awaited⟩ := by
  by_cases hshort : c ∈ shortEscaped
  · obtain ⟨e, hescape, -, -⟩ := exists_escape_eq_short hshort
    rw [hescape]
    rfl
  rw [escape_of_not_mem hshort]
  split
  · next hcontrol =>
    -- the backslash takes the letter with it, and hexadecimal digits are plain
    have hunits : ∀ n < 0x20, Scan.run ⟨.literal, []⟩
        ['\\', 'u', '0', '0', hexDigit (n / 16), hexDigit (n % 16)] = some ⟨.literal, []⟩ := by
      decide
    exact Scan.run_frame (hunits c.toNat hcontrol) awaited
  · have hquote : c ≠ '"' := by
      rintro rfl
      exact hshort (by decide)
    have hslash : c ≠ '\\' := by
      rintro rfl
      exact hshort (by decide)
    simp [Scan.step, hquote, hslash]

theorem run_flatMap_escape (cs awaited : List Char) :
    Scan.run ⟨.literal, awaited⟩ (cs.flatMap escape) = some ⟨.literal, awaited⟩ := by
  induction cs with
  | nil => rfl
  | cons c cs ih =>
    rw [List.flatMap_cons, Scan.run_append, run_escape]
    exact ih

/-- A quoted text is one literal, whatever the text. -/
theorem wellNested_encode (s : String) : WellNested (encode s) := by
  have hopen : Scan.step {} '"' = some ⟨.literal, []⟩ := rfl
  unfold WellNested
  rw [encode, String.toList_ofList, encodeChars, Scan.run_cons, hopen, Option.bind_some,
    Scan.run_append, run_flatMap_escape]
  rfl

end Quoted

end ValidatorGen.Text

import ValidatorGen.Proofs.Json.Printer
import ValidatorGen.Validator.Template

/-! Arguments that are regular expressions. The last slash tells the pattern from the flags, no other
argument begins with a slash, and the pattern decides whether a regular expression opens a comment
or ends the line that it stands on. -/
namespace ValidatorGen.Template

open ValidatorGen.Json (Value)

/-- The text is this pattern between slashes, then these flags. -/
structure IsLiteral (pattern flags cs : List Char) : Prop where
  text : cs = '/' :: (pattern ++ '/' :: flags)
  pattern : pattern ≠ []
  flags : ∀ c ∈ flags, isFlag c = true
  line : '\n' ∉ cs

def OpensComment (cs : List Char) : Prop :=
  ['/', '/'] <+: cs ∨ ['/', '*'] <+: cs

instance (cs : List Char) : Decidable (OpensComment cs) :=
  inferInstanceAs (Decidable (_ ∨ _))

/-- The characters that end a line of the generated file. -/
def lineTerminators : List Char :=
  ['\n', '\r', '\u2028', '\u2029']

/-- The text opens no comment and ends no line. -/
structure StaysInLine (cs : List Char) : Prop where
  comment : ¬ OpensComment cs
  line : ∀ c ∈ lineTerminators, c ∉ cs

theorem not_mem_flags {flags : List Char} (h : ∀ c ∈ flags, isFlag c = true) {c : Char}
    (hc : isFlag c = false) : c ∉ flags := by
  intro hmem
  have htrue := h c hmem
  rw [hc] at htrue
  cases htrue

/-! Read from its end, a literal shows its flags up to the first slash. -/

theorem bne_slash_of_mem_reverse {flags : List Char} (h : ∀ c ∈ flags, isFlag c = true) :
    ∀ c ∈ flags.reverse, (c != '/') = true := by
  intro c hc
  have hslash : '/' ∉ flags := not_mem_flags h (by decide)
  exact bne_iff_ne.mpr (ne_of_mem_of_not_mem (List.mem_reverse.mp hc) hslash)

theorem takeWhile_reverse_append_slash {flags : List Char} (h : ∀ c ∈ flags, isFlag c = true)
    (pattern : List Char) :
    (pattern ++ '/' :: flags).reverse.takeWhile (· != '/') = flags.reverse := by
  rw [List.reverse_append, List.reverse_cons, List.append_assoc,
    List.takeWhile_append_of_pos (bne_slash_of_mem_reverse h)]
  simp

theorem dropWhile_reverse_append_slash {flags : List Char} (h : ∀ c ∈ flags, isFlag c = true)
    (pattern : List Char) :
    (pattern ++ '/' :: flags).reverse.dropWhile (· != '/') = '/' :: pattern.reverse := by
  rw [List.reverse_append, List.reverse_cons, List.append_assoc,
    List.dropWhile_append_of_pos (bne_slash_of_mem_reverse h)]
  simp

/-- Slashes inside the patterns do not matter, since the flags are what follows the last one. -/
theorem append_slash_inj {pattern flags other others : List Char}
    (hflags : ∀ c ∈ flags, isFlag c = true) (hothers : ∀ c ∈ others, isFlag c = true)
    (h : pattern ++ '/' :: flags = other ++ '/' :: others) :
    pattern = other ∧ flags = others := by
  have hreverse : flags.reverse = others.reverse := by
    rw [← takeWhile_reverse_append_slash hflags pattern, h,
      takeWhile_reverse_append_slash hothers other]
  obtain rfl := List.reverse_inj.mp hreverse
  exact ⟨List.append_cancel_right h, rfl⟩

/-- The last slash separates pattern and flags, since no flag is a slash. -/
theorem isRegex_iff {cs : List Char} :
    isRegex cs = true ↔ ∃ pattern flags, IsLiteral pattern flags cs := by
  constructor
  · intro h
    unfold isRegex at h
    split at h
    · next body =>
      split at h
      · next pattern hdrop =>
        simp only [Bool.and_eq_true, Bool.not_eq_true', List.isEmpty_eq_false_iff,
          List.contains_eq_mem, decide_eq_false_iff_not, List.all_eq_true] at h
        obtain ⟨⟨hpattern, hline⟩, hflags⟩ := h
        have hbody := List.takeWhile_append_dropWhile (p := (· != '/')) (l := body.reverse)
        rw [hdrop] at hbody
        generalize body.reverse.takeWhile (· != '/') = flags at hbody hflags
        refine ⟨pattern.reverse, flags.reverse, ?_, ?_, ?_, hline⟩
        · rw [← List.reverse_reverse body, ← hbody]
          simp
        · exact mt List.reverse_eq_nil_iff.mp hpattern
        · intro c hc
          exact hflags c (List.mem_reverse.mp hc)
      · cases h
    · cases h
  · rintro ⟨pattern, flags, rfl, hpattern, hflags, hline⟩
    simp only [isRegex, takeWhile_reverse_append_slash hflags,
      dropWhile_reverse_append_slash hflags]
    simpa [hpattern] using ⟨by simpa using hline, hflags⟩

/-- The pattern between slashes and then the flags make up the text, on however many lines. -/
structure Slashed (pattern flags text : String) : Prop where
  text : text = "/" ++ pattern ++ "/" ++ flags
  pattern : pattern ≠ ""
  flags : ∀ c ∈ flags.toList, c ∈ "dgimsuy".toList

theorem isFlag_iff {c : Char} : isFlag c = true ↔ c ∈ "dgimsuy".toList :=
  List.contains_iff_mem

/-- A literal is a slashed text on one line. -/
theorem isLiteral_toList_iff {pattern flags text : String} :
    IsLiteral pattern.toList flags.toList text.toList ↔
      '\n' ∉ text.toList ∧ Slashed pattern flags text := by
  have htext : text.toList = '/' :: (pattern.toList ++ '/' :: flags.toList) ↔
      text = "/" ++ pattern ++ "/" ++ flags := by
    rw [← String.toList_inj]
    simp
  have hpattern : pattern.toList ≠ [] ↔ pattern ≠ "" :=
    not_congr String.toList_eq_nil_iff
  constructor
  · intro h
    exact ⟨h.line, htext.mp h.text, hpattern.mp h.pattern,
      fun c hc => isFlag_iff.mp (h.flags c hc)⟩
  · rintro ⟨hline, hslashed⟩
    exact ⟨htext.mpr hslashed.text, hpattern.mpr hslashed.pattern,
      fun c hc => isFlag_iff.mpr (hslashed.flags c hc), hline⟩

theorem Slashed.inj {pattern flags other others text : String} (h : Slashed pattern flags text)
    (hother : Slashed other others text) : pattern = other ∧ flags = others := by
  have htexts := congrArg String.toList (h.text.symm.trans hother.text)
  simp only [String.toList_append, List.append_assoc] at htexts
  have hbodies := List.append_cancel_left htexts
  obtain ⟨hpattern, hflags⟩ := append_slash_inj (fun c hc => isFlag_iff.mpr (h.flags c hc))
    (fun c hc => isFlag_iff.mpr (hother.flags c hc)) hbodies
  exact ⟨String.toList_inj.mp hpattern, String.toList_inj.mp hflags⟩

/-- A text is a regular expression exactly when it is slashed and has no line feed. Its pattern may
have slashes of its own, and still there is one way only to tell it from the flags. -/
theorem isRegex_iff_slashed (text : String) :
    (isRegex text.toList = true ↔
      '\n' ∉ text.toList ∧ ∃ pattern flags, Slashed pattern flags text) ∧
    ∀ pattern flags other others, Slashed pattern flags text → Slashed other others text →
      pattern = other ∧ flags = others := by
  refine ⟨?_, fun _ _ _ _ h hother => h.inj hother⟩
  rw [isRegex_iff]
  constructor
  · rintro ⟨pattern, flags, h⟩
    rw [← String.toList_ofList (l := pattern), ← String.toList_ofList (l := flags)] at h
    obtain ⟨hline, hslashed⟩ := isLiteral_toList_iff.mp h
    exact ⟨hline, _, _, hslashed⟩
  · rintro ⟨hline, pattern, flags, hslashed⟩
    exact ⟨_, _, isLiteral_toList_iff.mpr ⟨hline, hslashed⟩⟩

theorem isRegex_iff_slashed_path :
    isRegex "/é/b/gi".toList = true ∧ Slashed "é/b" "gi" "/é/b/gi" ∧
      ∀ pattern flags, Slashed pattern flags "/é/b/gi" → pattern = "é/b" ∧ flags = "gi" := by
  have hslashed : Slashed "é/b" "gi" "/é/b/gi" := ⟨by decide, by decide, by simp⟩
  obtain ⟨hiff, hunique⟩ := isRegex_iff_slashed "/é/b/gi"
  have hregex := hiff.mpr ⟨by decide, _, _, hslashed⟩
  exact ⟨hregex, hslashed, fun _ _ h => hunique _ _ _ _ h hslashed⟩

/-- Two slashes with nothing between them are no regular expression. -/
example : isRegex "//g".toList = false := by decide

theorem head?_of_isRegex {cs : List Char} (h : isRegex cs = true) : cs.head? = some '/' := by
  obtain ⟨pattern, flags, hliteral⟩ := isRegex_iff.mp h
  rw [hliteral.text]
  rfl

namespace IsLiteral

variable {pattern flags cs : List Char}

theorem opensComment_iff (h : IsLiteral pattern flags cs) :
    OpensComment cs ↔ ∃ c ∈ pattern.head?, c = '/' ∨ c = '*' := by
  obtain ⟨c, rest, rfl⟩ := List.exists_cons_of_ne_nil h.pattern
  rw [h.text]
  simp [OpensComment, eq_comm]

/-- Neither a slash nor a flag ends a line. -/
theorem mem_iff (h : IsLiteral pattern flags cs) {c : Char} (hc : c ∈ lineTerminators) :
    c ∈ cs ↔ c ∈ pattern := by
  have hall : (lineTerminators.all fun c => c != '/' && !isFlag c) = true := by decide
  have hother : c ≠ '/' ∧ isFlag c = false := by simpa using List.all_eq_true.mp hall c hc
  have hflags : c ∉ flags := not_mem_flags h.flags hother.2
  rw [h.text]
  simp [hother.1, hflags]

/-- Line feeds are excluded in any pattern, the other line terminators are not. -/
theorem staysInLine_iff (h : IsLiteral pattern flags cs) :
    StaysInLine cs ↔
      (∀ c ∈ pattern.head?, c ≠ '/' ∧ c ≠ '*') ∧
        ∀ c ∈ ['\r', '\u2028', '\u2029'], c ∉ pattern := by
  constructor
  · intro hstays
    refine ⟨?_, fun c hc => ?_⟩
    · simpa [h.opensComment_iff] using hstays.comment
    · have hmem : c ∈ lineTerminators := List.mem_cons_of_mem '\n' hc
      rw [← h.mem_iff hmem]
      exact hstays.line c hmem
  · rintro ⟨hhead, hpattern⟩
    refine ⟨?_, fun c hc => ?_⟩
    · simpa [h.opensComment_iff] using hhead
    · rcases List.mem_cons.mp hc with rfl | hother
      · exact h.line
      · rw [h.mem_iff hc]
        exact hpattern c hother

end IsLiteral

/-! What arguments are written as: regular expressions as they are, all else as the text of a
value. -/

theorem isRegex_or_eq_render_stringLiteral (s : String) :
    isRegex (stringLiteral s).toList = true ∨ ∃ value : Value, stringLiteral s = value.render := by
  rw [stringLiteral]
  split
  · next h => exact .inl h
  · exact .inr ⟨.string s, rfl⟩

theorem isRegex_or_eq_render_literal (value : Value) :
    isRegex (literal value).toList = true ∨ ∃ other : Value, literal value = other.render := by
  cases value with
  | string s => exact isRegex_or_eq_render_stringLiteral s
  | _ => exact .inr ⟨_, rfl⟩

theorem isRegex_or_eq_render_apply {values : List Value} {template arg : String}
    (h : apply values template = some arg) :
    isRegex arg.toList = true ∨ ∃ value : Value, arg = value.render := by
  rw [apply] at h
  split at h
  · obtain ⟨value, -, rfl⟩ := Option.map_eq_some_iff.mp h
    exact isRegex_or_eq_render_literal value
  · split at h
    · cases h
    · cases h
      exact isRegex_or_eq_render_stringLiteral _

theorem head?_ne_slash_of_numeric {cs : List Char} (h : Decimal.Numeric cs) :
    cs.head? ≠ some '/' := by
  intro hhead
  have hslash := h '/' (List.mem_of_mem_head? hhead)
  revert hslash
  decide

theorem head?_render_ne_slash (v : Value) : v.render.toList.head? ≠ some '/' := by
  cases v with
  | null => decide
  | bool b => cases b <;> decide
  | integer n => exact head?_ne_slash_of_numeric (Json.numeric_toString n)
  | float x => exact head?_ne_slash_of_numeric (Decimal.numeric_text x)
  | string s => simp [Value.render, Text.Quoted.encode, Text.Quoted.encodeChars]
  | array items => simp [Value.render]
  | object members => simp [Value.render]

theorem head?_eq_slash_iff {values : List Value} {template arg : String}
    (h : apply values template = some arg) :
    arg.toList.head? = some '/' ↔ isRegex arg.toList = true := by
  constructor
  · intro hhead
    rcases isRegex_or_eq_render_apply h with hregex | ⟨value, rfl⟩
    · exact hregex
    · exact (head?_render_ne_slash value hhead).elim
  · exact head?_of_isRegex

/-- The arguments that begin with a slash are the regular expressions. One of them stays in its line
exactly when its pattern begins with neither a slash nor a star and holds no line terminator. -/
theorem apply_staysInLine_iff {values : List Value} {template arg : String}
    (h : apply values template = some arg) :
    (arg.toList.head? = some '/' ↔ ∃ pattern flags, IsLiteral pattern flags arg.toList) ∧
      ∀ pattern flags, IsLiteral pattern flags arg.toList →
        (StaysInLine arg.toList ↔
          (∀ c ∈ pattern.head?, c ≠ '/' ∧ c ≠ '*') ∧
            ∀ c ∈ ['\r', '\u2028', '\u2029'], c ∉ pattern) := by
  constructor
  · rw [head?_eq_slash_iff h, isRegex_iff]
  · intro pattern flags hliteral
    exact hliteral.staysInLine_iff

theorem apply_staysInLine_iff_caret :
    apply [.string "^foo"] "/$1/i" = some "/^foo/i" ∧ StaysInLine "/^foo/i".toList := by
  have happly : apply [.string "^foo"] "/$1/i" = some "/^foo/i" := by decide +kernel
  have hliteral : IsLiteral "^foo".toList ['i'] "/^foo/i".toList :=
    ⟨rfl, by decide, List.forall_mem_singleton.mpr (by decide), by decide⟩
  have hpattern : (∀ c ∈ "^foo".toList.head?, c ≠ '/' ∧ c ≠ '*') ∧
      ∀ c ∈ ['\r', '\u2028', '\u2029'], c ∉ "^foo".toList := by
    simp
  exact ⟨happly, ((apply_staysInLine_iff happly).2 _ _ hliteral).mpr hpattern⟩

/-- Patterns that begin with a slash are not excluded. -/
theorem not_forall_apply_staysInLine :
    ¬ ∀ values template arg, apply values template = some arg → isRegex arg.toList = true →
      StaysInLine arg.toList := by
  intro h
  have happly : apply [.string "//a/"] "$1" = some "//a/" := rfl
  have hcomment : OpensComment "//a/".toList := by decide
  exact (h _ _ _ happly (by decide)).comment hcomment

end ValidatorGen.Template

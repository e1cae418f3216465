import ValidatorGen.Proofs.Json.RoundTrip
import ValidatorGen.Proofs.Validator.Patterns
import ValidatorGen.Proofs.Validator.Placeholders

/-! What arguments say. A value without doubles can be recovered from the argument that it gives: from
a regular expression as the text itself, from any other argument by reading it as JSON. -/
namespace ValidatorGen.Template

open ValidatorGen.Json (Value)

/-- A placeholder on its own gives the value that it stands for as a literal. -/
theorem apply_placeholder (values : List Value) {digits : List Char} (hne : digits ≠ [])
    (hdigits : ∀ d ∈ digits, d.isDigit = true) :
    apply values (String.ofList ('$' :: digits)) = (placed? values digits).map literal := by
  have hexact : exactPlace? ('$' :: digits) = place? digits :=
    if_pos ⟨hne, List.all_eq_true.mpr hdigits⟩
  rw [apply, String.toList_ofList, hexact, ← denoted?_eq_placed?, denoted?]
  cases hplace : place? digits with
  | some place => rfl
  | none =>
    have hsplit := split_eq_placeholder_iff.mpr ⟨rfl, hne, hdigits⟩
    have hplaced : placed? values digits = none := by
      rw [← denoted?_eq_placed?, denoted?, hplace, Option.bind_none]
    simp [expand_eq, hsplit, Part.text, hplaced]

/-- Other templates give a string literal of their text, if there is any. -/
theorem apply_of_text {values : List Value} {template : String} {text : List Char}
    (hparts : ∀ digits, split template.toList ≠ [.placeholder digits])
    (htext : (split template.toList).flatMap (Part.text values) = text) (hne : text ≠ []) :
    apply values template = some (stringLiteral (String.ofList text)) := by
  obtain ⟨c, cs, rfl⟩ := List.exists_cons_of_ne_nil hne
  rw [apply, exactPlace?_eq_none hparts, expand_eq, htext]

theorem stringLiteral_of_isRegex {s : String} (h : isRegex s.toList = true) :
    stringLiteral s = s :=
  if_pos h

theorem stringLiteral_of_not_isRegex {s : String} (h : ¬ isRegex s.toList = true) :
    stringLiteral s = (Value.string s).render :=
  if_neg h

theorem eq_string_of_head?_literal {v : Value} (h : (literal v).toList.head? = some '/') :
    v = .string (literal v) := by
  cases v with
  | string s =>
    by_cases hregex : isRegex s.toList = true
    · rw [literal, stringLiteral_of_isRegex hregex]
    · rw [literal, stringLiteral_of_not_isRegex hregex] at h
      exact (head?_render_ne_slash _ h).elim
  | _ => exact (head?_render_ne_slash _ h).elim

theorem literal_eq_render {v : Value} (h : (literal v).toList.head? ≠ some '/') :
    literal v = v.render := by
  cases v with
  | string s =>
    refine stringLiteral_of_not_isRegex fun hregex => h ?_
    rw [literal, stringLiteral_of_isRegex hregex]
    exact head?_of_isRegex hregex
  | _ => rfl

theorem literal_inj {v w : Value} (hv : v.Exact) (hw : w.Exact) (h : literal v = literal w) :
    v = w := by
  by_cases hslash : (literal v).toList.head? = some '/'
  · rw [eq_string_of_head?_literal hslash, h]
    exact (eq_string_of_head?_literal (h ▸ hslash)).symm
  · refine Value.render_inj hv hw ?_
    rw [← literal_eq_render hslash, h, literal_eq_render (h ▸ hslash)]

theorem writtenAs_stringLiteral {s : String} (h : ¬ isRegex s.toList = true) :
    (Value.string s).WrittenAs (stringLiteral s) := by
  rw [stringLiteral_of_not_isRegex h]
  exact Value.writtenAs_render trivial trivial

/-- A placeholder gives different arguments for different values, and each of them gives its value
back. Any other template gives its text, where that is a regular expression, or else a string literal
that says exactly this text. -/
theorem arguments_read_back (values : List Value) :
    (∀ digits, digits ≠ [] → (∀ d ∈ digits, d.isDigit = true) →
      apply values (String.ofList ('$' :: digits)) = (placed? values digits).map literal) ∧
    (∀ v w : Value, v.Exact → w.Exact → literal v = literal w → v = w) ∧
    (∀ v : Value, v.Exact → v.Ordered →
      ((literal v).toList.head? = some '/' → v = .string (literal v)) ∧
      ((literal v).toList.head? ≠ some '/' → v.WrittenAs (literal v))) ∧
    (∀ (template : String) (text : List Char),
      (∀ digits, split template.toList ≠ [.placeholder digits]) →
      (split template.toList).flatMap (Part.text values) = text → text ≠ [] →
      ∃ arg, apply values template = some arg ∧
        ((∃ pattern flags, IsLiteral pattern flags text) ∧ arg = String.ofList text ∨
          (¬ ∃ pattern flags, IsLiteral pattern flags text) ∧ arg.toList.head? = some '"' ∧
            (Value.string (String.ofList text)).WrittenAs arg)) := by
  refine ⟨fun digits => apply_placeholder values, fun v w => literal_inj, ?_, ?_⟩
  · intro v hv ho
    refine ⟨eq_string_of_head?_literal, fun hslash => ?_⟩
    rw [literal_eq_render hslash]
    exact Value.writtenAs_render hv ho
  · intro template text hparts htext hne
    refine ⟨_, apply_of_text hparts htext hne, ?_⟩
    have htoList : (String.ofList text).toList = text := String.toList_ofList
    by_cases hregex : isRegex text = true
    · exact .inl ⟨isRegex_iff.mp hregex, stringLiteral_of_isRegex (htoList.symm ▸ hregex)⟩
    · have hquoted : ¬ isRegex (String.ofList text).toList = true := htoList.symm ▸ hregex
      refine .inr ⟨mt isRegex_iff.mpr hregex, ?_, writtenAs_stringLiteral hquoted⟩
      rw [stringLiteral_of_not_isRegex hquoted, Value.render, Value.toList_encode]
      rfl

/-- A text that looks like another value, and a template around a value. -/
theorem arguments_read_back_true :
    let values : List Value := [.string "true", .bool true]
    apply values "$1" ≠ apply values "$2" ∧
      (∃ arg, apply values "$1" = some arg ∧ (Value.string "true").WrittenAs arg) ∧
      ∃ arg, apply values "=$2" = some arg ∧ (Value.string "=true").WrittenAs arg := by
  intro values
  obtain ⟨hone, hinj, hback, hmixed⟩ := arguments_read_back values
  have hfirst : apply values "$1" = some (literal (.string "true")) :=
    hone ['1'] (by simp) (by simp)
  have hsecond : apply values "$2" = some (literal (.bool true)) :=
    hone ['2'] (by simp) (by simp)
  refine ⟨fun heq => ?_, ⟨_, hfirst, ?_⟩, ?_⟩
  · rw [hfirst, hsecond] at heq
    cases hinj (.string "true") (.bool true) trivial trivial (Option.some.inj heq)
  · exact (hback (.string "true") trivial trivial).2 (by decide)
  · have hsplit : split "=$2".toList = [.char '=', .placeholder ['2']] := by decide +kernel
    have hparts : ∀ digits, split "=$2".toList ≠ [.placeholder digits] := by
      intro digits heq
      rw [hsplit] at heq
      cases heq
    have htext : (split "=$2".toList).flatMap (Part.text [.string "true", .bool true]) =
        "=true".toList := by
      decide +kernel
    obtain ⟨arg, harg, hcases⟩ := hmixed "=$2" "=true".toList hparts htext (by decide)
    refine ⟨arg, harg, ?_⟩
    rcases hcases with ⟨⟨pattern, flags, hliteral⟩, -⟩ | ⟨-, -, hwritten⟩
    · cases hliteral.text
    · exact hwritten

end ValidatorGen.Template

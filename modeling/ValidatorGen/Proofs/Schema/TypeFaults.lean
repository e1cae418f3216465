import ValidatorGen.Proofs.Schema.TypeText

/-! Faults of type references. What is reported is the fault of the outermost level and the whole
text, wherever in the text and for whatever reason the reading of an inner level failed. -/
namespace ValidatorGen.TypeRef
open ValidatorGen.Text

theorem Fault.reason_injective : Function.Injective reason := by
  intro fault other h
  revert h
  cases fault <;> cases other <;> decide

/-- A list is opened, and neither a bracket nor a mark ends the text. -/
def Unterminated (cs : List Char) : Prop :=
  (trim cs).head? = some '[' ∧ (trim cs).getLast? ≠ some ']' ∧ (trim cs).getLast? ≠ some '!'

theorem getLast?_open_cons {c : Char} (hc : c ≠ '[') (rest : List Char) :
    ('[' :: rest).getLast? = some c ↔ rest.getLast? = some c := by
  cases rest with
  | nil => simpa using hc.symm
  | cons d rest => rw [List.getLast?_cons_cons]

theorem unterminated_iff {cs : List Char} : Unterminated cs ↔
    ∃ rest, trim cs = '[' :: rest ∧ rest.getLast? ≠ some ']' ∧ rest.getLast? ≠ some '!' := by
  rw [Unterminated, List.head?_eq_some_iff]
  constructor
  · rintro ⟨⟨rest, hrest⟩, hclose, hbang⟩
    rw [hrest, Ne, getLast?_open_cons (by decide)] at hclose hbang
    exact ⟨rest, hrest, hclose, hbang⟩
  · rintro ⟨rest, hrest, hclose, hbang⟩
    rw [hrest, Ne, Ne, getLast?_open_cons (by decide), getLast?_open_cons (by decide)]
    exact ⟨⟨rest, rfl⟩, hclose, hbang⟩

theorem readName_eq_error {cs : List Char} {fault : Fault} (h : readName cs = .error fault) :
    fault = .missingName ∨ fault = .malformedName := by
  revert h
  fun_cases readName cs with
  | case1 => exact fun h => .inl (Except.error.inj h).symm
  | case2 => exact fun h => .inl (Except.error.inj h).symm
  | case3 => exact fun h => .inr (Except.error.inj h).symm
  | case4 => exact nofun

theorem wrap_eq_error {f : TypeRef → TypeRef} {outer fault : Fault} {r : Except Fault TypeRef}
    (h : wrap f outer r = .error fault) : fault = outer := by
  cases r with
  | ok t => cases h
  | error _ => exact (Except.error.inj h).symm

/-- What the fault of a text says of the text. -/
theorem readChars_eq_error {cs : List Char} {fault : Fault} (h : readChars cs = .error fault) :
    (∃ front after, AllBlank after ∧ cs = front ++ '!' :: after ∧
      fault = if (trim front).getLast? = some '!' then .repeatedNonNull else .malformedNonNull) ∨
    fault = .malformedElement ∨ (Unterminated cs ∧ fault = .unterminatedList) ∨
    fault = .missingName ∨ fault = .malformedName := by
  rcases readChars_cases cs with ⟨front, after, ha, rfl⟩ | ⟨before, middle, after, hb, ha, rfl⟩ |
    ⟨rest, hrest, hclose, hbang⟩ | ⟨hopen, hbang⟩
  · rw [readChars_bang front ha] at h
    refine .inl ⟨front, after, ha, rfl, ?_⟩
    split_ifs at h ⊢
    · exact (Except.error.inj h).symm
    · exact wrap_eq_error h
  · rw [readChars_brackets hb middle ha] at h
    exact .inr (.inl (wrap_eq_error h))
  · have hopen : Unterminated cs := unterminated_iff.mpr ⟨rest, hrest, hclose, hbang⟩
    rw [readChars_unterminated hrest hclose hbang] at h
    exact .inr (.inr (.inl ⟨hopen, (Except.error.inj h).symm⟩))
  · rw [readChars_name hopen hbang] at h
    exact .inr (.inr (.inr (readName_eq_error h)))

theorem readChars_eq_unterminatedList_iff {cs : List Char} :
    readChars cs = .error .unterminatedList ↔ Unterminated cs := by
  constructor
  · intro h
    rcases readChars_eq_error h with ⟨_, _, -, -, hfault⟩ | hfault | ⟨hopen, -⟩ | hfault | hfault
    · split_ifs at hfault
    · cases hfault
    · exact hopen
    · cases hfault
    · cases hfault
  · intro h
    obtain ⟨rest, hrest, hclose, hbang⟩ := unterminated_iff.mp h
    exact readChars_unterminated hrest hclose hbang

theorem readChars_eq_repeatedNonNull_iff {cs : List Char} :
    readChars cs = .error .repeatedNonNull ↔ ['!', '!'] <:+ withoutBlanks cs := by
  constructor
  · intro h
    rcases readChars_eq_error h with ⟨front, after, ha, hcs, hfault⟩ | hfault | ⟨-, hfault⟩ |
      hfault | hfault
    · split_ifs at hfault with hlast
      obtain ⟨inner, between, hb, hfront⟩ := (getLast?_trim_eq_some_iff rfl).mp hlast
      have hone : withoutBlanks front = withoutBlanks inner ++ ['!'] :=
        (withoutBlanks_eq_concat_iff rfl).mpr ⟨inner, between, hb, hfront, rfl⟩
      have htwo : withoutBlanks cs = withoutBlanks front ++ ['!'] :=
        (withoutBlanks_eq_concat_iff rfl).mpr ⟨front, after, ha, hcs, rfl⟩
      rw [htwo, hone, List.append_assoc]
      exact List.suffix_append _ _
    · cases hfault
    · cases hfault
    · cases hfault
    · cases hfault
  · rintro ⟨ds, hds⟩
    rw [List.append_cons] at hds
    obtain ⟨front, after, ha, rfl, hfront⟩ := (withoutBlanks_eq_concat_iff rfl).mp hds.symm
    obtain ⟨inner, between, hb, hinner, -⟩ := (withoutBlanks_eq_concat_iff rfl).mp hfront
    have hlast := (getLast?_trim_eq_some_iff rfl).mpr ⟨inner, between, hb, hinner⟩
    rw [readChars_bang front ha, if_pos hlast]

theorem read_eq_error_iff {input : String} {e : ReadError} :
    read input = .error e ↔ e.input = input ∧ readChars input.toList = .error e.fault := by
  obtain ⟨text, fault⟩ := e
  rw [read]
  cases readChars input.toList <;> simp [Except.mapError, eq_comm]

/-- Reading fails for this reason, and the error has the text as it was given. -/
def Reports (input reason : String) : Prop :=
  ∃ e, read input = .error e ∧ e.input = input ∧ e.fault.reason = reason

theorem reports_iff (input : String) (fault : Fault) :
    Reports input fault.reason ↔ readChars input.toList = .error fault := by
  constructor
  · rintro ⟨e, he, -, hreason⟩
    rw [← Fault.reason_injective hreason]
    exact (read_eq_error_iff.mp he).2
  · intro h
    exact ⟨⟨input, fault⟩, read_eq_error_iff.mpr ⟨rfl, h⟩, rfl, rfl⟩

/-- A text that cannot be read is reported as it was given. In brackets it is a malformed element,
and with a mark behind it a malformed non-null type, or a second mark where it ended in one, for
whatever reason it could not be read alone. Repeated marks are reported exactly if the text without
its blanks ends in two of them, and an open list exactly if the trimmed text begins with a bracket
and ends neither in one that closes nor in a mark. -/
theorem read_reports_outermost (input : String) :
    (∀ e, read input = .error e →
      e.input = input ∧
      Reports ("[" ++ input ++ "]") "malformed list element type" ∧
      Reports (input ++ "!")
        (if (trimEnd input.toList).getLast? = some '!' then "non-null modifier applied twice"
          else "malformed non-null type")) ∧
    (Reports input "non-null modifier applied twice" ↔
      ['!', '!'] <:+ withoutBlanks input.toList) ∧
    (Reports input "unterminated list type" ↔
      (trim input.toList).head? = some '[' ∧ (trim input.toList).getLast? ≠ some ']' ∧
        (trim input.toList).getLast? ≠ some '!') := by
  refine ⟨?_, ?_, ?_⟩
  · intro e he
    obtain ⟨hinput, hfault⟩ := read_eq_error_iff.mp he
    refine ⟨hinput, ?_, ?_⟩
    · have hlist : ("[" ++ input ++ "]").toList = [] ++ '[' :: (input.toList ++ ']' :: []) := by
        simp
      refine (reports_iff _ .malformedElement).mpr ?_
      rw [hlist, readChars_brackets allBlank_nil _ allBlank_nil, hfault]
      rfl
    · have hmark : (input ++ "!").toList = input.toList ++ '!' :: [] := by simp
      rw [← getLast?_trim]
      split_ifs with hlast
      · refine (reports_iff _ .repeatedNonNull).mpr ?_
        rw [hmark, readChars_bang _ allBlank_nil, if_pos hlast]
      · refine (reports_iff _ .malformedNonNull).mpr ?_
        rw [hmark, readChars_bang _ allBlank_nil, if_neg hlast, hfault]
        rfl
  · exact (reports_iff _ .repeatedNonNull).trans readChars_eq_repeatedNonNull_iff
  · exact (reports_iff _ .unterminatedList).trans readChars_eq_unterminatedList_iff

/-- A list that is not closed, alone and under a mark, and the same once more under a bracket and
under a second mark. -/
theorem read_reports_outermost_int :
    let bare := "[Int"
    let marked := " [Int !\u2003"
    read bare = .error ⟨bare, .unterminatedList⟩ ∧
      read marked = .error ⟨marked, .malformedNonNull⟩ ∧
      Reports (bare ++ "!") "malformed non-null type" ∧
      Reports ("[" ++ marked ++ "]") "malformed list element type" ∧
      Reports (marked ++ "!") "non-null modifier applied twice" ∧
      ¬ Reports marked "non-null modifier applied twice" := by
  intro bare marked
  have hbare : read bare = .error ⟨bare, .unterminatedList⟩ := by decide +kernel
  have hmarked : read marked = .error ⟨marked, .malformedNonNull⟩ := by decide +kernel
  obtain ⟨-, -, hsingle⟩ := (read_reports_outermost bare).1 _ hbare
  obtain ⟨-, hlist, hdouble⟩ := (read_reports_outermost marked).1 _ hmarked
  have hopen : ¬ (trimEnd bare.toList).getLast? = some '!' := by decide
  have hlast : (trimEnd marked.toList).getLast? = some '!' := by decide
  rw [if_neg hopen] at hsingle
  rw [if_pos hlast] at hdouble
  refine ⟨hbare, hmarked, hsingle, hlist, hdouble, ?_⟩
  rw [(read_reports_outermost marked).2.1]
  decide

end ValidatorGen.TypeRef

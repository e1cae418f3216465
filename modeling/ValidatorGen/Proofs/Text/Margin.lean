import ValidatorGen.Proofs.Text.Indent

/-! Margins. Indenting by one level and then by another one is indenting by both at once, and no
line is lost on the way, as long as reading the lines of the text loses nothing: a carriage return
before a line feed and a line feed at the very end would be dropped. -/
namespace ValidatorGen.Text

/-- The text is all that stands on its lines and the line feeds between them. -/
structure Tidy (text : String) : Prop where
  noReturn : '\r' ∉ text.toList
  noLastFeed : text.toList.getLast? ≠ some '\n'

instance : DecidablePred Tidy := fun text =>
  decidable_of_iff ('\r' ∉ text.toList ∧ text.toList.getLast? ≠ some '\n')
    ⟨fun h => ⟨h.1, h.2⟩, fun h => ⟨h.noReturn, h.noLastFeed⟩⟩

/-- Takes the width of a margin of `level` steps off each line. -/
def dedent (level : Nat) (text : String) : String :=
  "\n".intercalate ((lines text.toList).map fun line => String.ofList (line.drop (2 * level)))

/-! Lines behind a margin. -/

theorem indentLine_indentLine (a b : Nat) (line : List Char) :
    indentLine b (indentLine a line) = indentLine (a + b) line := by
  by_cases hline : line = []
  · rw [hline, indentLine_nil, indentLine_nil, indentLine_nil]
  · have hmore : List.replicate (2 * a) ' ' ++ line ≠ [] := by simp [hline]
    rw [indentLine_of_ne_nil hline, indentLine_of_ne_nil hmore, indentLine_of_ne_nil hline,
      ← List.append_assoc, List.replicate_append_replicate, Nat.mul_add, Nat.add_comm (2 * a)]

theorem drop_indentLine (level : Nat) (line : List Char) :
    (indentLine level line).drop (2 * level) = line := by
  by_cases hline : line = []
  · rw [hline, indentLine_nil, List.drop_nil]
  · rw [indentLine_of_ne_nil hline, List.drop_left' List.length_replicate]

theorem replicate_prefix_indentLine {level : Nat} {line : List Char}
    (h : indentLine level line ≠ []) : List.replicate (2 * level) ' ' <+: indentLine level line := by
  have hline : line ≠ [] := by
    rintro rfl
    exact h (indentLine_nil level)
  rw [indentLine_of_ne_nil hline]
  exact List.prefix_append _ _

theorem padLine_padLine (a b : Nat) (l : String) : padLine b (padLine a l) = padLine (a + b) l := by
  simp only [padLine, String.toList_ofList, indentLine_indentLine]

theorem padLine_ne_empty {l : String} (h : l ≠ "") (level : Nat) : padLine level l ≠ "" := by
  rw [padLine_eq_append h]
  simp [h]

theorem Unbroken.padLine {l : String} (h : Unbroken l) (level : Nat) :
    Unbroken (padLine level l) := by
  have hmargin : Unbroken (String.ofList (List.replicate (2 * level) ' ')) := by
    intro c hc
    rw [String.toList_ofList] at hc
    obtain rfl := List.eq_of_mem_replicate hc
    decide
  by_cases hl : l = ""
  · rw [hl, Text.padLine, String.toList_empty, indentLine_nil]
    decide
  · rw [padLine_eq_append hl, Unbroken.append]
    exact ⟨hmargin, h⟩

theorem exists_unlines_append {cs : List Char} (hreturn : '\r' ∉ cs)
    (hlast : cs.getLast? ≠ some '\n') (hne : cs ≠ []) :
    ∃ ls last, cs = (unlines ls ++ last).toList ∧ (∀ l ∈ ls, Unbroken l) ∧ Unbroken last ∧
      last ≠ "" := by
  induction cs with
  | nil => exact (hne rfl).elim
  | cons c rest ih =>
    obtain ⟨hc, hrest⟩ := not_or.mp (mt List.mem_cons.mpr hreturn)
    have hsingle (hfeed : c ≠ '\n') : Unbroken (String.singleton c) := by
      simpa [Unbroken] using ⟨hfeed, Ne.symm hc⟩
    cases rest with
    | nil =>
      have hfeed : c ≠ '\n' := by simpa using hlast
      exact ⟨[], String.singleton c, by simp, by simp, hsingle hfeed, by simp⟩
    | cons d more =>
      rw [List.getLast?_cons_cons] at hlast
      obtain ⟨ls, last, htext, hls, hunbroken, hsome⟩ := ih hrest hlast (List.cons_ne_nil d more)
      rw [htext]
      by_cases hfeed : c = '\n'
      · refine ⟨"" :: ls, last, by simp [hfeed], ?_, hunbroken, hsome⟩
        exact List.forall_mem_cons.mpr ⟨by decide, hls⟩
      -- The character goes to the front of the first line, which may be the last one too.
      cases ls with
      | nil =>
        refine ⟨[], String.singleton c ++ last, by simp, by simp, ?_, by simp⟩
        exact Unbroken.append.mpr ⟨hsingle hfeed, hunbroken⟩
      | cons l ls =>
        obtain ⟨hl, hls⟩ := List.forall_mem_cons.mp hls
        refine ⟨(String.singleton c ++ l) :: ls, last, by simp, ?_, hunbroken, hsome⟩
        exact List.forall_mem_cons.mpr ⟨Unbroken.append.mpr ⟨hsingle hfeed, hl⟩, hls⟩

/-- A tidy text is written line by line, with something on its last line. -/
theorem Tidy.eq_empty_or_eq_unlines_append {text : String} (h : Tidy text) :
    text = "" ∨ ∃ ls last, text = unlines ls ++ last ∧ (∀ l ∈ ls, Unbroken l) ∧ Unbroken last ∧
      last ≠ "" := by
  by_cases hne : text = ""
  · exact .inl hne
  obtain ⟨ls, last, htext, hls, hlast, hsome⟩ :=
    exists_unlines_append h.noReturn h.noLastFeed (by simpa using hne)
  exact .inr ⟨ls, last, String.toList_inj.mp htext, hls, hlast, hsome⟩

/-- For a text that reading loses nothing of, the levels of indenting twice add up, no line is lost
or added, and every line but the empty ones gets the margin of both levels, without which the text
is as it was. -/
theorem indent_composes {text : String} (h : Tidy text) (a b : Nat) :
    let indented := indent (a + b) text
    indent b (indent a text) = indented ∧
    (lines indented.toList).length = (lines text.toList).length ∧
    (∀ line ∈ lines indented.toList, line ≠ [] → List.replicate (2 * (a + b)) ' ' <+: line) ∧
    dedent (a + b) indented = text := by
  intro indented
  obtain rfl | ⟨ls, last, rfl, hls, hlast, hne⟩ := h.eq_empty_or_eq_unlines_append
  · simp [indented, dedent, lines]
  have hpad (level : Nat) : ∀ l ∈ ls.map (padLine level), Unbroken l :=
    List.forall_mem_map.mpr fun l hl => (hls l hl).padLine level
  have hindented : indented = unlines (ls.map (padLine (a + b))) ++ padLine (a + b) last :=
    indent_unlines_append hls hlast.oneLine hne (a + b)
  have hlines : lines indented.toList =
      (ls ++ [last]).map fun l => indentLine (a + b) l.toList := by
    rw [hindented, lines_unlines_append_last (hpad (a + b)) (hlast.padLine (a + b)).oneLine
      (padLine_ne_empty hne (a + b))]
    simp [padLine]
  refine ⟨?_, ?_, ?_, ?_⟩
  · rw [hindented, indent_unlines_append hls hlast.oneLine hne,
      indent_unlines_append (hpad a) (hlast.padLine a).oneLine (padLine_ne_empty hne a),
      List.map_map]
    simp only [Function.comp_def, padLine_padLine]
  · rw [hlines, lines_unlines_append_last hls hlast.oneLine hne, List.length_map, List.length_map]
  · rw [hlines]
    exact List.forall_mem_map.mpr fun l _ => replicate_prefix_indentLine
  · have htexts : ((ls ++ [last]).map fun l => indentLine (a + b) l.toList).map
          (fun line => String.ofList (line.drop (2 * (a + b)))) = ls ++ [last] := by
      simp [drop_indentLine, Function.comp_def]
    rw [dedent, hlines, htexts, intercalate_newline]

/-- A text with an empty line, which stays bare, and one that begins with blanks of its own. -/
theorem indent_composes_block :
    let text := "open\n\n  entry\nclose"
    let indented := "      open\n\n        entry\n      close"
    Tidy text ∧ indent 2 (indent 1 text) = indented ∧ (lines indented.toList).length = 4 ∧
      dedent 3 indented = text := by
  intro text indented
  have htidy : Tidy text := by decide
  have hcount : (lines text.toList).length = 4 := by decide
  have honce : indent (1 + 2) text = indented := by decide
  obtain ⟨htwice, hlines, -, hback⟩ := indent_composes htidy 1 2
  rw [honce] at htwice hlines hback
  exact ⟨htidy, htwice, hlines.trans hcount, hback⟩

end ValidatorGen.Text

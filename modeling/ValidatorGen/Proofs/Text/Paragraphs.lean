import ValidatorGen.Proofs.Text.Lines

/-! Paragraphs of a text. A text put together from solid blocks with an empty line before each one
has the blocks as its paragraphs. -/
namespace ValidatorGen.Text

/-- The pieces of a text between its line feeds. -/
def pieces (text : String) : List (List Char) :=
  text.toList.splitOn '\n'

/-- The maximal runs of non-empty lines. -/
def paragraphs (text : String) : List String :=
  (((pieces text).splitOn []).filter (· ≠ [])).map fun run =>
    String.ofList (['\n'].intercalate run)

@[simp] theorem pieces_empty : pieces "" = [[]] := rfl

theorem pieces_append_newline (s t : String) :
    pieces (s ++ "\n" ++ t) = pieces s ++ pieces t := by
  simp [pieces, ← List.splitOn_append_cons_self]

theorem pieces_newline_append (t : String) : pieces ("\n" ++ t) = [] :: pieces t := by
  simpa using pieces_append_newline "" t

theorem pieces_append_last_newline (s : String) : pieces (s ++ "\n") = pieces s ++ [[]] := by
  simpa using pieces_append_newline s ""

theorem pieces_of_oneLine {s : String} (h : OneLine s) : pieces s = [s.toList] :=
  List.splitOn_eq_singleton h

theorem paragraphs_of_pieces {s t u : String} (h : pieces s = pieces t ++ [] :: pieces u) :
    paragraphs s = paragraphs t ++ paragraphs u := by
  simp only [paragraphs, h, List.splitOn_append_cons_self, List.filter_append, List.map_append]

theorem paragraphs_append_blank (s t : String) :
    paragraphs (s ++ "\n" ++ "\n" ++ t) = paragraphs s ++ paragraphs t := by
  apply paragraphs_of_pieces
  rw [pieces_append_newline, pieces_append_last_newline, List.append_assoc, List.singleton_append]

theorem paragraphs_newline_append (t : String) : paragraphs ("\n" ++ t) = paragraphs t := by
  simp [paragraphs, pieces_newline_append, List.splitOn_cons_eq_if_modifyHead]

theorem paragraphs_append_newline (s : String) : paragraphs (s ++ "\n") = paragraphs s := by
  simp [paragraphs, pieces_append_last_newline, List.splitOn_append_cons_self]

namespace Solid

theorem nil_not_mem_pieces {s : String} (h : Solid s) : [] ∉ pieces s := by
  induction h with
  | line h => simpa [pieces_of_oneLine h.oneLine] using h.visible.ne_nil.symm
  | cons hline _ ih =>
    rw [pieces_append_newline, pieces_of_oneLine hline.oneLine]
    simpa [ih] using hline.visible.ne_nil.symm

theorem paragraphs_eq {s : String} (h : Solid s) : paragraphs s = [s] := by
  have htext : ['\n'].intercalate (pieces s) = s.toList := List.intercalate_splitOn '\n'
  have hne : pieces s ≠ [] := List.splitOn_ne_nil '\n' s.toList
  simp [paragraphs, List.splitOn_eq_singleton h.nil_not_mem_pieces, hne, htext]

end Solid

/-- Blocks can be read off the text that they are put together to. -/
theorem paragraphs_blocks {blocks : List String} (h : ∀ block ∈ blocks, Solid block) :
    paragraphs ("\n" ++ "\n".intercalate (blocks.map (· ++ "\n"))) = blocks := by
  rw [paragraphs_newline_append]
  induction blocks with
  | nil => rfl
  | cons block blocks ih =>
    obtain ⟨hblock, hblocks⟩ := List.forall_mem_cons.mp h
    cases blocks with
    | nil => simp [paragraphs_append_newline, hblock.paragraphs_eq]
    | cons next blocks =>
      have hrest := ih hblocks
      rw [List.map_cons] at hrest
      rw [List.map_cons, List.map_cons, String.intercalate_cons_cons, paragraphs_append_blank,
        hblock.paragraphs_eq, hrest, List.singleton_append]

example : paragraphs "\na\nb\n\nc\n" = ["a\nb", "c"] := by decide

end ValidatorGen.Text

import ValidatorGen.Proofs.Text.Lines

/-! Texts written line by line. Lines without terminators are read back from the text that they are
written to, and indenting that text puts a margin before each of them. -/
namespace ValidatorGen.Text

/-- A text without line feeds and carriage returns. -/
def Unbroken (s : String) : Prop :=
  ∀ c ∈ s.toList, c ≠ '\n' ∧ c ≠ '\r'

instance : DecidablePred Unbroken :=
  fun s => List.decidableBAll (fun c : Char => c ≠ '\n' ∧ c ≠ '\r') s.toList

namespace Unbroken

variable {s t : String}

@[simp] theorem append : Unbroken (s ++ t) ↔ Unbroken s ∧ Unbroken t := by
  simp only [Unbroken, String.toList_append, List.forall_mem_append]

theorem oneLine (h : Unbroken s) : OneLine s :=
  fun hmem => (h '\n' hmem).1 rfl

theorem stripReturn_eq (h : Unbroken s) : stripReturn s.toList = s.toList := by
  have hreturn : '\r' ∉ s.toList := fun hmem => (h '\r' hmem).2 rfl
  revert hreturn
  fun_induction stripReturn s.toList with
  | case1 => simp
  | case2 => simp
  | case3 c rest _ ih =>
    intro hreturn
    rw [ih fun hmem => hreturn (List.mem_cons_of_mem c hmem)]

end Unbroken

/-- Each line with a line feed after it. -/
def unlines (ls : List String) : String :=
  String.join (ls.map (· ++ "\n"))

@[simp] theorem unlines_nil : unlines [] = "" := rfl

@[simp] theorem unlines_cons (l : String) (ls : List String) :
    unlines (l :: ls) = l ++ "\n" ++ unlines ls :=
  String.join_cons

@[simp] theorem unlines_append (ls more : List String) :
    unlines (ls ++ more) = unlines ls ++ unlines more := by
  simp [unlines]

/-- Lines with terminators are read off the front of any text. -/
theorem lines_unlines_append {ls : List String} (h : ∀ l ∈ ls, Unbroken l) (s : String) :
    lines (unlines ls ++ s).toList = ls.map String.toList ++ lines s.toList := by
  induction ls with
  | nil => simp
  | cons l rest ih =>
    obtain ⟨hl, hrest⟩ := List.forall_mem_cons.mp h
    have htext : (unlines (l :: rest) ++ s).toList =
        l.toList ++ '\n' :: (unlines rest ++ s).toList := by
      simp
    rw [htext, lines_append_newline hl.oneLine, hl.stripReturn_eq, ih hrest, List.map_cons,
      List.cons_append]

theorem lines_unlines {ls : List String} (h : ∀ l ∈ ls, Unbroken l) :
    lines (unlines ls).toList = ls.map String.toList := by
  simpa [lines] using lines_unlines_append h ""

theorem lines_unlines_append_last {ls : List String} {last : String} (h : ∀ l ∈ ls, Unbroken l)
    (hlast : OneLine last) (hne : last ≠ "") :
    lines (unlines ls ++ last).toList = (ls ++ [last]).map String.toList := by
  rw [lines_unlines_append h, lines_of_not_mem hlast (by simpa using hne), List.map_append,
    List.map_singleton]

/-- Items on lines of their own, each but the last one with its separator. -/
theorem intercalate_eq_unlines_append (sep : String) (items : List String) (last : String) :
    (sep ++ "\n").intercalate (items ++ [last]) = unlines (items.map (· ++ sep)) ++ last := by
  induction items with
  | nil => simp
  | cons item rest ih =>
    rw [List.cons_append, String.intercalate_cons_of_ne_nil (by simp), ih, List.map_cons,
      unlines_cons]
    simp only [String.append_assoc]

theorem intercalate_newline (ls : List String) (last : String) :
    "\n".intercalate (ls ++ [last]) = unlines ls ++ last := by
  simpa using intercalate_eq_unlines_append "" ls last

/-- The line behind a margin of `level` steps; an empty line stays bare. -/
def padLine (level : Nat) (l : String) : String :=
  String.ofList (indentLine level l.toList)

theorem padLine_eq_append {l : String} (h : l ≠ "") (level : Nat) :
    padLine level l = String.ofList (List.replicate (2 * level) ' ') ++ l := by
  have hne : l.toList ≠ [] := by simpa using h
  rw [padLine, indentLine, if_neg hne, String.ofList_append, String.ofList_toList]

theorem padLine_one {l : String} (h : l ≠ "") : padLine 1 l = "  " ++ l :=
  padLine_eq_append h 1

theorem indent_unlines_append {ls : List String} {last : String} (h : ∀ l ∈ ls, Unbroken l)
    (hlast : OneLine last) (hne : last ≠ "") (level : Nat) :
    indent level (unlines ls ++ last) = unlines (ls.map (padLine level)) ++ padLine level last := by
  have hpad : ((ls ++ [last]).map String.toList).map
        (fun line => String.ofList (indentLine level line)) =
      ls.map (padLine level) ++ [padLine level last] := by
    simp [padLine]
  rw [indent, lines_unlines_append_last h hlast hne, hpad, intercalate_newline]

/-- The items with a comma after each but the last. -/
def separated (items : List String) : List String :=
  items.dropLast.map (· ++ ",") ++ items.getLast?.toList

/-- Items on lines of their own, behind a margin, keep their order and their commas. -/
theorem indent_intercalate {items : List String} (hne : items ≠ [])
    (h : ∀ item ∈ items, Unbroken item ∧ item ≠ "") :
    indent 1 (",\n".intercalate items) ++ "\n" = unlines ((separated items).map ("  " ++ ·)) := by
  obtain hnil | ⟨init, last, hconcat⟩ := List.eq_nil_or_concat items
  · exact (hne hnil).elim
  obtain rfl : items = init ++ [last] := by simpa using hconcat
  obtain ⟨hinit, hlast⟩ := List.forall_mem_append.mp h
  obtain ⟨hlast, hlastne⟩ := hlast last (List.mem_singleton_self last)
  have hcommas : ∀ l ∈ init.map (· ++ ","), Unbroken l := by
    refine List.forall_mem_map.mpr fun item hitem => ?_
    exact Unbroken.append.mpr ⟨(hinit item hitem).1, by decide⟩
  have hpad : (init.map (· ++ ",")).map (padLine 1) = (init.map (· ++ ",")).map ("  " ++ ·) := by
    rw [List.map_map, List.map_map]
    refine List.map_congr_left fun item _ => padLine_one fun hempty => ?_
    have hcomma := (String.append_eq_empty_iff.mp hempty).2
    exact absurd hcomma (by decide)
  -- The last item has no comma, and its line feed is the one from outside.
  have hsep : ",\n" = "," ++ "\n" := rfl
  rw [hsep, intercalate_eq_unlines_append, indent_unlines_append hcommas hlast.oneLine hlastne, hpad,
    padLine_one hlastne, separated, List.dropLast_concat, List.getLast?_concat]
  simp [String.append_assoc]

end ValidatorGen.Text

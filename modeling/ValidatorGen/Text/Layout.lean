/-!
White space of texts: trimming by the code points with the White_Space property, and lines with their
indentation. A line ends at a line feed, with the carriage return directly before it; a terminator at
the very end opens no further line.
-/
namespace ValidatorGen.Text

def isBlank (c : Char) : Bool :=
  let n := c.toNat
  (0x09 ≤ n && n ≤ 0x0D) || n == 0x20 || n == 0x85 || n == 0xA0 || n == 0x1680 ||
    (0x2000 ≤ n && n ≤ 0x200A) || n == 0x2028 || n == 0x2029 || n == 0x202F || n == 0x205F ||
    n == 0x3000

def trimStart (cs : List Char) : List Char :=
  cs.dropWhile isBlank

def trimEnd (cs : List Char) : List Char :=
  (cs.reverse.dropWhile isBlank).reverse

def trim (cs : List Char) : List Char :=
  trimEnd (trimStart cs)

theorem length_trimStart_le (cs : List Char) : (trimStart cs).length ≤ cs.length :=
  (List.dropWhile_suffix isBlank).length_le

theorem length_trimEnd_le (cs : List Char) : (trimEnd cs).length ≤ cs.length := by
  simpa [trimEnd] using (List.dropWhile_suffix (l := cs.reverse) isBlank).length_le

theorem length_trim_le (cs : List Char) : (trim cs).length ≤ cs.length :=
  Nat.le_trans (length_trimEnd_le _) (length_trimStart_le cs)

def lines : List Char → List (List Char)
  | [] => []
  | '\n' :: rest => [] :: lines rest
  | '\r' :: '\n' :: rest => [] :: lines rest
  | c :: rest =>
    match lines rest with
    | [] => [[c]]
    | line :: more => (c :: line) :: more

def indentLine (level : Nat) (line : List Char) : List Char :=
  if line = [] then [] else List.replicate (2 * level) ' ' ++ line

/-- Indents each line by `level` steps of two spaces and leaves empty lines bare. -/
def indent (level : Nat) (text : String) : String :=
  "\n".intercalate ((lines text.toList).map fun line => String.ofList (indentLine level line))

@[simp] theorem indentLine_nil (level : Nat) : indentLine level [] = [] := rfl

theorem indentLine_of_ne_nil {line : List Char} (h : line ≠ []) (level : Nat) :
    indentLine level line = List.replicate (2 * level) ' ' ++ line :=
  if_neg h

@[simp] theorem indentLine_zero (line : List Char) : indentLine 0 line = line := by
  unfold indentLine
  split <;> simp_all

@[simp] theorem indent_empty (level : Nat) : indent level "" = "" := rfl

end ValidatorGen.Text

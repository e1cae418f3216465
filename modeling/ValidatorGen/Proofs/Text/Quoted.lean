import ValidatorGen.Proofs.Text.Lines
import ValidatorGen.Text.Quoted

/-! Quoted literals have no control character and can be read back: the body of a literal gives one
piece for each character of the text, and the pieces give the text. -/
namespace ValidatorGen.Text.Quoted

/-- The characters with an escape of their own. -/
def shortEscaped : List Char :=
  ['"', '\\', '\x08', '\x0C', '\n', '\r', '\t']

/-- The piece that a character is read back as. Control characters without an escape of their own
are written as units. -/
def piece (c : Char) : Piece :=
  if c.toNat < 0x20 ∧ c ∉ shortEscaped then .unit c.toNat else .char c

theorem exists_escape_eq_short {c : Char} (h : c ∈ shortEscaped) :
    ∃ e, escape c = ['\\', e] ∧ e ≠ 'u' ∧ unescape? e = some c := by
  simp only [shortEscaped, List.mem_cons, List.not_mem_nil, or_false] at h
  rcases h with rfl | rfl | rfl | rfl | rfl | rfl | rfl <;> exact ⟨_, rfl, by decide, rfl⟩

theorem escape_of_not_mem {c : Char} (h : c ∉ shortEscaped) :
    escape c =
      if c.toNat < 0x20 then
        ['\\', 'u', '0', '0', hexDigit (c.toNat / 16), hexDigit (c.toNat % 16)]
      else [c] := by
  have hne : ∀ d ∈ shortEscaped, c.toNat ≠ d.toNat := by
    intro d hd hcode
    exact h (Char.toNat_inj.mp hcode ▸ hd)
  simp only [shortEscaped, List.forall_mem_cons] at hne
  obtain ⟨hquote, hslash, hb, hf, hn, hr, ht, -⟩ := hne
  unfold escape
  split <;> first | contradiction | rfl

theorem printable_escape (c : Char) : Printable (escape c) := by
  by_cases hshort : c ∈ shortEscaped
  · simp only [shortEscaped, List.mem_cons, List.not_mem_nil, or_false] at hshort
    rcases hshort with rfl | rfl | rfl | rfl | rfl | rfl | rfl <;> decide
  rw [escape_of_not_mem hshort]
  split
  · next hcontrol =>
    have hdigits : ∀ n < 0x20, Printable ['\\', 'u', '0', '0', hexDigit (n / 16),
        hexDigit (n % 16)] := by
      decide
    exact hdigits c.toNat hcontrol
  · next hcontrol => simpa using hcontrol

theorem printable_encode (s : String) : Printable (encode s).toList := by
  have hbody : Printable (s.toList.flatMap escape) := by
    intro d hd
    obtain ⟨c, -, hd⟩ := List.mem_flatMap.mp hd
    exact printable_escape c d hd
  simp [encode, encodeChars, hbody]

theorem hexNumber?_hexDigit : ∀ n < 0x20,
    hexNumber? ['0', '0', hexDigit (n / 16), hexDigit (n % 16)] = some n := by
  decide

theorem scan_unit {a b c d : Char} {code : Nat} (h : hexNumber? [a, b, c, d] = some code)
    (rest : List Char) :
    scan ('\\' :: 'u' :: a :: b :: c :: d :: rest) =
      (scan rest).map fun found => (.unit code :: found.1, found.2) := by
  rw [scan, h]
  cases scan rest <;> rfl

theorem scan_short {e c : Char} (hu : e ≠ 'u') (h : unescape? e = some c) (rest : List Char) :
    scan ('\\' :: e :: rest) = (scan rest).map fun found => (.char c :: found.1, found.2) := by
  rw [scan, h]
  · cases scan rest <;> rfl
  · intro _ _ _ _ _ he
    exact (hu he).elim

theorem scan_plain {c : Char} (hquote : c ≠ '"') (hslash : c ≠ '\\') (hcontrol : ¬ c.toNat < 0x20)
    (rest : List Char) :
    scan (c :: rest) = (scan rest).map fun found => (.char c :: found.1, found.2) := by
  rw [scan]
  · simp only [hcontrol, hslash, or_self, if_false]
    cases scan rest <;> rfl
  · exact hquote
  · intro _ _ _ _ _ hc
    exact (hslash hc).elim
  · intro _ _ hc
    exact (hslash hc).elim

theorem scan_escape (c : Char) (rest : List Char) :
    scan (escape c ++ rest) = (scan rest).map fun found => (piece c :: found.1, found.2) := by
  by_cases hshort : c ∈ shortEscaped
  · obtain ⟨e, hescape, hu, hunescape⟩ := exists_escape_eq_short hshort
    have hpiece : piece c = .char c := if_neg fun h => h.2 hshort
    rw [hescape, hpiece]
    exact scan_short hu hunescape rest
  rw [escape_of_not_mem hshort]
  by_cases hcontrol : c.toNat < 0x20
  · have hpiece : piece c = .unit c.toNat := if_pos ⟨hcontrol, hshort⟩
    rw [if_pos hcontrol, hpiece]
    exact scan_unit (hexNumber?_hexDigit c.toNat hcontrol) rest
  · have hpiece : piece c = .char c := if_neg fun h => hcontrol h.1
    have hquote : c ≠ '"' := by
      rintro rfl
      exact hshort (by decide)
    have hslash : c ≠ '\\' := by
      rintro rfl
      exact hshort (by decide)
    rw [if_neg hcontrol, hpiece]
    exact scan_plain hquote hslash hcontrol rest

/-- The body of a literal is read up to its closing quote. -/
theorem scan_flatMap_escape (cs rest : List Char) :
    scan (cs.flatMap escape ++ '"' :: rest) = some (cs.map piece, rest) := by
  induction cs with
  | nil => rfl
  | cons c cs ih =>
    rw [List.flatMap_cons, List.append_assoc, scan_escape, ih]
    rfl

theorem assemble_char_cons (c : Char) (pieces : List Piece) :
    assemble (.char c :: pieces) = (assemble pieces).map (c :: ·) := by
  rw [assemble]

theorem assemble_unit_cons {code : Nat} (h : code < 0x20) (pieces : List Piece) :
    assemble (.unit code :: pieces) = (assemble pieces).map (Char.ofNat code :: ·) := by
  have hhigh : isHighSurrogate code = false := by
    simp [isHighSurrogate]
    omega
  have hlow : isLowSurrogate code = false := by
    simp [isLowSurrogate]
    omega
  cases pieces with
  | nil => simp [assemble, hhigh, hlow]
  | cons p rest => cases p <;> simp [assemble, hhigh, hlow]

theorem assemble_map_piece (cs : List Char) : assemble (cs.map piece) = some cs := by
  induction cs with
  | nil => rfl
  | cons c cs ih =>
    rw [List.map_cons, piece]
    split
    · next h =>
      rw [assemble_unit_cons h.1, ih, Char.ofNat_toNat]
      rfl
    · rw [assemble_char_cons, ih]
      rfl

end ValidatorGen.Text.Quoted

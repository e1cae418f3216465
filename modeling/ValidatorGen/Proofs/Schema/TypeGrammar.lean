import ValidatorGen.Proofs.Schema.TypeReader

/-! The grammar of type references. A text holds a reference when it is the sequence of the
reference's tokens with any blanks before, between and after them, and reading accepts exactly these
texts of the well-formed references. -/
namespace ValidatorGen.TypeRef
open ValidatorGen.Text

inductive Token
  | name (text : String)
  | openList
  | closeList
  | bang
  deriving DecidableEq, Repr

def Token.text : Token → List Char
  | name text => text.toList
  | openList => ['[']
  | closeList => [']']
  | bang => ['!']

def tokens : TypeRef → List Token
  | named name => [.name name]
  | list element => .openList :: (element.tokens ++ [.closeList])
  | nonNull inner => inner.tokens ++ [.bang]

/-- The tokens of a reference are those of its text. -/
theorem flatMap_text_tokens (t : TypeRef) : t.tokens.flatMap Token.text = t.text.toList := by
  induction t with
  | named name => simp [tokens, Token.text]
  | list element ih => simp [tokens, Token.text, ih]
  | nonNull inner ih => simp [tokens, Token.text, ih]

/-- The characters are the given tokens with blanks before, between and after them. -/
inductive Spells : List Token → List Char → Prop
  | nil {blanks : List Char} (h : AllBlank blanks) : Spells [] blanks
  | cons {blanks : List Char} (h : AllBlank blanks) (token : Token) {tokens : List Token}
      {cs : List Char} (hcs : Spells tokens cs) :
      Spells (token :: tokens) (blanks ++ token.text ++ cs)

theorem Spells.blanks_append {tokens : List Token} {blanks cs : List Char} (hb : AllBlank blanks)
    (h : Spells tokens cs) : Spells tokens (blanks ++ cs) := by
  cases h with
  | nil h => exact .nil (hb.append h)
  | cons h token hcs =>
    rw [← List.append_assoc, ← List.append_assoc]
    exact .cons (hb.append h) token hcs

theorem Spells.append {first second : List Token} {cs ds : List Char} (hc : Spells first cs)
    (hd : Spells second ds) : Spells (first ++ second) (cs ++ ds) := by
  induction hc with
  | nil h => exact hd.blanks_append h
  | cons h token _ ih =>
    rw [List.append_assoc]
    exact .cons h token ih

theorem Spells.split {first second : List Token} {cs : List Char}
    (h : Spells (first ++ second) cs) :
    ∃ ds es, cs = ds ++ es ∧ Spells first ds ∧ Spells second es := by
  induction first generalizing cs with
  | nil => exact ⟨[], cs, rfl, .nil allBlank_nil, h⟩
  | cons token rest ih =>
    cases h with
    | cons hb _ hcs =>
      obtain ⟨ds, es, rfl, hd, he⟩ := ih hcs
      exact ⟨_, es, (List.append_assoc ..).symm, .cons hb token hd, he⟩

theorem spells_singleton {token : Token} {cs : List Char} :
    Spells [token] cs ↔
      ∃ before after, AllBlank before ∧ AllBlank after ∧ cs = before ++ token.text ++ after := by
  constructor
  · intro h
    cases h with
    | cons hb _ hcs =>
      cases hcs with
      | nil ha => exact ⟨_, _, hb, ha, rfl⟩
  · rintro ⟨before, after, hb, ha, rfl⟩
    exact .cons hb token (.nil ha)

/-- The text of a reference spells its tokens without any blanks. -/
theorem spells_flatMap_text (tokens : List Token) : Spells tokens (tokens.flatMap Token.text) := by
  induction tokens with
  | nil => exact .nil allBlank_nil
  | cons token rest ih => exact .cons allBlank_nil token ih

theorem spells_text (t : TypeRef) : Spells t.tokens t.text.toList := by
  rw [← flatMap_text_tokens]
  exact spells_flatMap_text t.tokens

theorem wellFormed_and_spells {cs : List Char} {t : TypeRef} (h : readChars cs = .ok t) :
    t.WellFormed ∧ Spells t.tokens cs := by
  induction t generalizing cs with
  | named name =>
    rcases readChars_eq_ok h with ⟨_, _, _, -, -, -, -, ht⟩ | ⟨_, _, _, _, -, -, -, -, ht⟩ |
      ⟨name', hname, hn, ht⟩
    · cases ht
    · cases ht
    · cases ht
      obtain ⟨before, after, hb, ha, hcs⟩ := exists_append_trim cs
      rw [hname] at hcs
      exact ⟨wellFormed_named.mpr hn, spells_singleton.mpr ⟨before, after, hb, ha, hcs⟩⟩
  | list element ih =>
    rcases readChars_eq_ok h with ⟨_, _, _, -, -, -, -, ht⟩ |
      ⟨before, middle, after, _, hb, ha, rfl, helement, ht⟩ | ⟨_, -, -, ht⟩
    · cases ht
    · cases ht
      obtain ⟨hwf, hmiddle⟩ := ih helement
      have hclose : Spells [.closeList] (']' :: after) :=
        spells_singleton.mpr ⟨[], after, allBlank_nil, ha, rfl⟩
      refine ⟨wellFormed_list.mpr hwf, ?_⟩
      rw [List.append_cons]
      exact .cons hb .openList (hmiddle.append hclose)
    · cases ht
  | nonNull inner ih =>
    rcases readChars_eq_ok h with ⟨front, after, _, ha, rfl, hlast, hinner, ht⟩ |
      ⟨_, _, _, _, -, -, -, -, ht⟩ | ⟨_, -, -, ht⟩
    · cases ht
      obtain ⟨hwf, hfront⟩ := ih hinner
      have hnull : inner.isNonNull = false := by
        simpa [getLast?_trim_eq_bang_iff hinner] using hlast
      exact ⟨wellFormed_nonNull.mpr ⟨hnull, hwf⟩,
        hfront.append (spells_singleton.mpr ⟨[], after, allBlank_nil, ha, rfl⟩)⟩
    · cases ht
    · cases ht

theorem readChars_of_spells {cs : List Char} {t : TypeRef} (ht : t.WellFormed)
    (h : Spells t.tokens cs) : readChars cs = .ok t := by
  induction t generalizing cs with
  | named name =>
    have hn : IsName name := wellFormed_named.mp ht
    obtain ⟨before, after, hb, ha, rfl⟩ := spells_singleton.mp h
    have htrim : trim (before ++ (Token.name name).text ++ after) = name.toList := by
      rw [trim_append_right ha, trim_append_left hb]
      exact hn.trim_toList
    rw [readChars_name (htrim ▸ hn.head?_ne) (htrim ▸ hn.getLast?_ne), htrim]
    exact readName_eq_ok.mpr ⟨name, rfl, hn, rfl⟩
  | list element ih =>
    cases h with
    | @cons before hb _ _ _ hrest =>
      obtain ⟨middle, close, rfl, hmiddle, hclose⟩ := hrest.split
      obtain ⟨blanks, after, hblanks, ha, rfl⟩ := spells_singleton.mp hclose
      have hread : readChars (middle ++ blanks) = .ok element :=
        (readChars_congr (trim_append_right hblanks middle)).trans
          (ih (wellFormed_list.mp ht) hmiddle)
      have hcs : before ++ Token.openList.text ++
            (middle ++ (blanks ++ Token.closeList.text ++ after)) =
          before ++ '[' :: ((middle ++ blanks) ++ ']' :: after) := by
        simp [Token.text]
      rw [hcs, readChars_brackets hb _ ha, hread]
      rfl
  | nonNull inner ih =>
    obtain ⟨hnull, hwf⟩ := wellFormed_nonNull.mp ht
    obtain ⟨front, mark, rfl, hfront, hmark⟩ := h.split
    obtain ⟨blanks, after, hblanks, ha, rfl⟩ := spells_singleton.mp hmark
    have hread : readChars (front ++ blanks) = .ok inner :=
      (readChars_congr (trim_append_right hblanks front)).trans (ih hwf hfront)
    have hlast : ¬ (trim (front ++ blanks)).getLast? = some '!' := by
      simp [getLast?_trim_eq_bang_iff hread, hnull]
    have hcs : front ++ (blanks ++ Token.bang.text ++ after) =
        (front ++ blanks) ++ '!' :: after := by
      simp [Token.text]
    rw [hcs, readChars_bang _ ha, if_neg hlast, hread]
    rfl

theorem readChars_eq_ok_iff {cs : List Char} {t : TypeRef} :
    readChars cs = .ok t ↔ t.WellFormed ∧ Spells t.tokens cs :=
  ⟨wellFormed_and_spells, fun h => readChars_of_spells h.1 h.2⟩

theorem read_eq_ok {input : String} {t : TypeRef} :
    read input = .ok t ↔ readChars input.toList = .ok t := by
  rw [read]
  cases readChars input.toList <;> simp [Except.mapError]

/-- Reading a reference from its own text gives it back exactly when it is well formed. -/
theorem read_text_eq_ok {t : TypeRef} : read t.text = .ok t ↔ t.WellFormed := by
  rw [read_eq_ok, readChars_eq_ok_iff]
  exact and_iff_left (spells_text t)

/-- Reading accepts exactly the token sequences of well-formed references, with any blanks around
every token and none inside a name, and gives back the reference whose tokens they are. -/
theorem read_eq_ok_iff_spells (input : String) (t : TypeRef) :
    read input = .ok t ↔
      t.SingleNonNull ∧ IsName t.baseName ∧ Spells t.tokens input.toList := by
  rw [read_eq_ok, readChars_eq_ok_iff, WellFormed, and_assoc]

end ValidatorGen.TypeRef

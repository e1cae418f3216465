import ValidatorGen.Settings.Load

/-! Shapes of configuration trees. Every kind of setting is read from trees of one shape, and from such
a tree it is read as what is written like that. Trees of other shapes give nothing. -/
namespace ValidatorGen

namespace Setting

variable {α : Type}

def IsText (s : Setting) : Prop :=
  ∃ t, s = .text t

def IsFlag (s : Setting) : Prop :=
  ∃ b, s = .bool b

def IsListOf (P : Setting → Prop) (s : Setting) : Prop :=
  ∃ items, s = .list items ∧ ∀ item ∈ items, P item

def IsTableOf (P : Setting → Prop) (s : Setting) : Prop :=
  ∃ entries, s = .table entries ∧ ∀ entry ∈ entries, P entry.2

def IsChoiceRule (s : Setting) : Prop :=
  s.IsText ∨ s.IsListOf IsText

def IsArgumentRule (s : Setting) : Prop :=
  s.IsText ∨ s.IsListOf IsText ∨ s.IsTableOf IsChoiceRule

def IsObjectForm (s : Setting) : Prop :=
  s = .text "function" ∨ s = .text "const"

/-- The list of given items. -/
def ofList (write : α → Setting) (items : List α) : Setting :=
  .list (items.map write)

/-- The table of given entries. -/
def ofTable (write : α → Setting) (table : Table α) : Setting :=
  .table (table.map fun entry => (entry.1, write entry.2))

def ofOptionalText : Option String → Setting
  | none => .null
  | some s => .text s

end Setting

def ChoiceRule.toSetting : ChoiceRule → Setting
  | .method name => .text name
  | .call parts => .ofList .text parts

def ArgumentRule.toSetting : ArgumentRule → Setting
  | .method name => .text name
  | .call parts => .ofList .text parts
  | .byValue choices => .ofTable ChoiceRule.toSetting choices

def ObjectForm.toSetting (form : ObjectForm) : Setting :=
  .text form.name

namespace Setting

variable {α β : Type}

/-- The tree is read exactly if it has the shape, and as a setting exactly if that is written like
it. -/
structure Reads (read : Setting → Option α) (P : Setting → Prop) (write : α → Setting)
    (s : Setting) : Prop where
  isSome : (read s).isSome ↔ P s
  eq_some : ∀ x, read s = some x ↔ s = write x

theorem isSome_mapM {f : α → Option β} {items : List α} :
    (items.mapM f).isSome ↔ ∀ item ∈ items, (f item).isSome := by
  induction items with
  | nil => simp
  | cons item rest ih =>
    rw [List.mapM_cons, List.forall_mem_cons, ← ih]
    cases f item <;> cases rest.mapM f <;> simp

theorem mapM_eq_some_iff_eq_map {f : α → Option β} {g : β → α} (h : ∀ a b, f a = some b ↔ a = g b)
    {items : List α} {results : List β} :
    items.mapM f = some results ↔ items = results.map g := by
  induction items generalizing results with
  | nil => cases results <;> simp
  | cons item rest ih =>
    simp only [List.mapM_cons, Option.bind_eq_bind, Option.bind_eq_some_iff, h, ih]
    cases results <;> simp

theorem reads_text (s : Setting) : Reads text? IsText text s := by
  cases s <;> constructor <;> simp [text?, IsText]

theorem reads_flag (s : Setting) : Reads flag? IsFlag bool s := by
  cases s <;> constructor <;> simp [flag?, IsFlag]

theorem reads_texts (s : Setting) : Reads texts? (IsListOf IsText) (ofList text) s where
  isSome := by
    cases s with
    | list items =>
      simp [texts?, items?, IsListOf, isSome_mapM, (reads_text _).isSome]
    | _ => simp [texts?, items?, IsListOf]
  eq_some texts := by
    cases s with
    | list items =>
      simp [texts?, items?, ofList, mapM_eq_some_iff_eq_map fun item => (reads_text item).eq_some]
    | _ => simp [texts?, items?, ofList]

/-- A table is read entry by entry. -/
theorem Reads.table {read : Setting → Option α} {P : Setting → Prop} {write : α → Setting}
    (h : ∀ s, Reads read P write s) (s : Setting) :
    Reads (Table.ofSetting? read) (IsTableOf P) (ofTable write) s where
  isSome := by
    cases s with
    | table entries => simp [Table.ofSetting?, entries?, IsTableOf, isSome_mapM, (h _).isSome]
    | _ => simp [Table.ofSetting?, entries?, IsTableOf]
  eq_some table := by
    have hentry : ∀ (entry : String × Setting) (result : String × α),
        (read entry.2).map (entry.1, ·) = some result ↔
          entry = (result.1, write result.2) := by
      rintro ⟨key, value⟩ ⟨name, x⟩
      simp only [Option.map_eq_some_iff, (h value).eq_some, Prod.mk.injEq]
      constructor
      · rintro ⟨_, hvalue, hkey, rfl⟩
        exact ⟨hkey, hvalue⟩
      · rintro ⟨hkey, hvalue⟩
        exact ⟨x, hvalue, hkey, rfl⟩
    cases s with
    | table entries =>
      simp [Table.ofSetting?, entries?, ofTable, mapM_eq_some_iff_eq_map hentry]
    | _ => simp [Table.ofSetting?, entries?, ofTable]

theorem reads_choiceRule (s : Setting) :
    Reads ChoiceRule.ofSetting? IsChoiceRule ChoiceRule.toSetting s := by
  have htexts := reads_texts s
  cases s with
  | text name =>
    refine ⟨by simp [ChoiceRule.ofSetting?, IsChoiceRule, IsText], fun rule => ?_⟩
    cases rule <;> simp [ChoiceRule.ofSetting?, ChoiceRule.toSetting, ofList]
  | list items =>
    refine ⟨?_, fun rule => ?_⟩
    · simp [ChoiceRule.ofSetting?, IsChoiceRule, htexts.isSome, IsText]
    · cases rule <;> simp [ChoiceRule.ofSetting?, ChoiceRule.toSetting, htexts.eq_some]
  | _ =>
    refine ⟨by simp [ChoiceRule.ofSetting?, IsChoiceRule, IsText, IsListOf], fun rule => ?_⟩
    cases rule <;> simp [ChoiceRule.ofSetting?, ChoiceRule.toSetting, ofList]

/-- The three shapes of a rule have no tree in common. -/
theorem reads_argumentRule (s : Setting) :
    Reads ArgumentRule.ofSetting? IsArgumentRule ArgumentRule.toSetting s := by
  have htexts := reads_texts s
  have hchoices := Reads.table reads_choiceRule s
  cases s with
  | text name =>
    refine ⟨by simp [ArgumentRule.ofSetting?, IsArgumentRule, IsText], fun rule => ?_⟩
    cases rule <;> simp [ArgumentRule.ofSetting?, ArgumentRule.toSetting, ofList, ofTable]
  | list items =>
    refine ⟨?_, fun rule => ?_⟩
    · simp [ArgumentRule.ofSetting?, IsArgumentRule, htexts.isSome, IsText, IsTableOf]
    · cases rule <;>
        simp [ArgumentRule.ofSetting?, ArgumentRule.toSetting, htexts.eq_some, ofTable]
  | table entries =>
    refine ⟨?_, fun rule => ?_⟩
    · simp [ArgumentRule.ofSetting?, IsArgumentRule, hchoices.isSome, IsText, IsListOf]
    · cases rule <;>
        simp [ArgumentRule.ofSetting?, ArgumentRule.toSetting, hchoices.eq_some, ofList]
  | _ =>
    refine ⟨by simp [ArgumentRule.ofSetting?, IsArgumentRule, IsText, IsListOf, IsTableOf],
      fun rule => ?_⟩
    cases rule <;> simp [ArgumentRule.ofSetting?, ArgumentRule.toSetting, ofList, ofTable]

theorem reads_directiveTable (s : Setting) :
    Reads DirectiveTable.ofSetting? (IsTableOf (IsTableOf IsArgumentRule))
      (ofTable (ofTable ArgumentRule.toSetting)) s :=
  Reads.table (Reads.table reads_argumentRule) s

theorem reads_optionalText (s : Setting) :
    Reads optionalText? (fun s => s.IsText ∨ s = .null) ofOptionalText s := by
  refine ⟨by cases s <;> simp [optionalText?, IsText], fun content => ?_⟩
  cases s <;> cases content <;> simp [optionalText?, ofOptionalText]

end Setting

theorem ObjectForm.ofName?_eq_some_iff {name : String} {form : ObjectForm} :
    ofName? name = some form ↔ name = form.name := by
  constructor
  · intro h
    have hname := List.find?_some h
    exact (eq_of_beq hname).symm
  · rintro rfl
    exact ofName?_name form

/-- Object forms can also be written as tables, which are left aside here. -/
theorem Setting.reads_objectForm (dialect : Dialect) {s : Setting}
    (h : ∀ entries, s ≠ .table entries) :
    Reads (ObjectForm.ofSetting? dialect) IsObjectForm ObjectForm.toSetting s := by
  cases s with
  | table entries => exact (h entries rfl).elim
  | text name =>
    have heq : ∀ form, ObjectForm.ofSetting? dialect (.text name) = some form ↔
        Setting.text name = form.toSetting := by
      intro form
      simp [ObjectForm.ofSetting?, ObjectForm.toSetting, ObjectForm.ofName?_eq_some_iff]
    refine ⟨?_, heq⟩
    rw [Option.isSome_iff_exists]
    simp only [heq, IsObjectForm]
    constructor
    · rintro ⟨form, hform⟩
      cases form with
      | function => exact .inl hform
      | const => exact .inr hform
    · rintro (hform | hform)
      · exact ⟨.function, hform⟩
      · exact ⟨.const, hform⟩
  | _ => constructor <;> simp [ObjectForm.ofSetting?, IsObjectForm, ObjectForm.toSetting]

end ValidatorGen

import ValidatorGen.Proofs.Artifact.Uses
import ValidatorGen.Proofs.Target.Lines

/-! The order of declarations in a generated module. Declarations stand in the order of their
definitions, whatever refers to what. Where validators are constants, a validator is therefore
declared before its eager uses exactly if its definition comes first in the schema. -/
namespace ValidatorGen

open Text

/-- The first definition stands before the second one. -/
def Schema.Precedes (s : Schema) (d e : Definition) : Prop :=
  [d, e].Sublist s.definitions

theorem exists_append_of_pair_sublist {α : Type} {d e : α} {items : List α}
    (h : [d, e].Sublist items) :
    ∃ before between after, items = before ++ d :: (between ++ e :: after) := by
  obtain ⟨front, back, rfl, hd, he⟩ := List.cons_sublist_iff.mp h
  obtain ⟨before, between, rfl⟩ := List.append_of_mem hd
  obtain ⟨more, after, rfl⟩ := List.append_of_mem (List.singleton_sublist.mp he)
  exact ⟨before, between ++ more, after, by simp⟩

theorem eq_or_pair_sublist {α : Type} {d e : α} {items : List α} (hd : d ∈ items)
    (he : e ∈ items) : d = e ∨ [d, e].Sublist items ∨ [e, d].Sublist items := by
  induction items with
  | nil => cases hd
  | cons item rest ih =>
    rcases List.mem_cons.mp hd with rfl | hrest <;> rcases List.mem_cons.mp he with rfl | hrest'
    · exact Or.inl rfl
    · exact Or.inr (Or.inl ((List.singleton_sublist.mpr hrest').cons_cons d))
    · exact Or.inr (Or.inr ((List.singleton_sublist.mpr hrest).cons_cons e))
    · exact (ih hrest hrest').imp_right (Or.imp (·.cons item) (·.cons item))

/-- Separated blocks, seen from one of them. -/
theorem intercalate_append_cons (before : List String) (block : String) (after : List String) :
    "\n".intercalate (before ++ block :: after) =
      unlines before ++ "\n".intercalate (block :: after) := by
  induction before with
  | nil => simp
  | cons first before ih =>
    rw [List.cons_append, String.intercalate_cons_of_ne_nil (by simp), ih, unlines_cons]
    simp only [String.append_assoc]

theorem exists_intercalate_cons_eq (block : String) (after : List String) :
    ∃ rest, "\n".intercalate (block :: after) = block ++ rest := by
  cases after with
  | nil => exact ⟨"", by simp⟩
  | cons next after =>
    refine ⟨"\n" ++ "\n".intercalate (next :: after), ?_⟩
    rw [String.intercalate_cons_cons, String.append_assoc]

namespace Environment

/-- The content of the module before the declaration of the definition of a name. -/
def contentBefore (env : Environment) (name : String) : String :=
  let earlier := env.declared.takeWhile fun d => d.name != name
  "\n" ++ unlines
    (env.vocabulary.helpers.map Declaration.render ++ earlier.map fun d => (env.block d).text)

/-- The content has the emission as the declaration of a constant in the place of the definition. -/
structure DeclaresConst (env : Environment) (d : Definition) (emission : Emission) : Prop where
  emitted : (env.emission? d).value = some emission
  name : emission.name = env.names.validatorName d.name
  const : emission.IsConst
  placed : ∃ rest, env.artifact.value.content = env.contentBefore d.name ++ emission.text ++ rest

/-- The whole declaration of the first definition stands before that of the second one. -/
def DeclaredBefore (env : Environment) (d e : Definition) : Prop :=
  ∃ emission between, (env.emission? d).value = some emission ∧
    env.contentBefore e.name = env.contentBefore d.name ++ emission.text ++ between

variable {env : Environment}

theorem DeclaredBefore.length_lt {d e : Definition} (h : env.DeclaredBefore d e) :
    (env.contentBefore d.name).length < (env.contentBefore e.name).length := by
  obtain ⟨emission, between, hemission, hcontent⟩ := h
  obtain ⟨-, rfl⟩ := env.value_emission?_eq_some_iff.mp hemission
  have htext : 0 < (env.block d).text.length := by
    rw [block, Declaration.render_eq_block, String.length_append]
    exact Nat.add_pos_right _ (by decide)
  have hlength := congrArg String.length hcontent
  simp only [String.length_append] at hlength
  omega

theorem not_declaredBefore_self (d : Definition) : ¬ env.DeclaredBefore d d :=
  fun h => Nat.lt_irrefl _ h.length_lt

variable {s : Schema} (hindex : Index.ofSchema s = .ok env.index)
  (hs : s.NamesDistinct)
include hindex hs

theorem takeWhile_declared {d : Definition} {before after : List Definition}
    (h : s.declared env.settings = before ++ d :: after) :
    env.declared.takeWhile (fun e => e.name != d.name) = before := by
  have hnodup := hs.declared env.settings
  rw [h, List.map_append, List.map_cons] at hnodup
  have hbefore : ∀ e ∈ before, (e.name != d.name) = true := by
    intro e he
    have hne := (List.nodup_append.mp hnodup).2.2 e.name (List.mem_map_of_mem he) d.name
      List.mem_cons_self
    simpa using hne
  rw [declared_of_ofSchema hindex, h, List.takeWhile_append_of_pos hbefore,
    List.takeWhile_cons_of_neg (by simp), List.append_nil]

/-- The content from a declaration on. -/
theorem content_eq_contentBefore_append {d : Definition} {before after : List Definition}
    (hsplit : s.declared env.settings = before ++ d :: after) :
    env.artifact.value.content = env.contentBefore d.name ++
      "\n".intercalate ((env.block d).text :: after.map fun e => (env.block e).text) := by
  have hdeclared : env.declared = before ++ d :: after :=
    (declared_of_ofSchema hindex).trans hsplit
  have hblocks : (env.declared.map env.block).map Emission.text =
      (before.map fun e => (env.block e).text) ++
        (env.block d).text :: after.map fun e => (env.block e).text := by
    simp [hdeclared, Function.comp_def]
  rw [value_artifact]
  simp only [content]
  rw [hblocks, ← List.append_assoc, intercalate_append_cons, contentBefore,
    takeWhile_declared hindex hs hsplit, String.append_assoc]

theorem declaresConst_block (hform : env.settings.objectForm = .const) {d : Definition}
    (hd : d ∈ s.declared env.settings) : env.DeclaresConst d (env.block d) where
  emitted := env.value_emission?_eq_some_iff.mpr ⟨(Schema.mem_declared.mp hd).2, rfl⟩
  name := rfl
  const := env.isConst_block hform d
  placed := by
    obtain ⟨before, after, hsplit⟩ := List.append_of_mem hd
    obtain ⟨rest, hrest⟩ := exists_intercalate_cons_eq (env.block d).text
      (after.map fun e => (env.block e).text)
    refine ⟨rest, ?_⟩
    rw [content_eq_contentBefore_append hindex hs hsplit, hrest, String.append_assoc]

theorem declaredBefore_of_pair_sublist {d e : Definition}
    (h : [d, e].Sublist (s.declared env.settings)) : env.DeclaredBefore d e := by
  obtain ⟨before, between, after, hsplit⟩ := exists_append_of_pair_sublist h
  have hsplit' : s.declared env.settings = (before ++ d :: between) ++ e :: after := by
    rw [hsplit, List.append_assoc, List.cons_append]
  have hd := takeWhile_declared hindex hs hsplit
  have he := takeWhile_declared hindex hs hsplit'
  have hdeclares := (Schema.mem_declared.mp (h.subset List.mem_cons_self)).2
  refine ⟨env.block d, "\n" ++ unlines (between.map fun d => (env.block d).text),
    env.value_emission?_eq_some_iff.mpr ⟨hdeclares, rfl⟩, ?_⟩
  simp only [contentBefore, hd, he, List.map_append, List.map_cons, unlines_append, unlines_cons,
    String.append_assoc]

/-- Declarations stand in the order of the definitions. -/
theorem declaredBefore_iff {d e : Definition} (hd : d ∈ s.declared env.settings)
    (he : e ∈ s.declared env.settings) : env.DeclaredBefore d e ↔ s.Precedes d e := by
  constructor
  · intro h
    rcases eq_or_pair_sublist hd he with rfl | hsub | hsub
    · exact (not_declaredBefore_self d h).elim
    · exact hsub.trans List.filter_sublist
    · have hreverse := (declaredBefore_of_pair_sublist hindex hs hsub).length_lt
      exact absurd h.length_lt (Nat.lt_asymm hreverse)
  · intro h
    apply declaredBefore_of_pair_sublist hindex hs
    have hkept : [d, e].filter (fun a => env.settings.declares a.kind) = [d, e] := by
      simp [(Schema.mem_declared.mp hd).2, (Schema.mem_declared.mp he).2]
    rw [← hkept]
    exact List.Sublist.filter _ h

end Environment

/-- Where validators are constants and objects are emitted, every declared definition is declared in
the content as a constant of its own name. A validator that a declaration refers to outside of
deferred expressions is declared under the name that is used. Its declaration stands earlier in the
content exactly if its definition precedes the one that refers to it. -/
theorem constants_declared_in_order {s : Schema} (hs : s.NamesDistinct) {settings : Settings}
    (hform : settings.objectForm = .const) (hobjects : settings.emitObjects = true)
    (vocabulary : Vocabulary) (names : NamingScheme) :
    ∃ index, Index.ofSchema s = .ok index ∧
      let env : Environment := { index, settings, vocabulary, names }
      (∀ field, (env.fieldExpr field).value = (env.fieldTree field).spell env) ∧
      (∀ d ∈ s.declared settings, ∃ emission, env.DeclaresConst d emission) ∧
      (∀ d e, env.UsesEagerly d e ↔
        d ∈ s.declared settings ∧ e ∈ s.definitions ∧
          (e.kind = .enumeration ∨ e.kind = .object) ∧ d.RefersTo e.name) ∧
      ∀ d e, env.UsesEagerly d e →
        (∃ emission, env.DeclaresConst e emission ∧
          (env.reference e.name).value.expr = emission.name) ∧
        (env.DeclaredBefore e d ↔ s.Precedes e d) := by
  obtain ⟨index, hindex⟩ := Index.exists_ofSchema hs
  refine ⟨index, hindex, ?_⟩
  intro env
  have henv : Index.ofSchema s = .ok env.index := hindex
  refine ⟨fun field => (env.spell_fieldTree field).symm, ?_, ?_, ?_⟩
  · intro d hd
    exact ⟨env.block d, Environment.declaresConst_block henv hs hform hd⟩
  · intro d e
    exact Environment.usesEagerly_iff henv hs
  · intro d e h
    obtain ⟨hd, he, hkinds, -⟩ := (Environment.usesEagerly_iff henv hs).mp h
    have hkind : env.kindOf e.name = e.kind := Environment.kindOf_of_mem henv hs he
    have hdeclared : e ∈ s.declared settings := by
      refine Schema.mem_declared.mpr ⟨he, ?_⟩
      rcases hkinds with henum | hobject
      · rw [henum]
        rfl
      · rw [hobject]
        exact hobjects
    have hexpr : (env.reference e.name).value.expr = names.validatorName e.name := by
      rcases hkinds with henum | hobject
      · exact env.expr_reference_enumeration (hkind.trans henum)
      · rw [env.expr_reference_object (Or.inr (hkind.trans hobject)), Environment.objectReference]
        simp only [env, hform]
    exact ⟨⟨env.block e, Environment.declaresConst_block henv hs hform hdeclared, hexpr⟩,
      Environment.declaredBefore_iff henv hs hdeclared hd⟩

/-- An object that refers to the enumeration before it and to itself. -/
theorem constants_declared_in_order_paint :
    let tint : Field := { name := "tint", type := .nonNull (.named "Color") }
    let next : Field := { name := "next", type := .list (.named "Paint") }
    let color : Definition := { name := "Color", body := .enumeration ["RED"] }
    let paint : Definition := { name := "Paint", body := .object [tint, next] }
    let s : Schema := { definitions := [color, paint] }
    let settings : Settings := { objectForm := .const }
    s.NamesDistinct ∧ settings.objectForm = .const ∧ settings.emitObjects = true ∧
      ∃ index, Index.ofSchema s = .ok index ∧
        let env : Environment := ⟨index, settings, zod, .ofSettings settings⟩
        (env.UsesEagerly paint color ∧ env.DeclaredBefore color paint ∧
          ∃ emission, env.DeclaresConst color emission ∧ emission.name = "ColorSchema") ∧
        env.UsesEagerly paint paint ∧ ¬ env.DeclaredBefore paint paint := by
  intro tint next color paint s settings
  have hs : s.NamesDistinct := by simp [Schema.NamesDistinct, s, color, paint]
  have hform : settings.objectForm = .const := rfl
  obtain ⟨index, hindex, -, -, huses, horder⟩ :=
    constants_declared_in_order hs hform rfl zod (.ofSettings settings)
  have hdeclared : paint ∈ s.declared settings :=
    Schema.mem_declared.mpr ⟨by simp [s], rfl⟩
  have hcolor := (huses paint color).mpr
    ⟨hdeclared, by simp [s], Or.inl rfl, tint, by simp [paint, Definition.fields, Body.fields],
      by decide, rfl⟩
  have hpaint := (huses paint paint).mpr
    ⟨hdeclared, by simp [s], Or.inr rfl, next, by simp [paint, Definition.fields, Body.fields],
      by decide, rfl⟩
  obtain ⟨⟨emission, hconst, -⟩, hbefore⟩ := horder paint color hcolor
  have hname : (NamingScheme.ofSettings settings).validatorName "Color" = "ColorSchema" := by decide
  exact ⟨hs, hform, rfl, index, hindex,
    ⟨hcolor, hbefore.mpr (List.Sublist.refl _), emission, hconst, hconst.name.trans hname⟩, hpaint,
    Environment.not_declaredBefore_self paint⟩

/-- A constant that uses the validator of an enumeration, which is declared after it. -/
theorem constant_used_before_declaration :
    let tint : Field := { name := "tint", type := .nonNull (.named "Color") }
    let paint : Definition := { name := "Paint", body := .object [tint] }
    let color : Definition := { name := "Color", body := .enumeration ["RED"] }
    let s : Schema := { definitions := [paint, color] }
    let settings : Settings := { objectForm := .const }
    s.NamesDistinct ∧ settings.objectForm = .const ∧ settings.emitObjects = true ∧
      ∃ index, Index.ofSchema s = .ok index ∧
        let env : Environment := ⟨index, settings, zod, .ofSettings settings⟩
        env.artifact.value.content = env.contentBefore "Paint" ++ unlines
          ["export const PaintSchema: z.ZodObject<Properties<Paint>> = z.object(\x7b",
            "  __typename: z.literal('Paint').optional(),",
            "  tint: ColorSchema",
            "\x7d);",
            "",
            "export const ColorSchema = z.nativeEnum(Color);"] ∧
          env.UsesEagerly paint color ∧ env.DeclaredBefore paint color ∧
          ¬ env.DeclaredBefore color paint := by
  intro tint paint color s settings
  have hs : s.NamesDistinct := by simp [Schema.NamesDistinct, s, color, paint]
  obtain ⟨index, hindex⟩ := Index.exists_ofSchema hs
  refine ⟨hs, rfl, rfl, index, hindex, ?_⟩
  intro env
  have henv : Index.ofSchema s = .ok env.index := hindex
  have hkind : env.kindOf "Color" = .enumeration := Environment.kindOf_eq_kindOf henv "Color"
  have htint : (env.fieldExpr tint).value = "ColorSchema" := by
    have hname : env.names.validatorName "Color" = "ColorSchema" := by
      show (NamingScheme.ofSettings {}).validatorName "Color" = "ColorSchema"
      decide
    have htree : env.fieldTree tint = .constrained (.named "Color") [] := by
      show env.namedTree tint .nonNull "Color" = _
      rw [Environment.namedTree, if_neg (by simp [hkind])]
      rfl
    rw [← env.spell_fieldTree, htree, Expression.spell, Expression.spell,
      env.expr_reference_enumeration hkind, hname]
    rfl
  have hpaint : paint ∈ s.declared settings := Schema.mem_declared.mpr ⟨by simp [s], rfl⟩
  have hcolor : color ∈ s.declared settings := Schema.mem_declared.mpr ⟨by simp [s], rfl⟩
  have hbefore : env.DeclaredBefore paint color :=
    (Environment.declaredBefore_iff henv hs hpaint hcolor).mpr (List.Sublist.refl _)
  refine ⟨?_, ?_, hbefore, fun h => Nat.lt_asymm h.length_lt hbefore.length_lt⟩
  · have hentries : env.entries paint =
        ["__typename: z.literal('Paint').optional()", "tint: ColorSchema"] := by
      show [entry "__typename" (zod.typenameTag "Paint"),
        entry "tint" (env.fieldExpr tint).value] = _
      rw [htint]
      decide
    have hstart : Unbroken zod.objectStart := by decide
    have htext :=
      Environment.text_block_eq_unlines (d := paint) (by decide) hstart hentries (by decide)
    let plain : Environment := ⟨⟨{}, ∅⟩, settings, zod, .ofSettings settings⟩
    have hlines : plain.objectLines "Paint"
        ["__typename: z.literal('Paint').optional()", "tint: ColorSchema"] =
          ["export const PaintSchema: z.ZodObject<Properties<Paint>> = z.object(\x7b",
            "  __typename: z.literal('Paint').optional(),",
            "  tint: ColorSchema",
            "\x7d);"] := by decide
    have henum : (plain.declareEnum "Color" ["RED"]).render =
        "export const ColorSchema = z.nativeEnum(Color);\n" := by decide
    have hcolorText : (env.block color).text =
        "export const ColorSchema = z.nativeEnum(Color);\n" := henum
    have hsplit : s.declared settings = [] ++ paint :: [color] := rfl
    rw [Environment.content_eq_contentBefore_append henv hs hsplit,
      htext.trans (congrArg unlines hlines), List.map_singleton, hcolorText,
      String.intercalate_cons_cons, String.intercalate_singleton]
    simp [paint]
  · exact (Environment.usesEagerly_iff henv hs).mpr
      ⟨hpaint, by simp [s], Or.inl rfl, tint, by simp [paint, Definition.fields, Body.fields],
        by decide, rfl⟩

end ValidatorGen

import StyleVariants.Proofs.CompileSchedule
import StyleVariants.Proofs.OnePassCompilation

/-!
# Refused recipes

A recipe is refused iff an axis belongs to two groups or a style that must be a rule is a class
reference, and the error is the first offence in the order in which recipes are read. A refused
recipe leaves no call and no change behind. An accepted one has no offence left to be found on
the way.
-/
namespace StyleVariants

inductive Style.IsReference : Style → Prop
  | one (className : String) : IsReference (.reference className)
  | many (classNames : List String) : IsReference (.references classNames)

namespace Recipe

def Overlaps (r : Recipe) : Prop :=
  ∃ axis, axis ∈ r.regular.keys ∧ axis ∈ r.responsive.keys ∨
    axis ∈ r.regular.keys ∧ axis ∈ r.inline.keys ∨
    axis ∈ r.responsive.keys ∧ axis ∈ r.inline.keys

def OptionReference (axes : Axes Style) : Prop :=
  ∃ axis options option style, axes.get? axis = some options ∧
    options.get? option = some style ∧ style.IsReference

/-- A style that must be a rule is a class reference. -/
def HasReference (r : Recipe) : Prop :=
  OptionReference r.regular ∨ OptionReference r.responsive ∨
    ∃ compound ∈ r.compounds, compound.style.IsReference

def groupStyles (group : String) (axes : Axes Style) : List (String × Style) :=
  axes.entries.flatMap fun (axis, options) => options.entries.map fun (option, style) =>
    (group ++ "." ++ axis ++ "." ++ option, style)

def compoundStyles (index : Nat) (compounds : List Compound) : List (String × Style) :=
  (compounds.zipIdx index).map fun (compound, i) =>
    ("compoundVariants[" ++ toString i ++ "].style", compound.style)

def styles (r : Recipe) : List (String × Style) :=
  groupStyles "variants" r.regular ++ groupStyles "responsiveVariants" r.responsive ++
    compoundStyles 0 r.compounds

/-- What is wrong first with a recipe: the first axis that was declared before, with the groups
of both declarations; if there is none, the location of the first reference. -/
inductive FirstOffence (r : Recipe) : RecipeError → Prop
  | overlap {before after : List (String × String)} {axis first second : String}
      (haxes : r.axes = before ++ (axis, second) :: after) (hnew : (before.map Prod.fst).Nodup)
      (hfirst : (axis, first) ∈ before) : FirstOffence r (.overlappingAxis axis first second)
  | reference {before after : List (String × Style)} {location : String} {style : Style}
      (haxes : (r.axes.map Prod.fst).Nodup)
      (hstyles : r.styles = before ++ (location, style) :: after)
      (hrules : ∀ e ∈ before, ¬ e.2.IsReference) (hstyle : style.IsReference) :
      FirstOffence r (.classReference location)

end Recipe

section Errors
variable {ε κ α β : Type}

def errorOf? : Except ε α → Option ε
  | .ok _ => none
  | .error error => some error

theorem errorOf?_eq_some_iff {x : Except ε α} {error : ε} :
    errorOf? x = some error ↔ x = .error error := by
  cases x <;> simp [errorOf?]

theorem errorOf?_bind {x : Except ε α} {f : α → Except ε β} {rest : Option ε}
    (h : ∀ a, errorOf? (f a) = rest) : errorOf? (x >>= f) = (errorOf? x).or rest := by
  cases x with
  | error error => rfl
  | ok a => exact h a

theorem errorOf?_bind_pure (x : Except ε α) (f : α → β) :
    errorOf? (x >>= fun a => pure (f a)) = errorOf? x := by
  cases x <;> rfl

theorem findSome?_flatMap {γ : Type} (f : β → Option γ) (g : α → List β) (l : List α) :
    (l.flatMap g).findSome? f = l.findSome? fun a => (g a).findSome? f := by
  induction l with
  | nil => rfl
  | cons a rest ih =>
      rw [List.flatMap_cons, List.findSome?_append, ih, List.findSome?_cons]
      cases (g a).findSome? f <;> rfl

theorem Entries.errorOf?_mapM (f : κ → α → Except ε β) (es : List (κ × α)) :
    errorOf? (Entries.mapM f es) = es.findSome? fun e => errorOf? (f e.1 e.2) := by
  induction es with
  | nil => rfl
  | cons e rest ih =>
      obtain ⟨k, a⟩ := e
      have hbind : errorOf? (Entries.mapM f ((k, a) :: rest)) =
          (errorOf? (f k a)).or (errorOf? (Entries.mapM f rest)) := by
        exact errorOf?_bind fun b => errorOf?_bind_pure _ _
      rw [hbind, ih, List.findSome?_cons]
      cases errorOf? (f k a) <;> rfl

theorem OrderedMap.errorOf?_mapM (f : κ → α → Except ε β) (m : OrderedMap κ α) :
    errorOf? (m.mapM f) = m.entries.findSome? fun e => errorOf? (f e.1 e.2) := by
  rw [← Entries.errorOf?_mapM]
  exact errorOf?_bind_pure _ _

end Errors

namespace Recipe

def referenceAt? (e : String × Style) : Option RecipeError := errorOf? (e.2.ruleAt e.1)

theorem referenceAt?_of_isReference {e : String × Style} (h : e.2.IsReference) :
    referenceAt? e = some (.classReference e.1) := by
  obtain ⟨location, style⟩ := e
  cases h with
  | one className => rfl
  | many classNames => rfl

theorem referenceAt?_eq_none_iff {e : String × Style} :
    referenceAt? e = none ↔ ¬ e.2.IsReference := by
  obtain ⟨location, style⟩ := e
  constructor
  · intro hnone hreference
    rw [referenceAt?_of_isReference hreference] at hnone
    cases hnone
  · intro hrule
    cases style with
    | reference className => exact (hrule (.one className)).elim
    | references classNames => exact (hrule (.many classNames)).elim
    | rule rule => rfl

theorem referenceAt?_eq_some_iff {e : String × Style} {error : RecipeError} :
    referenceAt? e = some error ↔ e.2.IsReference ∧ error = .classReference e.1 := by
  constructor
  · intro hsome
    have hreference : e.2.IsReference := by
      by_contra hrule
      rw [referenceAt?_eq_none_iff.2 hrule] at hsome
      cases hsome
    rw [referenceAt?_of_isReference hreference] at hsome
    exact ⟨hreference, (Option.some.inj hsome).symm⟩
  · rintro ⟨hreference, rfl⟩
    exact referenceAt?_of_isReference hreference

theorem errorOf?_groupRules (group : String) (axes : Axes Style) :
    errorOf? (groupRules group axes) = (groupStyles group axes).findSome? referenceAt? := by
  have haxis : ∀ e : String × OrderedMap String Style,
      errorOf? (e.2.mapM fun option style => style.ruleAt (group ++ "." ++ e.1 ++ "." ++ option)) =
        (e.2.entries.map fun (option, style) =>
          (group ++ "." ++ e.1 ++ "." ++ option, style)).findSome? referenceAt? := by
    intro e
    rw [OrderedMap.errorOf?_mapM, List.findSome?_map]
    rfl
  rw [groupRules, OrderedMap.errorOf?_mapM, groupStyles, findSome?_flatMap]
  simp only [haxis]

theorem errorOf?_compoundRules (index : Nat) (compounds : List Compound) :
    errorOf? (compoundRules index compounds) =
      (compoundStyles index compounds).findSome? referenceAt? := by
  induction compounds generalizing index with
  | nil => rfl
  | cons compound rest ih =>
      let location := "compoundVariants[" ++ toString index ++ "].style"
      have hbind : errorOf? (compoundRules index (compound :: rest)) =
          (referenceAt? (location, compound.style)).or
            (errorOf? (compoundRules (index + 1) rest)) := by
        exact errorOf?_bind fun rule => errorOf?_bind_pure _ _
      have hstyles : compoundStyles index (compound :: rest) =
          (location, compound.style) :: compoundStyles (index + 1) rest := rfl
      rw [hbind, hstyles, List.findSome?_cons, ih]
      cases referenceAt? (location, compound.style) <;> rfl

theorem errorOf?_blueprint (family : RecipeDefaults) (r : Recipe) :
    errorOf? (r.blueprint family) =
      (firstOverlap? [] r.axes).or (r.styles.findSome? referenceAt?) := by
  unfold blueprint
  cases hoverlap : firstOverlap? [] r.axes with
  | some error => rfl
  | none =>
      rw [Option.none_or, styles, List.findSome?_append, List.findSome?_append,
        ← errorOf?_groupRules, ← errorOf?_groupRules, ← errorOf?_compoundRules, Option.or_assoc]
      exact errorOf?_bind fun regular => errorOf?_bind fun responsive => errorOf?_bind_pure _ _

/-- An overlap is reported for the first axis that was seen or declared before, with the group
of that occurrence. -/
theorem firstOverlap?_eq_some_iff {seen axes : List (String × String)} {error : RecipeError}
    (hseen : (seen.map Prod.fst).Nodup) :
    firstOverlap? seen axes = some error ↔ ∃ before after axis first second,
      axes = before ++ (axis, second) :: after ∧ ((before ++ seen).map Prod.fst).Nodup ∧
      (axis, first) ∈ before ++ seen ∧ error = .overlappingAxis axis first second := by
  induction axes generalizing seen with
  | nil => simp [firstOverlap?]
  | cons e rest ih =>
      obtain ⟨axis, group⟩ := e
      cases hget : Entries.get? axis seen with
      | some first =>
          simp only [firstOverlap?, hget, Option.some.injEq]
          constructor
          · rintro rfl
            exact ⟨[], rest, axis, first, group, rfl, hseen, Entries.mem_of_get? hget, rfl⟩
          · rintro ⟨before, after, axis', first', second, hsplit, hnew, hfirst, rfl⟩
            cases before with
            | nil =>
                cases hsplit
                have hfound := (Entries.get?_eq_some_iff hseen).2 hfirst
                rw [Option.some.inj (hget.symm.trans hfound)]
            | cons e before =>
                -- the axis would be new, and was seen
                cases hsplit
                have hmem : axis ∈ (before ++ seen).map Prod.fst :=
                  List.mem_map_of_mem (List.mem_append_right before (Entries.mem_of_get? hget))
                exact ((List.nodup_cons.1 hnew).1 hmem).elim
      | none =>
          have hnew : axis ∉ seen.map Prod.fst := Entries.get?_eq_none_iff.1 hget
          have hperm : ∀ before : List (String × String),
              (before ++ (axis, group) :: seen).Perm ((axis, group) :: before ++ seen) :=
            fun before => List.perm_middle
          have hnodup : (((axis, group) :: seen).map Prod.fst).Nodup :=
            List.nodup_cons.2 ⟨hnew, hseen⟩
          simp only [firstOverlap?, hget]
          rw [ih hnodup]
          constructor
          · rintro ⟨before, after, axis', first, second, rfl, hnodup, hfirst, herror⟩
            exact ⟨(axis, group) :: before, after, axis', first, second, rfl,
              ((hperm before).map Prod.fst).nodup_iff.1 hnodup, (hperm before).mem_iff.1 hfirst,
              herror⟩
          · rintro ⟨before, after, axis', first, second, hsplit, hnodup, hfirst, herror⟩
            cases before with
            | nil =>
                cases hsplit
                exact (hnew (List.mem_map_of_mem hfirst)).elim
            | cons e before =>
                cases hsplit
                exact ⟨before, after, axis', first, second, rfl,
                  ((hperm before).map Prod.fst).nodup_iff.2 hnodup,
                  (hperm before).mem_iff.2 hfirst, herror⟩

theorem nodup_axes_iff {r : Recipe} : (r.axes.map Prod.fst).Nodup ↔ ¬ r.Overlaps := by
  have hkeys : r.axes.map Prod.fst = r.regular.keys ++ r.responsive.keys ++ r.inline.keys := by
    simp [axes, Function.comp_def]
  have hregular : r.regular.keys.Nodup := r.regular.nodup_keys
  have hresponsive : r.responsive.keys.Nodup := r.responsive.nodup_keys
  have hinline : r.inline.keys.Nodup := r.inline.nodup_keys
  rw [hkeys, List.nodup_append, List.nodup_append, Overlaps]
  constructor
  · rintro ⟨⟨-, -, hfirst⟩, -, hlast⟩ ⟨axis, ⟨ha, hb⟩ | ⟨ha, hb⟩ | ⟨ha, hb⟩⟩
    · exact hfirst axis ha axis hb rfl
    · exact hlast axis (List.mem_append_left _ ha) axis hb rfl
    · exact hlast axis (List.mem_append_right _ ha) axis hb rfl
  · intro hnone
    refine ⟨⟨hregular, hresponsive, fun a ha b hb hab => ?_⟩, hinline, fun a ha b hb hab => ?_⟩
    · subst hab
      exact hnone ⟨a, .inl ⟨ha, hb⟩⟩
    · subst hab
      rcases List.mem_append.1 ha with ha | ha
      · exact hnone ⟨a, .inr (.inl ⟨ha, hb⟩)⟩
      · exact hnone ⟨a, .inr (.inr ⟨ha, hb⟩)⟩

theorem exists_groupStyles_iff {group : String} {axes : Axes Style} :
    (∃ e ∈ groupStyles group axes, e.2.IsReference) ↔ OptionReference axes := by
  constructor
  · rintro ⟨e, he, hreference⟩
    obtain ⟨⟨axis, options⟩, haxis, he⟩ := List.mem_flatMap.1 he
    obtain ⟨⟨option, style⟩, hoption, rfl⟩ := List.mem_map.1 he
    exact ⟨axis, options, option, style, OrderedMap.get?_eq_some_iff.2 haxis,
      OrderedMap.get?_eq_some_iff.2 hoption, hreference⟩
  · rintro ⟨axis, options, option, style, haxis, hoption, hreference⟩
    refine ⟨(group ++ "." ++ axis ++ "." ++ option, style), ?_, hreference⟩
    exact List.mem_flatMap.2 ⟨(axis, options), OrderedMap.get?_eq_some_iff.1 haxis,
      List.mem_map.2 ⟨(option, style), OrderedMap.get?_eq_some_iff.1 hoption, rfl⟩⟩

theorem exists_compoundStyles_iff {index : Nat} {compounds : List Compound} :
    (∃ e ∈ compoundStyles index compounds, e.2.IsReference) ↔
      ∃ compound ∈ compounds, compound.style.IsReference := by
  induction compounds generalizing index with
  | nil => simp [compoundStyles]
  | cons compound rest ih =>
      have hstyles : compoundStyles index (compound :: rest) =
          ("compoundVariants[" ++ toString index ++ "].style", compound.style) ::
            compoundStyles (index + 1) rest := rfl
      simp only [hstyles, List.mem_cons, exists_eq_or_imp, ih]

theorem hasReference_iff {r : Recipe} :
    r.HasReference ↔ ∃ e ∈ r.styles, e.2.IsReference := by
  simp only [styles, List.mem_append, or_and_right, exists_or]
  rw [exists_groupStyles_iff, exists_groupStyles_iff, exists_compoundStyles_iff, HasReference,
    or_assoc]

theorem firstOffence_iff {r : Recipe} {error : RecipeError} :
    r.FirstOffence error ↔ firstOverlap? [] r.axes = some error ∨
      firstOverlap? [] r.axes = none ∧ r.styles.findSome? referenceAt? = some error := by
  have hnil : (([] : List (String × String)).map Prod.fst).Nodup := List.nodup_nil
  rw [firstOverlap?_eq_some_iff hnil, firstOverlap?_eq_none_iff, List.findSome?_eq_some_iff]
  simp only [List.append_nil]
  constructor
  · intro h
    cases h with
    | @overlap before after axis first second haxes hnew hfirst =>
        exact .inl ⟨before, after, axis, first, second, haxes, hnew, hfirst, rfl⟩
    | @reference before after location style haxes hstyles hrules hstyle =>
        refine .inr ⟨⟨haxes, nofun⟩, before, (location, style), after, hstyles, ?_, ?_⟩
        · exact referenceAt?_eq_some_iff.2 ⟨hstyle, rfl⟩
        · exact fun e he => referenceAt?_eq_none_iff.2 (hrules e he)
  · rintro (⟨before, after, axis, first, second, haxes, hnew, hfirst, rfl⟩ |
      ⟨⟨haxes, -⟩, before, e, after, hstyles, hsome, hnone⟩)
    · exact .overlap haxes hnew hfirst
    · obtain ⟨hstyle, rfl⟩ := referenceAt?_eq_some_iff.1 hsome
      exact .reference haxes hstyles (fun e he => referenceAt?_eq_none_iff.1 (hnone e he)) hstyle

theorem blueprint_eq_error_iff {family : RecipeDefaults} {r : Recipe} {error : RecipeError} :
    r.blueprint family = .error error ↔ r.FirstOffence error := by
  rw [← errorOf?_eq_some_iff, errorOf?_blueprint, firstOffence_iff, Option.or_eq_some_iff]

theorem exists_firstOffence_iff {r : Recipe} :
    (∃ error, r.FirstOffence error) ↔ r.Overlaps ∨ r.HasReference := by
  have hoverlaps : r.Overlaps ↔ firstOverlap? [] r.axes ≠ none := by
    rw [Ne, firstOverlap?_eq_none_iff, nodup_axes_iff]
    simp
  have hreference : r.HasReference ↔ r.styles.findSome? referenceAt? ≠ none := by
    rw [hasReference_iff, Ne, List.findSome?_eq_none_iff]
    simp only [referenceAt?_eq_none_iff]
    push Not
    rfl
  simp only [firstOffence_iff, hoverlaps, hreference]
  cases firstOverlap? [] r.axes with
  | some error => simp
  | none => simp [-List.findSome?_eq_none_iff, Option.ne_none_iff_exists']

section Compile
variable {σ : Type} {family : RecipeDefaults} {r : Recipe}

theorem compile_of_blueprint_eq_error {error : RecipeError}
    (h : r.blueprint family = .error error) (b : Backend σ) (debugId : Option String) (s : σ) :
    r.compile family b debugId s = (.error error, s) := by
  rw [Recipe.compile, h]
  rfl

theorem compile_of_blueprint_eq_ok {plan : Blueprint} (h : r.blueprint family = .ok plan)
    (b : Backend σ) (debugId : Option String) (s : σ) :
    r.compile family b debugId s =
      (.ok (plan.compile b debugId s).1, (plan.compile b debugId s).2) := by
  rw [Recipe.compile, h]
  rfl

theorem compile_eq_error_iff {b : Backend σ} {debugId : Option String} {s : σ}
    {error : RecipeError} :
    (r.compile family b debugId s).1 = .error error ↔ r.FirstOffence error := by
  have hrefused : r.blueprint family = .error error ↔ r.FirstOffence error :=
    blueprint_eq_error_iff
  rw [← hrefused]
  cases hplan : r.blueprint family with
  | error first => rw [compile_of_blueprint_eq_error hplan, Except.error.injEq, Except.error.injEq]
  | ok plan => simp [compile_of_blueprint_eq_ok hplan]

/-- Checking every style of an accepted recipe again on the way changes nothing. -/
theorem compileInOnePass_of_compile {b : Backend σ} {debugId : Option String} {s : σ}
    {compiled : CompiledRecipe} (h : (r.compile family b debugId s).1 = .ok compiled) :
    (r.compileInOnePass family b debugId).run s = r.compile family b debugId s := by
  cases hplan : r.blueprint family with
  | error error =>
      rw [compile_of_blueprint_eq_error hplan] at h
      cases h
  | ok plan =>
      obtain ⟨tables, hrun, htables⟩ :=
        (restates_of_blueprint hplan).compileInOnePass b debugId s
      rw [hrun, compile_of_blueprint_eq_ok hplan, htables]

end Compile

/-- A recipe is refused iff an axis belongs to two groups or a style that must be a rule is a
class reference, and the error is what is wrong with it first. A refused recipe leaves the backend
in its state, without a call. For an accepted one it makes no difference to check every style
again right before it is named: no check fails, and the calls and the tables are the same. -/
theorem compile_refuses_first_offence {σ : Type} (r : Recipe) (family : RecipeDefaults)
    (b : Backend σ) (debugId : Option String) (s : σ) :
    let outcome := r.compile family b.recorded debugId (s, [])
    ((∃ error, outcome.1 = .error error) ↔ r.Overlaps ∨ r.HasReference) ∧
    (∀ error, outcome.1 = .error error ↔ r.FirstOffence error) ∧
    (∀ error, outcome.1 = .error error → outcome.2 = (s, [])) ∧
    ∀ compiled, outcome.1 = .ok compiled →
      (r.compileInOnePass family b.recorded debugId).run (s, []) = outcome := by
  intro outcome
  have herror : ∀ error, outcome.1 = .error error ↔ r.FirstOffence error :=
    fun error => compile_eq_error_iff
  refine ⟨?_, herror, fun error hrefused => ?_, fun compiled => compileInOnePass_of_compile⟩
  · simp only [herror, exists_firstOffence_iff]
  · have hplan : r.blueprint family = .error error :=
      blueprint_eq_error_iff.2 ((herror error).1 hrefused)
    exact congrArg Prod.snd (compile_of_blueprint_eq_error hplan _ _ _)

def misplaced : Recipe where
  regular := .ofList [("size", .ofList [("small", .rule ∅), ("large", .reference "large")])]
  responsive := .ofList [("color", .ofList [("red", .rule ∅)])]
  inline := .ofList [("color", { property := "color" })]

theorem compile_refuses_first_offence_misplaced :
    misplaced.FirstOffence (.overlappingAxis "color" "responsiveVariants" "inlineVariants") ∧
    (misplaced.compile {} labelling.recorded none (((), 0), [])).2 = (((), 0), []) := by
  have h := compile_refuses_first_offence misplaced {} labelling none ((), 0)
  exact ⟨(h.2.1 _).1 rfl, h.2.2.1 _ rfl⟩

/-- In one pass the first class is requested before an offence is found. -/
example : ((misplaced.compileInOnePass {} labelling.recorded none).run (((), 0), [])).2.2.length =
    2 := rfl

end Recipe
end StyleVariants

import StyleVariants.Selection
import StyleVariants.Stylesheet
import StyleVariants.StyleRule.Lemmas
import StyleVariants.Proofs.StoredRecipes

/-!
# Documents that come back as they were written

Recipes, selections, styles and rules are read back from their texts as themselves: every value in
the same shape, every unset part unset in the same way, every map in the same order. A reader of a
rule is told how many containers may still be nested, so what is written must not nest more of them
than a document may; and its doubles must read back, which the quick way of reading does not grant.
-/
namespace StyleVariants

namespace Json

mutual

def nesting : Json → Nat
  | .array items => nestingOfItems items + 1
  | .object members => nestingOfMembers members + 1
  | _ => 0

def nestingOfItems : List Json → Nat
  | [] => 0
  | item :: items => max item.nesting (nestingOfItems items)

def nestingOfMembers : List (String × Json) → Nat
  | [] => 0
  | (_, value) :: members => max value.nesting (nestingOfMembers members)

end

mutual

def numbers : Json → List Number
  | .number n => [n]
  | .array items => numbersOfItems items
  | .object members => numbersOfMembers members
  | _ => []

def numbersOfItems : List Json → List Number
  | [] => []
  | item :: items => item.numbers ++ numbersOfItems items

def numbersOfMembers : List (String × Json) → List Number
  | [] => []
  | (_, value) :: members => value.numbers ++ numbersOfMembers members

end

/-- A document that can be stored as a text: it nests no more containers than a document may, and
every double in it reads back. -/
structure Storable (doc : Json) : Prop where
  nesting_le : doc.nesting ≤ maxNesting
  readsBack : ∀ d, .double d ∈ doc.numbers → (Number.double d).ReadsBack

theorem nestingOfItems_le_iff {items : List Json} {n : Nat} :
    nestingOfItems items ≤ n ↔ ∀ item ∈ items, item.nesting ≤ n := by
  induction items with
  | nil => simp [nestingOfItems]
  | cons item items ih => rw [nestingOfItems, Nat.max_le, ih, List.forall_mem_cons]

theorem nestingOfMembers_le_iff {members : List (String × Json)} {n : Nat} :
    nestingOfMembers members ≤ n ↔ ∀ member ∈ members, member.2.nesting ≤ n := by
  induction members with
  | nil => simp [nestingOfMembers]
  | cons member members ih => rw [nestingOfMembers, Nat.max_le, ih, List.forall_mem_cons]

theorem nesting_object_le_iff {members : List (String × Json)} {n : Nat} :
    (object members).nesting ≤ n + 1 ↔ ∀ member ∈ members, member.2.nesting ≤ n := by
  rw [nesting, Nat.add_le_add_iff_right, nestingOfMembers_le_iff]

theorem nesting_ofList_le_iff {α : Type} {f : α → Json} {items : List α} {n : Nat} :
    (ofList f items).nesting ≤ n + 1 ↔ ∀ a ∈ items, (f a).nesting ≤ n := by
  rw [ofList, nesting, Nat.add_le_add_iff_right, nestingOfItems_le_iff, List.forall_mem_map]

theorem nesting_ofMap_le_iff {α : Type} {f : α → Json} {m : OrderedMap String α} {n : Nat} :
    (ofMap f m).nesting ≤ n + 1 ↔ ∀ e ∈ m.entries, (f e.2).nesting ≤ n := by
  rw [ofMap, ofKeyed, nesting_object_le_iff, List.forall_mem_map]

theorem mem_numbersOfItems {items : List Json} {n : Number} :
    n ∈ numbersOfItems items ↔ ∃ item ∈ items, n ∈ item.numbers := by
  induction items with
  | nil => simp [numbersOfItems]
  | cons item items ih => simp [numbersOfItems, ih]

theorem mem_numbersOfMembers {members : List (String × Json)} {n : Number} :
    n ∈ numbersOfMembers members ↔ ∃ member ∈ members, n ∈ member.2.numbers := by
  induction members with
  | nil => simp [numbersOfMembers]
  | cons member members ih => simp [numbersOfMembers, ih]

/-- A document of which only a number can fail to read back. -/
def Valued (doc : Json) : Prop := (∀ n ∈ doc.numbers, n.ReadsBack) → doc.Readable

theorem valued_number (n : Number) : (number n).Valued := fun h => h n (List.mem_singleton_self n)

theorem valued_array {items : List Json} (h : ∀ item ∈ items, item.Valued) :
    (array items).Valued := by
  intro hn
  refine eachReadable_iff.2 fun item hitem => h item hitem fun n hmem => ?_
  exact hn n (mem_numbersOfItems.2 ⟨item, hitem, hmem⟩)

theorem valued_object {members : List (String × Json)} (h : ∀ member ∈ members, member.2.Valued) :
    (object members).Valued := by
  intro hn
  refine eachValueReadable_iff.2 fun member hmember => h member hmember fun n hmem => ?_
  exact hn n (mem_numbersOfMembers.2 ⟨member, hmember, hmem⟩)

theorem valued_ofList {α : Type} {f : α → Json} (h : ∀ a, (f a).Valued) (items : List α) :
    (ofList f items).Valued :=
  valued_array (List.forall_mem_map.2 fun a _ => h a)

theorem valued_ofKeyed {κ α : Type} {key : κ → String} {f : α → Json} (h : ∀ a, (f a).Valued)
    (m : OrderedMap κ α) : (ofKeyed key f m).Valued :=
  valued_object (List.forall_mem_map.2 fun e _ => h e.2)

theorem valued_ofMap {α : Type} {f : α → Json} (h : ∀ a, (f a).Valued) (m : OrderedMap String α) :
    (ofMap f m).Valued :=
  valued_ofKeyed h m

theorem valued_ofOption {α : Type} {f : α → Json} (h : ∀ a, (f a).Valued) (a : Option α) :
    (ofOption f a).Valued := by
  cases a with
  | none => exact fun _ => trivial
  | some a => exact h a

theorem valued_string (s : String) : (string s).Valued := fun _ => trivial

theorem readable_of_storable {doc : Json} (hv : doc.Valued) (h : doc.Storable) : doc.Readable := by
  refine hv fun n hn => ?_
  cases n with
  | int n hrange => exact Number.readsBack_int hrange
  | double d => exact h.readsBack d hn

theorem nullable?_ofOption {α : Type} {f : α → Json} {read : Json → Option α} {a : Option α}
    (hnull : ∀ a, f a ≠ .null) (h : ∀ b ∈ a, read (f b) = some b) :
    (ofOption f a).nullable? read = some a := by
  cases a with
  | none => rfl
  | some a =>
      have hread := h a rfl
      have hne := hnull a
      rw [ofOption]
      generalize f a = doc at hread hne
      cases doc with
      | null => exact (hne rfl).elim
      | _ => rw [nullable?, hread, Option.map_some]; simp

end Json

/-- A value is read back from its text as itself, and is then written to the same text. -/
def RoundTrips {α : Type} (toJson : α → Json) (ofJson? : Json → Option α) (a : α) : Prop :=
  ∃ reread, (Json.read? (toJson a).text).bind ofJson? = some reread ∧ reread = a ∧
    (toJson reread).text = (toJson a).text

theorem roundTrips_of_storable {α : Type} {toJson : α → Json} {ofJson? : Json → Option α} {a : α}
    (hv : (toJson a).Valued) (h : (toJson a).Storable) (hread : ofJson? (toJson a) = some a) :
    RoundTrips toJson ofJson? a := by
  refine ⟨a, ?_, rfl, rfl⟩
  rw [Json.read?_text (Json.readable_of_storable hv h), Option.bind_some, hread]

-- The induction follows the tree: the room that is left for a block is one more than what is left
-- for the values of its entries.
mutual

theorem StyleValue.ofJson?_tree : (t : StyleTree) → (ht : t.Distinct) → {room : Nat} →
    t.toJson.nesting ≤ room → StyleValue.ofJson? room t.toJson = some (.ofTree t ht)
  | .number _, _, _, _ => rfl
  | .text _, _, _, _ => rfl
  | .block es, ht, 0, h => absurd h (Nat.not_succ_le_zero _)
  | .block es, ht, room + 1, h => by
      have hmembers := StyleValue.ofMembers?_toMembers es (StyleTree.eachDistinct_iff.1 ht.2)
        (Nat.le_of_succ_le_succ h)
      have hrule : StyleRule.ofList (StyleRule.toList ⟨es, ht⟩) = ⟨es, ht⟩ :=
        StyleRule.ofList_toList ⟨es, ht⟩
      rw [StyleTree.toJson, StyleValue.ofJson?, hmembers, Option.map_some]
      exact congrArg (some ∘ StyleValue.block) hrule

theorem StyleValue.ofMembers?_toMembers : (es : List (String × StyleTree)) →
    (hes : ∀ e ∈ es, e.2.Distinct) → {room : Nat} →
    Json.nestingOfMembers (StyleTree.toMembers es) ≤ room →
    StyleValue.ofMembers? room (StyleTree.toMembers es) =
      some (es.pmap (fun e h => (e.1, StyleValue.ofTree e.2 h)) hes)
  | [], _, _, _ => rfl
  | (property, t) :: es, hes, room, h => by
      obtain ⟨hfirst, hothers⟩ := Nat.max_le.1 h
      have hvalue := StyleValue.ofJson?_tree t (hes _ List.mem_cons_self) hfirst
      have hrest := StyleValue.ofMembers?_toMembers es
        (fun e he => hes e (List.mem_cons_of_mem _ he)) hothers
      rw [StyleTree.toMembers, StyleValue.ofMembers?, hvalue, hrest]
      rfl

end

mutual

theorem StyleTree.valued_toJson : (t : StyleTree) → t.toJson.Valued
  | .number n => Json.valued_number n
  | .text s => Json.valued_string s
  | .block es => Json.valued_object (StyleTree.valued_toMembers es)

theorem StyleTree.valued_toMembers : (es : List (String × StyleTree)) →
    ∀ member ∈ StyleTree.toMembers es, member.2.Valued
  | [], _, h => by cases h
  | (_, t) :: es, member, h => by
      rcases List.mem_cons.1 h with rfl | h
      · exact StyleTree.valued_toJson t
      · exact StyleTree.valued_toMembers es member h

end

theorem StyleRule.ofJson?_toJson {rule : StyleRule} {room : Nat} (h : rule.toJson.nesting ≤ room) :
    ofJson? room rule.toJson = some rule := by
  rw [ofJson?, toJson, StyleValue.ofJson?_tree rule.tree rule.distinct h]
  rfl

mutual

/-- What is read as a value nests no more containers than were left for it. -/
theorem StyleValue.nesting_le_of_ofJson? : (doc : Json) → {room : Nat} → {value : StyleValue} →
    StyleValue.ofJson? room doc = some value → doc.nesting ≤ room
  | .number _, _, _, _ => Nat.zero_le _
  | .string _, _, _, _ => Nat.zero_le _
  | .object members, 0, _, h => by simp [StyleValue.ofJson?] at h
  | .object members, room + 1, value, h => by
      rw [StyleValue.ofJson?] at h
      obtain ⟨es, hes, -⟩ := Option.map_eq_some_iff.1 h
      exact Nat.succ_le_succ (StyleValue.nesting_le_of_ofMembers? members hes)
  | .null, _, _, h => by simp [StyleValue.ofJson?] at h
  | .bool _, _, _, h => by simp [StyleValue.ofJson?] at h
  | .array _, _, _, h => by simp [StyleValue.ofJson?] at h
  | .unreadable, _, _, h => by simp [StyleValue.ofJson?] at h

theorem StyleValue.nesting_le_of_ofMembers? : (members : List (String × Json)) → {room : Nat} →
    {es : List (String × StyleValue)} → StyleValue.ofMembers? room members = some es →
    Json.nestingOfMembers members ≤ room
  | [], _, _, _ => Nat.zero_le _
  | (property, doc) :: members, room, es, h => by
      simp only [StyleValue.ofMembers?, Option.bind_eq_bind, Option.bind_eq_some_iff] at h
      obtain ⟨value, hvalue, rest, hrest, -⟩ := h
      exact Nat.max_le.2 ⟨StyleValue.nesting_le_of_ofJson? doc hvalue,
        StyleValue.nesting_le_of_ofMembers? members hrest⟩

end

/-- A rule is read back exactly if its document does not nest too many containers. -/
theorem StyleRule.ofJson?_toJson_iff {rule : StyleRule} {room : Nat} :
    ofJson? room rule.toJson = some rule ↔ rule.toJson.nesting ≤ room := by
  constructor
  · intro h
    obtain ⟨value, hvalue, -⟩ := Option.bind_eq_some_iff.1 h
    exact StyleValue.nesting_le_of_ofJson? rule.toJson hvalue
  · exact ofJson?_toJson

namespace Style

theorem valued_toJson (style : Style) : style.toJson.Valued := by
  cases style with
  | reference className => exact Json.valued_string className
  | references classNames => exact Json.valued_ofList Json.valued_string classNames
  | rule r => exact r.tree.valued_toJson

theorem toJson_ne_null (style : Style) : style.toJson ≠ .null := by
  cases style with
  | reference className => exact Json.noConfusion
  | references classNames => exact Json.noConfusion
  | rule r => exact Json.noConfusion

theorem ofJson?_toJson {style : Style} {room : Nat} (h : style.toJson.nesting ≤ room) :
    ofJson? room style.toJson = some style := by
  cases style with
  | reference className => rfl
  | references classNames =>
      have hlist : (Json.ofList .string classNames).list? Json.text? = some classNames :=
        Json.list?_ofList fun _ _ => rfl
      exact congrArg (Option.map references) hlist
  | rule r => exact congrArg (Option.map rule) (StyleRule.ofJson?_toJson h)

end Style

namespace Primitive

theorem valued_toJson (p : Primitive) : p.toJson.Valued := by
  cases p with
  | bool b => exact fun _ => trivial
  | number n => exact Json.valued_number n
  | text s => exact Json.valued_string s

theorem toJson_ne_null (p : Primitive) : p.toJson ≠ .null := by
  cases p <;> exact Json.noConfusion

end Primitive

namespace InlineAxis

theorem valued_toJson (axis : InlineAxis) : axis.toJson.Valued := by
  refine Json.valued_object (List.forall_mem_cons.2 ⟨Json.valued_string axis.property, ?_⟩)
  exact List.forall_mem_map.2 fun b _ _ => trivial

theorem ofJson?_toJson (axis : InlineAxis) : ofJson? axis.toJson = some axis := by
  obtain ⟨property, isResponsive⟩ := axis
  cases isResponsive with
  | none =>
      rw [ofJson?, toJson, Json.record?_object (by simp)]
      rfl
  | some b =>
      rw [ofJson?, toJson, Json.record?_object (by simp)]
      rfl

end InlineAxis

namespace Compound

theorem valued_toJson (compound : Compound) : compound.toJson.Valued := by
  have hrequired : (Json.ofMap Primitive.toJson compound.required).Valued :=
    Json.valued_ofMap Primitive.valued_toJson compound.required
  have hstyle : compound.style.toJson.Valued := compound.style.valued_toJson
  exact Json.valued_object (by simp [hrequired, hstyle])

theorem ofJson?_toJson {compound : Compound} {room : Nat}
    (h : compound.toJson.nesting ≤ room + 1) : ofJson? (room + 1) compound.toJson = some compound := by
  have hnesting : compound.style.toJson.nesting ≤ room :=
    Json.nesting_object_le_iff.1 h ("style", compound.style.toJson) (by simp)
  have hrequired : (Json.ofMap Primitive.toJson compound.required).map? Primitive.ofJson? =
      some compound.required := Json.map?_ofMap fun e _ => e.2.ofJson?_toJson
  have hstyle : Style.ofJson? room compound.style.toJson = some compound.style :=
    Style.ofJson?_toJson hnesting
  rw [ofJson?, toJson, Json.record?_object (by simp)]
  simp [Entries.get?, Json.required?, hrequired, hstyle]

end Compound

namespace Recipe

theorem valued_axesToJson (axes : Axes Style) : (axesToJson axes).Valued :=
  Json.valued_ofMap (Json.valued_ofMap Style.valued_toJson) axes

theorem valued_toJson (r : Recipe) : r.toJson.Valued := by
  have hconditions : ∀ conditions, (Conditions.toJson conditions).Valued :=
    Json.valued_ofMap fun condition => Json.valued_ofKeyed Json.valued_string condition.predicates
  refine Json.valued_object ?_
  simp only [List.forall_mem_cons]
  exact ⟨Json.valued_ofOption Style.valued_toJson r.base, valued_axesToJson r.regular,
    valued_axesToJson r.responsive, Json.valued_ofMap InlineAxis.valued_toJson r.inline,
    Json.valued_ofOption hconditions r.conditions, Json.valued_ofOption Json.valued_string r.initial,
    Json.valued_ofList Compound.valued_toJson r.compounds,
    Json.valued_ofMap Primitive.valued_toJson r.defaults, List.forall_mem_nil _⟩

theorem axesOfJson?_axesToJson {axes : Axes Style} {room : Nat}
    (h : (axesToJson axes).nesting ≤ room + 2) :
    axesOfJson? (room + 2) (axesToJson axes) = some axes := by
  have hoptions := Json.nesting_ofMap_le_iff.1 h
  refine Json.map?_ofMap fun axis haxis => Json.map?_ofMap fun option hoption => ?_
  exact Style.ofJson?_toJson (Json.nesting_ofMap_le_iff.1 (hoptions axis haxis) option hoption)

theorem ofJson?_toJson {r : Recipe} (h : r.toJson.nesting ≤ maxNesting) :
    ofJson? r.toJson = some r := by
  let members : List (String × Json) := [
    ("base", .ofOption Style.toJson r.base),
    ("variants", axesToJson r.regular),
    ("responsiveVariants", axesToJson r.responsive),
    ("inlineVariants", .ofMap InlineAxis.toJson r.inline),
    ("conditions", .ofOption Conditions.toJson r.conditions),
    ("initialCondition", .ofOption .string r.initial),
    ("compoundVariants", .ofList Compound.toJson r.compounds),
    ("defaultVariants", .ofMap Primitive.toJson r.defaults)]
  let field (name : String) : Option Json := Entries.get? name members
  have hrecord (names : List String) : r.toJson.record? names = some field :=
    Json.record?_object (by simp)
  have hnesting := Json.nesting_object_le_iff.1 (show r.toJson.nesting ≤ 126 + 1 from h)
  simp only [List.forall_mem_cons] at hnesting
  obtain ⟨hbaseNesting, hregularNesting, hresponsiveNesting, -, -, -, hcompoundsNesting, -⟩ :=
    hnesting
  have hbase : Json.optional? none (Json.nullable? (Style.ofJson? (maxNesting - 1)))
      (field "base") = some r.base := by
    refine Json.nullable?_ofOption Style.toJson_ne_null fun style hstyle => ?_
    rw [hstyle] at hbaseNesting
    exact Style.ofJson?_toJson hbaseNesting
  have hregular : Json.optional? ∅ (axesOfJson? (maxNesting - 1)) (field "variants") =
      some r.regular := axesOfJson?_axesToJson hregularNesting
  have hresponsive : Json.optional? ∅ (axesOfJson? (maxNesting - 1))
      (field "responsiveVariants") = some r.responsive :=
    axesOfJson?_axesToJson hresponsiveNesting
  have hinline : Json.optional? ∅ (Json.map? InlineAxis.ofJson?) (field "inlineVariants") =
      some r.inline := Json.map?_ofMap fun e _ => e.2.ofJson?_toJson
  have hconditions : Json.optional? none (Json.nullable? Conditions.ofJson?)
      (field "conditions") = some r.conditions :=
    Json.nullable?_ofOption (fun _ => Json.noConfusion)
      fun conditions _ => Conditions.ofJson?_toJson conditions
  have hinitial : Json.optional? none (Json.nullable? Json.text?) (field "initialCondition") =
      some r.initial := Json.nullable?_ofOption (fun _ => Json.noConfusion) fun _ _ => rfl
  have hcompounds : Json.optional? [] (Json.list? (Compound.ofJson? (maxNesting - 1 - 1)))
      (field "compoundVariants") = some r.compounds :=
    Json.list?_ofList fun compound hcompound => Compound.ofJson?_toJson
      (Json.nesting_ofList_le_iff.1 hcompoundsNesting compound hcompound)
  have hdefaults : Json.optional? ∅ (Json.map? Primitive.ofJson?) (field "defaultVariants") =
      some r.defaults := Json.map?_ofMap fun e _ => e.2.ofJson?_toJson
  rw [ofJson?, hrecord]
  simp only [Option.bind_eq_bind, Option.bind_some, hbase, hregular, hresponsive, hinline,
    hconditions, hinitial, hcompounds, hdefaults, Option.pure_def]

end Recipe

namespace SelectionValue

theorem valued_toJson (value : SelectionValue) : value.toJson.Valued := by
  cases value with
  | single value => exact value.valued_toJson
  | perCondition values =>
      exact Json.valued_ofMap (Json.valued_ofOption Primitive.valued_toJson) values

theorem toJson_ne_null (value : SelectionValue) : value.toJson ≠ .null := by
  cases value with
  | single value => exact value.toJson_ne_null
  | perCondition values => exact Json.noConfusion

theorem ofJson?_toJson (value : SelectionValue) : ofJson? value.toJson = some value := by
  cases value with
  | single value => cases value <;> rfl
  | perCondition values =>
      have hvalues : (Json.ofMap (Json.ofOption Primitive.toJson) values).map?
          (Json.nullable? Primitive.ofJson?) = some values :=
        Json.map?_ofMap fun _ _ =>
          Json.nullable?_ofOption Primitive.toJson_ne_null fun p _ => p.ofJson?_toJson
      exact congrArg (Option.map perCondition) hvalues

end SelectionValue

namespace Selection

theorem valued_toJson (s : Selection) : (toJson s).Valued :=
  Json.valued_ofMap (Json.valued_ofOption SelectionValue.valued_toJson) s

theorem ofJson?_toJson (s : Selection) : ofJson? (toJson s) = some s :=
  Json.map?_ofMap fun _ _ =>
    Json.nullable?_ofOption SelectionValue.toJson_ne_null fun value _ => value.ofJson?_toJson

end Selection

def Stylesheet.texts (sheet : Stylesheet) : String × String :=
  (sheet.recipe.toJson.text, sheet.css)

namespace Recipe

/-- Recipes, selections, rules and styles come back from their texts as themselves, if their
documents can be stored. A recipe that was read back compiles to the same tables and the same style
sheet, byte for byte, or is refused for the same reason. -/
theorem documents_round_trip {r : Recipe} {s : Selection} {rule : StyleRule} {style : Style}
    (hr : r.toJson.Storable) (hs : (Selection.toJson s).Storable) (hrule : rule.toJson.Storable)
    (hstyle : style.toJson.Storable) :
    RoundTrips toJson ofJson? r ∧
    RoundTrips Selection.toJson Selection.ofJson? s ∧
    RoundTrips StyleRule.toJson (StyleRule.ofJson? maxNesting) rule ∧
    RoundTrips Style.toJson (Style.ofJson? maxNesting) style ∧
    ∀ reread, (Json.read? r.toJson.text).bind ofJson? = some reread →
      ∀ digest debugId options, (reread.stylesheet digest debugId options).map Stylesheet.texts =
        (r.stylesheet digest debugId options).map Stylesheet.texts := by
  have hrecipe : RoundTrips toJson ofJson? r :=
    roundTrips_of_storable r.valued_toJson hr (ofJson?_toJson hr.nesting_le)
  have hselection : RoundTrips Selection.toJson Selection.ofJson? s :=
    roundTrips_of_storable (Selection.valued_toJson s) hs (Selection.ofJson?_toJson s)
  have hrules : RoundTrips StyleRule.toJson (StyleRule.ofJson? maxNesting) rule :=
    roundTrips_of_storable rule.tree.valued_toJson hrule
      (StyleRule.ofJson?_toJson hrule.nesting_le)
  have hstyles : RoundTrips Style.toJson (Style.ofJson? maxNesting) style :=
    roundTrips_of_storable style.valued_toJson hstyle (Style.ofJson?_toJson hstyle.nesting_le)
  refine ⟨hrecipe, hselection, hrules, hstyles, ?_⟩
  intro reread hread digest debugId options
  obtain ⟨same, hsame, rfl, -⟩ := hrecipe
  rw [hread] at hsame
  rw [Option.some.inj hsame]

def scaledRule : StyleRule := .ofList [
  ("zIndex", .number (.int (-1) (by decide))), ("scale", .number (.double CompiledRecipe.sesqui)),
  ("content", .text "\"\n\""), ("selectors", .block (.ofList [("&:hover", .block ∅)]))]

def scaledRecipe : Recipe where
  base := some (.references ["reset", "card"])
  responsive := .ofList [("size", .ofList [("small", .reference "tiny"), ("12", .rule scaledRule)])]
  inline := .ofList [("gap", ⟨"gap", none⟩), ("inset", ⟨"padding", some false⟩)]
  conditions := some (.ofList [("initial", .always),
    ("wide", Condition.always.insert .media "(min-width: 40em)")])
  compounds := [⟨.ofList [("size", .number (.int 12 (by decide)))], .rule scaledRule⟩]
  defaults := .ofList [("size", .number (.double CompiledRecipe.sesqui)), ("flat", .bool true)]

def scaledSelection : Selection := .ofList [
  ("size", some (.perCondition (.ofList [("wide", none),
    ("initial", some (.number (.double CompiledRecipe.sesqui)))]))),
  ("gap", none), ("flat", some (.single (.bool false))), ("inset", some (.single (.text "2")))]

theorem storable_of_numbers {doc : Json} (hnesting : doc.nesting ≤ maxNesting)
    (hnumbers : ∀ d, .double d ∈ doc.numbers → d = CompiledRecipe.sesqui) : doc.Storable :=
  ⟨hnesting, fun d hd => hnumbers d hd ▸ CompiledRecipe.readsBack_sesqui⟩

theorem documents_round_trip_scaled :
    (scaledRecipe.toJson.Storable ∧ (Selection.toJson scaledSelection).Storable ∧
      scaledRule.toJson.Storable ∧ (Style.rule scaledRule).toJson.Storable) ∧
    RoundTrips toJson ofJson? scaledRecipe ∧
    RoundTrips Selection.toJson Selection.ofJson? scaledSelection ∧
    RoundTrips StyleRule.toJson (StyleRule.ofJson? maxNesting) scaledRule ∧
    RoundTrips Style.toJson (Style.ofJson? maxNesting) (.rule scaledRule) ∧
    ∀ reread, (Json.read? scaledRecipe.toJson.text).bind ofJson? = some reread →
      ∀ digest debugId options, (reread.stylesheet digest debugId options).map Stylesheet.texts =
        (scaledRecipe.stylesheet digest debugId options).map Stylesheet.texts := by
  have hrule : scaledRule.toJson.Storable := by
    have hnumbers : scaledRule.toJson.numbers =
        [.int (-1) (by decide), .double CompiledRecipe.sesqui] := rfl
    refine storable_of_numbers (by decide) fun d hd => ?_
    simpa [hnumbers] using hd
  have hselection : (Selection.toJson scaledSelection).Storable := by
    have hnumbers : (Selection.toJson scaledSelection).numbers =
        [.double CompiledRecipe.sesqui] := rfl
    refine storable_of_numbers (by decide) fun d hd => ?_
    simpa [hnumbers] using hd
  have hrecipe : scaledRecipe.toJson.Storable := by
    have hnumbers : scaledRecipe.toJson.numbers = [.int (-1) (by decide),
        .double CompiledRecipe.sesqui, .int 12 (by decide), .int (-1) (by decide),
        .double CompiledRecipe.sesqui, .double CompiledRecipe.sesqui] := rfl
    refine storable_of_numbers (by decide) fun d hd => ?_
    simpa [hnumbers] using hd
  exact ⟨⟨hrecipe, hselection, hrule, hrule⟩,
    documents_round_trip hrecipe hselection hrule hrule⟩

end Recipe
end StyleVariants

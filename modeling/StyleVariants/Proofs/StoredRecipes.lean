import StyleVariants.CompiledRecipe.Json
import StyleVariants.OrderedMap.Lemmas
import StyleVariants.Proofs.DocumentTexts
import Mathlib.Data.List.Nodup

/-!
# Compiled recipes stored as documents

Each shape is read back from the document it is written as, and maps and lists come back in
their order. A compiled recipe can therefore be stored as a text and replayed: what is read
from the text is the recipe itself, so that it resolves every selection as before. The only
numbers of a recipe are required values of compounds and defaults, and of these only doubles
can fail to read back.
-/
namespace StyleVariants

namespace Json
variable {κ α : Type}

theorem mapM_map_eq_some {β : Type} {f : α → β} {read : β → Option α} {items : List α}
    (h : ∀ a ∈ items, read (f a) = some a) : (items.map f).mapM read = some items := by
  induction items with
  | nil => rfl
  | cons a items ih =>
      rw [List.map_cons, List.mapM_cons, h a (by simp), ih fun b hb => h b (by simp [hb])]
      rfl

theorem list?_ofList {f : α → Json} {read : Json → Option α} {items : List α}
    (h : ∀ a ∈ items, read (f a) = some a) : (ofList f items).list? read = some items :=
  mapM_map_eq_some h

theorem keyed?_ofKeyed [DecidableEq κ] {key : κ → String} {key? : String → Option κ}
    {f : α → Json} {read : Json → Option α} {m : OrderedMap κ α}
    (hkey : ∀ k, key? (key k) = some k) (h : ∀ e ∈ m.entries, read (f e.2) = some e.2) :
    (ofKeyed key f m).keyed? key? read = some m := by
  have hmembers : (m.entries.map fun e => (key e.1, f e.2)).mapM (member? key? read) =
      some m.entries := mapM_map_eq_some fun e he => by simp [member?, hkey, h e he]
  rw [ofKeyed, keyed?, hmembers, Option.map_some, OrderedMap.ofList_entries]

theorem map?_ofMap {f : α → Json} {read : Json → Option α} {m : OrderedMap String α}
    (h : ∀ e ∈ m.entries, read (f e.2) = some e.2) : (ofMap f m).map? read = some m :=
  keyed?_ofKeyed (fun _ => rfl) h

theorem record?_object {names : List String} {members : List (String × Json)}
    (h : (members.map Prod.fst).Nodup) :
    (object members).record? names = some fun name => Entries.get? name members := by
  have hcount : ∀ name, members.countP (·.1 == name) ≤ 1 := by
    intro name
    have hle := List.nodup_iff_count_le_one.1 h name
    rwa [List.count, List.countP_map] at hle
  simp [record?, hcount]

end Json

namespace Primitive

@[simp] theorem ofJson?_toJson (p : Primitive) : ofJson? p.toJson = some p := by
  cases p <;> rfl

end Primitive

@[simp] theorem Condition.ofJson?_toJson (c : Condition) : ofJson? c.toJson = some c := by
  have hpredicates : (Json.ofKeyed ConditionKind.name .string c.predicates).keyed?
      ConditionKind.ofName? Json.text? = some c.predicates :=
    Json.keyed?_ofKeyed ConditionKind.ofName?_name fun _ _ => rfl
  rw [ofJson?, toJson, hpredicates, Option.map_some]

@[simp] theorem Conditions.ofJson?_toJson (cs : Conditions) :
    Conditions.ofJson? (Conditions.toJson cs) = some cs :=
  Json.map?_ofMap fun e _ => e.2.ofJson?_toJson

@[simp] theorem ClassTable.ofJson?_toJson (table : ClassTable) :
    ClassTable.ofJson? (ClassTable.toJson table) = some table :=
  Json.map?_ofMap fun _ _ => Json.map?_ofMap fun _ _ => Json.map?_ofMap fun _ _ => rfl

@[simp] theorem CompiledInline.ofJson?_toJson (axis : CompiledInline) :
    ofJson? axis.toJson = some axis := by
  have hproperties : (Json.ofMap .string axis.properties).map? Json.text? =
      some axis.properties := Json.map?_ofMap fun _ _ => rfl
  rw [ofJson?, toJson, Json.record?_object (by simp)]
  simp [Entries.get?, Json.required?, Json.text?, hproperties]

@[simp] theorem CompiledCompound.ofJson?_toJson (compound : CompiledCompound) :
    ofJson? compound.toJson = some compound := by
  have hrequired : (Json.ofMap Primitive.toJson compound.required).map? Primitive.ofJson? =
      some compound.required := Json.map?_ofMap fun e _ => e.2.ofJson?_toJson
  have hclasses : (Json.ofMap .string compound.classNames).map? Json.text? =
      some compound.classNames := Json.map?_ofMap fun _ _ => rfl
  simp [ofJson?, toJson, hrequired, hclasses]

theorem CompiledRecipe.ofJson?_toJson (r : CompiledRecipe) : ofJson? r.toJson = some r := by
  let members : List (String × Json) := [
    ("initialCondition", .string r.initial),
    ("conditions", Conditions.toJson r.conditions),
    ("baseClassName", .string r.base),
    ("variantClassNames", ClassTable.toJson r.regular),
    ("responsiveVariantClassNames", ClassTable.toJson r.responsive),
    ("inlineVariantData", .ofMap CompiledInline.toJson r.inline),
    ("compoundVariants", .ofList CompiledCompound.toJson r.compounds),
    ("defaultVariants", .ofMap Primitive.toJson r.defaults)]
  let field (name : String) : Option Json := Entries.get? name members
  have hrecord (names : List String) : r.toJson.record? names = some field :=
    Json.record?_object (by simp)
  have hinitial : Json.required? Json.text? (field "initialCondition") = some r.initial := rfl
  have hconditions : Json.required? Conditions.ofJson? (field "conditions") =
      some r.conditions := Conditions.ofJson?_toJson r.conditions
  have hbase : Json.required? Json.text? (field "baseClassName") = some r.base := rfl
  have hregular : Json.required? ClassTable.ofJson? (field "variantClassNames") =
      some r.regular := ClassTable.ofJson?_toJson r.regular
  have hresponsive : Json.required? ClassTable.ofJson? (field "responsiveVariantClassNames") =
      some r.responsive := ClassTable.ofJson?_toJson r.responsive
  have hinline : Json.required? (Json.map? CompiledInline.ofJson?) (field "inlineVariantData") =
      some r.inline := Json.map?_ofMap fun e _ => e.2.ofJson?_toJson
  have hcompounds : Json.required? (Json.list? CompiledCompound.ofJson?)
      (field "compoundVariants") = some r.compounds :=
    Json.list?_ofList fun compound _ => CompiledCompound.ofJson?_toJson compound
  have hdefaults : Json.required? (Json.map? Primitive.ofJson?) (field "defaultVariants") =
      some r.defaults := Json.map?_ofMap fun e _ => e.2.ofJson?_toJson
  rw [ofJson?, hrecord]
  simp only [Option.bind_eq_bind, Option.bind_some, hinitial, hconditions, hbase, hregular,
    hresponsive, hinline, hcompounds, hdefaults, Option.pure_def]

namespace Json

theorem readable_ofKeyed_iff {κ α : Type} {key : κ → String} {f : α → Json}
    {m : OrderedMap κ α} : (ofKeyed key f m).Readable ↔ ∀ e ∈ m.entries, (f e.2).Readable := by
  rw [ofKeyed, Readable, eachValueReadable_iff, List.forall_mem_map]

theorem readable_ofList_iff {α : Type} {f : α → Json} {items : List α} :
    (ofList f items).Readable ↔ ∀ a ∈ items, (f a).Readable := by
  rw [ofList, Readable, eachReadable_iff, List.forall_mem_map]

theorem readable_ofMap {α : Type} {f : α → Json} (h : ∀ a, (f a).Readable)
    (m : OrderedMap String α) : (ofMap f m).Readable :=
  readable_ofKeyed_iff.2 fun e _ => h e.2

theorem readable_ofMap_string (m : OrderedMap String String) : (ofMap .string m).Readable :=
  readable_ofKeyed_iff.2 fun _ _ => trivial

end Json

theorem Primitive.readable_toJson {p : Primitive}
    (h : ∀ d, p = .number (.double d) → (Number.double d).ReadsBack) : p.toJson.Readable := by
  cases p with
  | bool b => trivial
  | text s => trivial
  | number n =>
      cases n with
      | int n hn => exact Number.readsBack_int hn
      | double d => exact h d rfl

theorem Condition.readable_toJson (c : Condition) : c.toJson.Readable :=
  Json.readable_ofKeyed_iff.2 fun _ _ => trivial

theorem ClassTable.readable_toJson (table : ClassTable) : (ClassTable.toJson table).Readable :=
  Json.readable_ofMap (Json.readable_ofMap Json.readable_ofMap_string) table

theorem CompiledInline.readable_toJson (axis : CompiledInline) : axis.toJson.Readable :=
  ⟨trivial, Json.readable_ofMap_string axis.properties, trivial⟩

namespace CompiledRecipe

/-- The values that a recipe requires in compounds or has as defaults. -/
def primitives (r : CompiledRecipe) : List Primitive :=
  r.compounds.flatMap (fun compound => compound.required.entries.map Prod.snd) ++
    r.defaults.entries.map Prod.snd

def DoublesReadBack (r : CompiledRecipe) : Prop :=
  ∀ d, Primitive.number (.double d) ∈ r.primitives → (Number.double d).ReadsBack

theorem readable_toJson {r : CompiledRecipe} (h : r.DoublesReadBack) : r.toJson.Readable := by
  have hprimitive : ∀ p ∈ r.primitives, p.toJson.Readable :=
    fun p hp => Primitive.readable_toJson fun d hd => h d (hd ▸ hp)
  have hconditions : (Conditions.toJson r.conditions).Readable :=
    Json.readable_ofMap Condition.readable_toJson r.conditions
  have hinline : (Json.ofMap CompiledInline.toJson r.inline).Readable :=
    Json.readable_ofMap CompiledInline.readable_toJson r.inline
  have hcompounds : (Json.ofList CompiledCompound.toJson r.compounds).Readable := by
    refine Json.readable_ofList_iff.2 fun compound hcompound => ?_
    have hrequired : (Json.ofMap Primitive.toJson compound.required).Readable := by
      refine Json.readable_ofKeyed_iff.2 fun e he => hprimitive e.2 ?_
      refine List.mem_append_left _ (List.mem_flatMap.2 ⟨compound, hcompound, ?_⟩)
      exact List.mem_map_of_mem he
    exact ⟨hrequired, Json.readable_ofMap_string compound.classNames, trivial⟩
  have hdefaults : (Json.ofMap Primitive.toJson r.defaults).Readable :=
    Json.readable_ofKeyed_iff.2 fun e he =>
      hprimitive e.2 (List.mem_append_right _ (List.mem_map_of_mem he))
  exact ⟨trivial, hconditions, trivial, r.regular.readable_toJson,
    r.responsive.readable_toJson, hinline, hcompounds, hdefaults, trivial⟩

def ofText? (text : String) : Option CompiledRecipe := (Json.read? text).bind ofJson?

/-- A stored recipe is replayed as itself: the same value in the same order, that is written
to the same text, resolves every selection to the same text and lists the same definitions. -/
theorem replay_of_doublesReadBack (r : CompiledRecipe) (h : r.DoublesReadBack) :
    ∃ replayed, ofText? r.toJson.text = some replayed ∧ replayed = r ∧
      replayed.toJson.text = r.toJson.text ∧
      (∀ selection, (replayed.resolve selection).toJson.text =
        (r.resolve selection).toJson.text) ∧
      replayed.definitions.toJson.text = r.definitions.toJson.text := by
  have hread : ofText? r.toJson.text = some r := by
    rw [ofText?, Json.read?_text (readable_toJson h), Option.bind_some, ofJson?_toJson]
  exact ⟨r, hread, rfl, rfl, fun _ => rfl, rfl⟩

def sesqui : Double := ⟨false, 6755399441055744, 1022, by decide⟩

theorem readsBack_sesqui : (Number.double sesqui).ReadsBack := by
  have hchars : (Number.double sesqui).chars = ['1', '.', '5'] := by decide +kernel
  refine Json.readsBack_iff.2 ⟨⟨false, [1], [5], none⟩, ?_, by decide +kernel⟩
  rw [hchars]
  rfl

def scaled : CompiledRecipe where
  initial := "initial"
  conditions := .ofList [("initial", .always),
    ("\"wide\"", Condition.always.insert .media "(min-width: 40em)")]
  base := "base\\\x07"
  regular := ∅
  responsive := .ofList [("scale", .ofList [
    ("2", .ofList [("initial", "r0"), ("\"wide\"", "r1")]),
    ("1.5", .ofList [("initial", "r2"), ("\"wide\"", "r3")])])]
  inline := .ofList [("gap", ⟨"i0", .ofList [("initial", "--gap")]⟩)]
  compounds := [⟨.ofList [("scale", .number (.double sesqui))],
    .ofList [("initial", "c0"), ("\"wide\"", "c1")]⟩]
  defaults := .ofList [("scale", .number (.double sesqui)), ("flat", .bool true)]

theorem replay_of_doublesReadBack_scaled :
    scaled.DoublesReadBack ∧
      ∃ replayed, ofText? scaled.toJson.text = some replayed ∧ replayed = scaled ∧
        replayed.toJson.text = scaled.toJson.text ∧
        (∀ selection, (replayed.resolve selection).toJson.text =
          (scaled.resolve selection).toJson.text) ∧
        replayed.definitions.toJson.text = scaled.definitions.toJson.text := by
  have hprimitives : scaled.primitives =
      [.number (.double sesqui), .number (.double sesqui), .bool true] := rfl
  have hdoubles : scaled.DoublesReadBack := by
    intro d hd
    rw [hprimitives] at hd
    obtain rfl : d = sesqui := by simpa using hd
    exact readsBack_sesqui
  exact ⟨hdoubles, scaled.replay_of_doublesReadBack hdoubles⟩

end CompiledRecipe
end StyleVariants

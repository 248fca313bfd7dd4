import StyleVariants.OrderedMap.Basic
import StyleVariants.Number.Basic

/-!
# Style trees

A tree is distinct when no block declares a property twice, at any depth. Two distinct
trees declare the same things in any order iff their canonical forms are the same: blocks
sorted by property, and zero without its sign.
-/
namespace StyleVariants

inductive StyleTree where
  | number (value : Number)
  | text (value : String)
  | block (entries : List (String × StyleTree))

namespace StyleTree

def plainText? : StyleTree → Option String
  | .number n => some n.text
  | .text s => some s
  | .block _ => none

def isBlock (t : StyleTree) : Bool := t.plainText?.isNone

mutual

/-- No block inside a tree declares a property twice. -/
def Distinct : StyleTree → Prop
  | .number _ => True
  | .text _ => True
  | .block es => (es.map Prod.fst).Nodup ∧ EachDistinct es

def EachDistinct : List (String × StyleTree) → Prop
  | [] => True
  | (_, t) :: es => t.Distinct ∧ EachDistinct es

end

theorem eachDistinct_iff {es : List (String × StyleTree)} :
    EachDistinct es ↔ ∀ e ∈ es, e.2.Distinct := by
  induction es with
  | nil => simp [EachDistinct]
  | cons e es ih => simp [EachDistinct, ih]

theorem distinct_empty : (block []).Distinct := ⟨List.nodup_nil, trivial⟩

theorem distinct_of_get? {es : List (String × StyleTree)} (h : (block es).Distinct)
    {property : String} {t : StyleTree} (ht : Entries.get? property es = some t) :
    t.Distinct :=
  eachDistinct_iff.1 h.2 _ (Entries.mem_of_get? ht)

theorem distinct_insert {es : List (String × StyleTree)} (h : (block es).Distinct)
    (property : String) {t : StyleTree} (ht : t.Distinct) :
    (block (Entries.insert property t es)).Distinct := by
  refine ⟨Entries.nodup_keys_insert h.1, eachDistinct_iff.2 fun e he => ?_⟩
  rcases Entries.mem_of_mem_insert he with rfl | he
  · exact ht
  · exact eachDistinct_iff.1 h.2 e he

theorem distinct_insertAll {es additions : List (String × StyleTree)}
    (h : (block es).Distinct) (ha : EachDistinct additions) :
    (block (Entries.insertAll es additions)).Distinct := by
  induction additions generalizing es with
  | nil => exact h
  | cons e additions ih => exact ih (distinct_insert h e.1 ha.1) ha.2

mutual

def decEq : (a b : StyleTree) → Decidable (a = b)
  | .number m, .number n => decidable_of_iff (m = n) (by simp)
  | .text s, .text t => decidable_of_iff (s = t) (by simp)
  | .block es, .block fs =>
      match decEqEntries es fs with
      | isTrue h => isTrue (by rw [h])
      | isFalse h => isFalse (by simpa using h)
  | .number _, .text _ => isFalse (by simp)
  | .number _, .block _ => isFalse (by simp)
  | .text _, .number _ => isFalse (by simp)
  | .text _, .block _ => isFalse (by simp)
  | .block _, .number _ => isFalse (by simp)
  | .block _, .text _ => isFalse (by simp)

def decEqEntries : (es fs : List (String × StyleTree)) → Decidable (es = fs)
  | [], [] => isTrue rfl
  | [], _ :: _ => isFalse (by simp)
  | _ :: _, [] => isFalse (by simp)
  | (k, a) :: es, (l, b) :: fs =>
      if hk : k = l then
        match a.decEq b, decEqEntries es fs with
        | isTrue ha, isTrue hes => isTrue (by rw [hk, ha, hes])
        | isFalse ha, _ => isFalse (by simp [ha])
        | _, isFalse hes => isFalse (by simp [hes])
      else isFalse (by simp [hk])

end

instance : DecidableEq StyleTree := decEq

end StyleTree

/-- Puts an entry in front of the first one with a key that is not smaller. -/
def Entries.insertSorted {α : Type} (key : String) (value : α) :
    List (String × α) → List (String × α)
  | [] => [(key, value)]
  | (k, a) :: rest =>
      if k < key then (k, a) :: insertSorted key value rest else (key, value) :: (k, a) :: rest

def Number.canonical : Number → Number
  | .double d => .double (if d.units = 0 then .zero false else d)
  | n => n

namespace StyleTree

mutual

def canonical : StyleTree → StyleTree
  | .number n => .number n.canonical
  | .text s => .text s
  | .block es => .block (canonicalEntries es)

def canonicalEntries : List (String × StyleTree) → List (String × StyleTree)
  | [] => []
  | (k, t) :: es => Entries.insertSorted k t.canonical (canonicalEntries es)

end

end StyleTree
end StyleVariants

import StyleVariants.StyleTree

/-!
# Style rules

A rule is kept as the entries of a distinct tree; its values are read and written as
`StyleValue`.
-/
namespace StyleVariants

structure StyleRule where
  entries : List (String × StyleTree)
  distinct : (StyleTree.block entries).Distinct
  deriving DecidableEq

inductive StyleValue where
  | number (value : Number)
  | text (value : String)
  | block (rule : StyleRule)
  deriving DecidableEq

def StyleRule.tree (rule : StyleRule) : StyleTree := .block rule.entries

namespace StyleValue

def tree : StyleValue → StyleTree
  | .number n => .number n
  | .text s => .text s
  | .block rule => rule.tree

def ofTree : (t : StyleTree) → t.Distinct → StyleValue
  | .number n, _ => .number n
  | .text s, _ => .text s
  | .block es, h => .block ⟨es, h⟩

theorem tree_distinct : (v : StyleValue) → v.tree.Distinct
  | .number _ => trivial
  | .text _ => trivial
  | .block rule => rule.distinct

@[simp] theorem tree_ofTree (t : StyleTree) (h : t.Distinct) : (ofTree t h).tree = t := by
  cases t <;> rfl

@[simp] theorem ofTree_tree (v : StyleValue) : ofTree v.tree v.tree_distinct = v := by
  cases v <;> rfl

def asBlock? : StyleValue → Option StyleRule
  | .block rule => some rule
  | _ => none

/-- The text of a plain value, or a sign for a block. -/
def display (value : StyleValue) : String := value.tree.plainText?.getD "\x7b..\x7d"

end StyleValue

namespace StyleRule

def empty : StyleRule := ⟨[], StyleTree.distinct_empty⟩

instance : EmptyCollection StyleRule := ⟨empty⟩
instance : Inhabited StyleRule := ⟨empty⟩

def size (rule : StyleRule) : Nat := rule.entries.length

def isEmpty (rule : StyleRule) : Bool := rule.entries.isEmpty

def toList (rule : StyleRule) : List (String × StyleValue) :=
  rule.entries.pmap (fun e h => (e.1, .ofTree e.2 h)) (StyleTree.eachDistinct_iff.1 rule.distinct.2)

def get? (rule : StyleRule) (property : String) : Option StyleValue :=
  (Entries.get? property rule.entries).pmap StyleValue.ofTree
    fun _ h => StyleTree.distinct_of_get? rule.distinct h

/-- Declares a property, in its old place if it is declared already. -/
def set (rule : StyleRule) (property : String) (value : StyleValue) : StyleRule :=
  ⟨Entries.insert property value.tree rule.entries,
    StyleTree.distinct_insert rule.distinct property value.tree_distinct⟩

def setAll (rule other : StyleRule) : StyleRule :=
  ⟨Entries.insertAll rule.entries other.entries,
    StyleTree.distinct_insertAll rule.distinct other.distinct.2⟩

def ofList (declarations : List (String × StyleValue)) : StyleRule :=
  declarations.foldl (fun rule e => rule.set e.1 e.2) ∅

/-- The same declarations at every level, in any order. -/
instance : BEq StyleRule where
  beq a b := decide (a.tree.canonical = b.tree.canonical)

end StyleRule
end StyleVariants

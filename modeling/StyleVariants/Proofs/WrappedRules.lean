import StyleVariants.Proofs.RenderedClasses
import StyleVariants.StyleRule.Lemmas

/-!
# How a rule under a condition is printed

Putting a rule under a condition nests it in blocks, and printing takes the blocks apart again.
The two go by the same names of blocks: what is printed is the rule itself, at the place to
which the predicates of the condition lead, between the lines that open and close their blocks.
-/
namespace StyleVariants

namespace StyleRule

def ofBlock (name : String) (inner : StyleRule) : StyleRule := (∅ : StyleRule).setBlock name inner

theorem tree_ofBlock (name : String) (inner : StyleRule) :
    (ofBlock name inner).tree = .block [(name, inner.tree)] := rfl

theorem empty_addAt_cons (name predicate : String) (path : List (String × String))
    (inner : StyleRule) :
    (∅ : StyleRule).addAt inner ((name, predicate) :: path) =
      ofBlock name (ofBlock predicate ((∅ : StyleRule).addAt inner path)) := by
  cases path with
  | nil => rw [addAt, addAt, empty_setAll]; rfl
  | cons next path => rfl

end StyleRule

namespace Css

/-- Where a rule is printed: its selector and the number of open blocks around it. -/
structure Place where
  selector : String
  depth : Nat

namespace Place

/-- The place of what stands under a predicate: a pattern replaces the selector, a query opens a
block. -/
def enter (place : Place) : ConditionKind × String → Place
  | (.selector, pattern) => { place with selector := substitute pattern place.selector }
  | (.media, _) | (.supports, _) | (.container, _) => { place with depth := place.depth + 1 }

def header? (place : Place) : ConditionKind × String → Option Line
  | (.selector, _) => none
  | (kind, query) => some ⟨place.depth, .opening (kind.blockName ++ " " ++ query)⟩

/-- The place that predicates lead to, the first being the outermost. -/
def within (place : Place) (predicates : List (ConditionKind × String)) : Place :=
  predicates.foldl enter place

def headers (place : Place) : List (ConditionKind × String) → List Line
  | [] => []
  | predicate :: rest => (place.header? predicate).toList ++ (place.enter predicate).headers rest

end Place

def closings (headers : List Line) : List Line :=
  headers.reverse.map fun header => ⟨header.depth, .closing⟩

theorem closings_append (outer inner : List Line) :
    closings (outer ++ inner) = closings inner ++ closings outer := by
  simp [closings]

theorem tree_ofBlock_ofBlock (place : Place) (kind : ConditionKind) (predicate : String)
    (r : StyleRule) :
    tree place.selector place.depth
        (StyleRule.ofBlock kind.blockName (StyleRule.ofBlock predicate r)).tree =
      (place.header? (kind, predicate)).toList ++
        rule (place.enter (kind, predicate)).selector (place.enter (kind, predicate)).depth r ++
        closings (place.header? (kind, predicate)).toList := by
  have hplain : (StyleTree.block [(predicate, r.tree)]).plainText? = none := rfl
  have hblock : r.tree.isBlock = true := rfl
  rw [StyleRule.tree_ofBlock, StyleRule.tree_ofBlock]
  cases kind <;>
    simp [tree, blocks, queries, patterns, queryKeys, patternKey, declarations, hplain, hblock, rule,
      ConditionKind.blockName, Place.header?, Place.enter, closings]

theorem tree_empty_addAt (predicates : List (ConditionKind × String)) (place : Place)
    (r : StyleRule) :
    tree place.selector place.depth
        ((∅ : StyleRule).addAt r (predicates.map fun e => (e.1.blockName, e.2))).tree =
      place.headers predicates ++
        rule (place.within predicates).selector (place.within predicates).depth r ++
        closings (place.headers predicates) := by
  induction predicates generalizing place with
  | nil => simp [StyleRule.addAt, Place.headers, Place.within, closings, rule]
  | cons predicate rest ih =>
      obtain ⟨kind, text⟩ := predicate
      have hrest := ih (place.enter (kind, text))
      rw [List.map_cons, StyleRule.empty_addAt_cons, tree_ofBlock_ofBlock, rule, hrest]
      simp only [Place.headers, Place.within, List.foldl_cons, closings_append,
        List.append_assoc]

/-- A rule under a condition is printed as the rule itself at the place that the predicates lead
to, between their headers and as many closing lines. The condition that holds always adds
nothing. -/
theorem text_rule_under (r : StyleRule) (c : Condition) (selector : String) (depth : Nat) :
    let place : Place := ⟨selector, depth⟩
    let inside := place.within c.predicates.entries
    let headers := place.headers c.predicates.entries
    rule selector depth (r.under c) =
        headers ++ rule inside.selector inside.depth r ++ closings headers ∧
      text (rule selector depth (r.under c)) =
        text headers ++ text (rule inside.selector inside.depth r) ++ text (closings headers) ∧
      text (rule selector depth (r.under .always)) = text (rule selector depth r) := by
  intro place inside headers
  have hlines : rule selector depth (r.under c) =
      headers ++ rule inside.selector inside.depth r ++ closings headers :=
    tree_empty_addAt c.predicates.entries place r
  refine ⟨hlines, ?_, ?_⟩
  · rw [hlines, text_append, text_append]
  · rw [StyleRule.under_always]

example :
    let hovered := (Condition.always.insert .media "print").insert .selector "&:hover > &"
    text (rule ".a" 0 ((StyleRule.ofList [("color", .text "red")]).under hovered)) =
      "@media print \x7b\n  .a:hover > .a \x7b\n    color: red;\n  \x7d\n\x7d\n" := by
  decide

end Css
end StyleVariants

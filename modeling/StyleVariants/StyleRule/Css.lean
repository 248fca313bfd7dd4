import StyleVariants.StyleRule.Basic

/-!
# Style sheets

Each query of an at-rule opens a block around the nested rule, and each pattern of
`selectors` replaces the selector. Blocks under other keys are left out.
-/
namespace StyleVariants

namespace Css

inductive Content where
  | opening (header : String)
  | declaration (property value : String)
  | closing

/-- A line inside `depth` open blocks. -/
structure Line where
  depth : Nat
  content : Content

def Content.text : Content → String
  | opening header => header ++ " \x7b"
  | declaration property value => property ++ ": " ++ value ++ ";"
  | closing => "\x7d"

def Line.text (line : Line) : String :=
  String.ofList (List.replicate (2 * line.depth) ' ') ++ line.content.text

def text (lines : List Line) : String := String.join (lines.map fun line => line.text ++ "\n")

def hyphenate (c : Char) : List Char := if c.isUpper then ['-', c.toLower] else [c]

/-- The CSS name of a property. Custom properties stay as they are, and the vendor
prefix `ms` is the one that is not capitalised. -/
def propertyName (property : String) : String :=
  match property.toList with
  | '-' :: '-' :: _ => property
  | cs =>
      match cs.flatMap hyphenate with
      | 'm' :: 's' :: '-' :: rest => String.ofList ('-' :: 'm' :: 's' :: '-' :: rest)
      | cs => String.ofList cs

def substitute (pattern selector : String) : String :=
  String.ofList (pattern.toList.flatMap fun c => if c = '&' then selector.toList else [c])

/-- The plain declarations of a level, in a block of their own if there are any. -/
def declarations (selector : String) (depth : Nat) (entries : List (String × StyleTree)) :
    List Line :=
  match entries.filterMap fun e => e.2.plainText?.map (e.1, ·) with
  | [] => []
  | plain =>
      ⟨depth, .opening selector⟩ ::
        (plain.map fun e => ⟨depth + 1, .declaration (propertyName e.1) e.2⟩) ++
        [⟨depth, .closing⟩]

/-- The keys of blocks whose rules stand in at-rules of the same name. -/
def queryKeys : List String := ["@media", "@supports", "@container"]

/-- The key of the block whose rules stand under selectors of their own. -/
def patternKey : String := "selectors"

mutual

/-- The lines of a nested rule; a plain value has none. -/
def tree (selector : String) (depth : Nat) : StyleTree → List Line
  | .block entries => declarations selector depth entries ++ blocks selector depth entries
  | _ => []

/-- The lines of the blocks nested at one level. -/
def blocks (selector : String) (depth : Nat) : List (String × StyleTree) → List Line
  | [] => []
  | (key, .block inner) :: entries =>
      (if key ∈ queryKeys then queries key selector depth inner
      else if key = patternKey then patterns selector depth inner
      else []) ++ blocks selector depth entries
  | _ :: entries => blocks selector depth entries

def queries (key selector : String) (depth : Nat) : List (String × StyleTree) → List Line
  | [] => []
  | (query, nested) :: entries =>
      (if nested.isBlock then
        ⟨depth, .opening (key ++ " " ++ query)⟩ ::
          (tree selector (depth + 1) nested ++ [⟨depth, .closing⟩])
      else []) ++ queries key selector depth entries

def patterns (selector : String) (depth : Nat) : List (String × StyleTree) → List Line
  | [] => []
  | (pattern, nested) :: entries =>
      tree (substitute pattern selector) depth nested ++ patterns selector depth entries

end

def rule (selector : String) (depth : Nat) (r : StyleRule) : List Line :=
  tree selector depth r.tree

end Css
end StyleVariants

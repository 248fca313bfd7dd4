import StyleVariants.Json.Basic

/-!
# Reading shapes

A record is an object that names no field twice, other members aside, or an array of the
fields in their order, from which trailing ones may be missing.
-/
namespace StyleVariants.Json
variable {α : Type}

def text? : Json → Option String
  | .string s => some s
  | _ => none

def bool? : Json → Option Bool
  | .bool b => some b
  | _ => none

def list? (f : Json → Option α) : Json → Option (List α)
  | .array items => items.mapM f
  | _ => none

def nullable? (f : Json → Option α) : Json → Option (Option α)
  | .null => some none
  | doc => (f doc).map some

def member? {κ : Type} (key? : String → Option κ) (f : Json → Option α)
    (member : String × Json) : Option (κ × α) := do
  return (← key? member.1, ← f member.2)

/-- Entries that a later one overwrites must be readable too. -/
def keyed? {κ : Type} [DecidableEq κ] (key? : String → Option κ) (f : Json → Option α) :
    Json → Option (OrderedMap κ α)
  | .object members => (members.mapM (member? key? f)).map .ofList
  | _ => none

def map? (f : Json → Option α) (doc : Json) : Option (OrderedMap String α) := keyed? some f doc

def record? (names : List String) : Json → Option (String → Option Json)
  | .object members =>
      if names.all fun name => members.countP (·.1 == name) ≤ 1 then
        some fun name => Entries.get? name members
      else none
  | .array items =>
      if items.length ≤ names.length then some fun name => Entries.get? name (names.zip items)
      else none
  | _ => none

def required? (f : Json → Option α) : Option Json → Option α
  | none => none
  | some doc => f doc

/-- A field with a value for its absence. -/
def optional? (default : α) (f : Json → Option α) : Option Json → Option α
  | none => some default
  | some doc => f doc

end StyleVariants.Json

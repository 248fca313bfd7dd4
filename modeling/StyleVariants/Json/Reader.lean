import StyleVariants.Json.Basic
import StyleVariants.Json.Quoted
import StyleVariants.Number.Numeral

/-!
# Reading documents

One pass over the characters of a text. Blanks may stand around every part. Each
call of `value` or of a tail consumes a character before it calls again, so fuel
beyond the length of the text is never used up.
-/
namespace StyleVariants.Json

def isBlank (c : Char) : Bool := c == ' ' || c == '\n' || c == '\t' || c == '\r'

def skipBlanks (cs : List Char) : List Char := cs.dropWhile isBlank

def ofNumeral (n : Numeral) : Json :=
  match n.number? with
  | some value => .number value
  | none => .unreadable

def ofLiteral : Option String → Json
  | some s => .string s
  | none => .unreadable

/-- An object whose keys all have a value. -/
def ofMembers (members : List (Option String × Json)) : Json :=
  match members.mapM fun m => m.1.map (·, m.2) with
  | some members => .object members
  | none => .unreadable

/-- The key of a member and the colon behind it. -/
def key? (cs : List Char) : Option (Option String × List Char) :=
  match skipBlanks cs with
  | '"' :: rest => do
      let (key, rest) ← Quoted.read? rest
      match skipBlanks rest with
      | ':' :: rest => some (key, rest)
      | _ => none
  | _ => none

mutual

/-- One value at the start of a text, and what follows it. -/
def value? : Nat → List Char → Option (Json × List Char)
  | 0, _ => none
  | fuel + 1, cs =>
    match skipBlanks cs with
    | 'n' :: 'u' :: 'l' :: 'l' :: rest => some (.null, rest)
    | 't' :: 'r' :: 'u' :: 'e' :: rest => some (.bool true, rest)
    | 'f' :: 'a' :: 'l' :: 's' :: 'e' :: rest => some (.bool false, rest)
    | '"' :: rest => (Quoted.read? rest).map fun (s, rest) => (ofLiteral s, rest)
    | '[' :: rest =>
      match skipBlanks rest with
      | ']' :: rest => some (.array [], rest)
      | rest => do
          let (item, rest) ← value? fuel rest
          let (items, rest) ← itemsTail? fuel rest
          return (.array (item :: items), rest)
    | '\x7b' :: rest =>
      match skipBlanks rest with
      | '\x7d' :: rest => some (.object [], rest)
      | rest => do
          let (key, rest) ← key? rest
          let (value, rest) ← value? fuel rest
          let (members, rest) ← membersTail? fuel rest
          return (ofMembers ((key, value) :: members), rest)
    | rest => (Numeral.read? rest).map fun (n, rest) => (ofNumeral n, rest)

/-- The items behind the first one, up to the closing bracket. -/
def itemsTail? : Nat → List Char → Option (List Json × List Char)
  | 0, _ => none
  | fuel + 1, cs =>
    match skipBlanks cs with
    | ']' :: rest => some ([], rest)
    | ',' :: rest => do
        let (item, rest) ← value? fuel rest
        let (items, rest) ← itemsTail? fuel rest
        return (item :: items, rest)
    | _ => none

/-- The members behind the first one, up to the closing brace. -/
def membersTail? : Nat → List Char → Option (List (Option String × Json) × List Char)
  | 0, _ => none
  | fuel + 1, cs =>
    match skipBlanks cs with
    | '\x7d' :: rest => some ([], rest)
    | ',' :: rest => do
        let (key, rest) ← key? rest
        let (value, rest) ← value? fuel rest
        let (members, rest) ← membersTail? fuel rest
        return ((key, value) :: members, rest)
    | _ => none

end

/-- The document that a text holds, with nothing but blanks around it. -/
def read? (text : String) : Option Json :=
  let cs := text.toList
  match value? (cs.length + 1) cs with
  | some (doc, rest) => if (skipBlanks rest).isEmpty then some doc else none
  | none => none

end StyleVariants.Json

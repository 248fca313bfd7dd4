/-! # References to custom properties -/
namespace StyleVariants.Reference

def opened? (text : List Char) : Option (List Char) :=
  if text.getLast? = some ')' then some text.dropLast else none

/-- The property that a reference `var(…)` names; any other text is its own name. -/
def target (reference : String) : String :=
  match reference.toList with
  | 'v' :: 'a' :: 'r' :: '(' :: rest =>
      match opened? rest with
      | some name => String.ofList name
      | none => reference
  | _ => reference

/-- A value without a closing parenthesis has no place for a fallback and ends the chain. -/
def chain : List String → String
  | [] => ""
  | [value] => value
  | value :: rest =>
      match opened? value.toList with
      | some head => String.ofList head ++ ", " ++ chain rest ++ ")"
      | none => value

end StyleVariants.Reference

import StyleVariants.Json.Basic
import StyleVariants.Json.Quoted

/-!
# Writing documents

A document without a value is written as a number that no double can hold, which reads
back as just that.
-/
namespace StyleVariants.Json

mutual

def chars : Json → List Char
  | .null => ['n', 'u', 'l', 'l']
  | .bool true => ['t', 'r', 'u', 'e']
  | .bool false => ['f', 'a', 'l', 's', 'e']
  | .number n => n.chars
  | .string s => Quoted.chars s.toList
  | .array [] => ['[', ']']
  | .array (item :: items) => '[' :: (item.chars ++ itemsTail items)
  | .object [] => ['\x7b', '\x7d']
  | .object ((key, value) :: members) =>
      '\x7b' :: (Quoted.chars key.toList ++ ':' :: (value.chars ++ membersTail members))
  | .unreadable => ['1', 'e', '9', '9', '9']

def itemsTail : List Json → List Char
  | [] => [']']
  | item :: items => ',' :: (item.chars ++ itemsTail items)

def membersTail : List (String × Json) → List Char
  | [] => ['\x7d']
  | (key, value) :: members =>
      ',' :: (Quoted.chars key.toList ++ ':' :: (value.chars ++ membersTail members))

end

def text (doc : Json) : String := String.ofList doc.chars

end StyleVariants.Json

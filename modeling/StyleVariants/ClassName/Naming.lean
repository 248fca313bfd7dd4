import StyleVariants.StyleRule.Json

/-!
# Naming classes

Names other than hashed ones are at most 32 bytes long: a longer one keeps 24 characters
and takes six digits of its own hash. The hash is any function from texts to texts.
-/
namespace StyleVariants

inductive NamingMode where
  | hash
  | readable
  | camelCase
  deriving DecidableEq

namespace ClassName

def isNameChar (c : Char) : Bool := c.isAlphanum || c == '-' || c == '_'

def sanitize (text : String) : String :=
  String.ofList (text.toList.map fun c => if isNameChar c then c else '_')

theorem isNameChar_of_mem_sanitize {text : String} {c : Char} (h : c ∈ (sanitize text).toList) :
    isNameChar c = true := by
  rw [sanitize, String.toList_ofList] at h
  obtain ⟨d, -, rfl⟩ := List.mem_map.1 h
  by_cases hd : isNameChar d = true
  · rwa [if_pos hd]
  · rw [if_neg hd]
    decide

def hashDigits (digest : String → String) (input : String) (count : Nat) : String :=
  String.ofList ((digest input).toList.take count)

theorem isHexDigit_of_mem_hashDigits {digest : String → String} {input : String} {count : Nat}
    (hdigest : Hexadecimal (digest input)) {c : Char}
    (h : c ∈ (hashDigits digest input count).toList) : isHexDigit c = true := by
  rw [hashDigits, String.toList_ofList] at h
  exact hdigest c (List.mem_of_mem_take h)

def shorten (digest : String → String) (name separator : String) : String :=
  if name.utf8ByteSize ≤ 32 then name
  else String.ofList (name.toList.take 24) ++ separator ++ hashDigits digest name 6

/-- The text whose hash names a rule under a label in a scope. -/
def hashInput (scope : String) (label : Option String) (rule : StyleRule) : String :=
  scope ++ "\n" ++ label.getD "" ++ "\n" ++ rule.text

def hashed (digest : String → String) (scope : String) (label : Option String)
    (rule : StyleRule) : String :=
  scope ++ "__" ++ hashDigits digest (hashInput scope label rule) 8

def trim (text : String) : String :=
  let cs := text.toList.dropWhile (· == '_')
  String.ofList (cs.reverse.dropWhile (· == '_')).reverse

def readable (digest : String → String) (scope : String) (label : Option String) : String :=
  let label := ((label.map trim).filter (· ≠ "")).getD "style"
  shorten digest (sanitize scope ++ "__" ++ sanitize label) "_"

def isSeparator (c : Char) : Bool := c == '_' || c == '-'

/-- Drops separators; the character behind one is capitalised unless it is the first of
the name. -/
def joinWords (started capital : Bool) : List Char → List Char
  | [] => []
  | c :: cs =>
      if isSeparator c then joinWords started true cs
      else (if started && capital then c.toUpper else c) :: joinWords true false cs

/-- A label in camel case, with an underscore in front of a leading digit. -/
def camel (label : String) : String :=
  match joinWords false false (sanitize label).toList with
  | [] => ""
  | c :: cs => String.ofList (if c.isDigit then '_' :: c :: cs else c :: cs)

def camelCase (digest : String → String) (label : Option String) : String :=
  let name := camel (label.getD "")
  if name = "" then "style" else shorten digest name ""

/-- The name of a rule before clashes are settled. -/
def generate (digest : String → String) (mode : NamingMode) (scope : String)
    (label : Option String) (rule : StyleRule) : String :=
  match mode with
  | .hash => hashed digest scope label rule
  | .readable => readable digest scope label
  | .camelCase => camelCase digest label

end ClassName
end StyleVariants

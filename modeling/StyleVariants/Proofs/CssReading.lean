import StyleVariants.Proofs.RenderedClasses
import Mathlib.Data.List.Infix

/-!
# Reading a style sheet

A style sheet can be read line by line, whoever wrote it. A line with an opening brace opens a
block under the header in front of the brace, a line with a closing brace closes the innermost
block, and any other line is a declaration inside all blocks that are open. Printed lines are
read back this way, each with the headers it was printed under, as long as no text in them has a
line break or a brace of its own. Whether braces match is counted character by character, apart
from all lines.
-/
namespace StyleVariants.Css

/-- Inside `before` open blocks a text never closes a block that is not open, and leaves `after`
blocks open. -/
structure Opens (before : Nat) (cs : List Char) (after : Nat) : Prop where
  front_le : ∀ front, front <+: cs → front.count '\x7d' ≤ before + front.count '\x7b'
  whole : before + cs.count '\x7b' = after + cs.count '\x7d'

/-- No front of a text closes more blocks than it opens, and the text closes all. -/
structure Balanced (css : String) : Prop where
  front_le : ∀ front, front <+: css.toList → front.count '\x7d' ≤ front.count '\x7b'
  whole : css.toList.count '\x7d' = css.toList.count '\x7b'

namespace Opens
variable {i j k : Nat} {cs ds : List Char}

theorem append (h : Opens i cs j) (h' : Opens j ds k) : Opens i (cs ++ ds) k where
  front_le := by
    rintro front ⟨rest, hrest⟩
    rcases List.append_eq_append_iff.1 hrest with ⟨mid, hcs, -⟩ | ⟨mid, hfront, hds⟩
    · exact h.front_le front ⟨mid, hcs.symm⟩
    · have hmid := h'.front_le mid ⟨rest, hds.symm⟩
      have hwhole := h.whole
      rw [hfront, List.count_append, List.count_append]
      omega
  whole := by
    have hfirst := h.whole
    have hsecond := h'.whole
    rw [List.count_append, List.count_append]
    omega

/-- A text that closes no more blocks than are open before it. -/
theorem of_count_le (hclosed : cs.count '\x7d' ≤ i)
    (hwhole : i + cs.count '\x7b' = j + cs.count '\x7d') : Opens i cs j where
  front_le := by
    intro front hfront
    have hle := hfront.sublist.count_le '\x7d'
    omega
  whole := hwhole

theorem balanced {css : String} (h : Opens 0 css.toList 0) : Balanced css where
  front_le front hfront := by simpa using h.front_le front hfront
  whole := by simpa using h.whole.symm

end Opens

/-- The lines of a text, the last of which has a line break, too. -/
def linesOf (css : String) : List (List Char) := (css.toList.splitOn '\n').dropLast

structure EnclosedLine where
  headers : List String
  line : List Char

namespace EnclosedLine

/-- The line begins with two blanks for every block around it. -/
def Indented (e : EnclosedLine) : Prop := List.replicate (2 * e.headers.length) ' ' <+: e.line

def isDeclaration (e : EnclosedLine) : Bool := '\x7b' ∉ e.line && '\x7d' ∉ e.line

def content (e : EnclosedLine) : String := String.ofList (e.line.drop (2 * e.headers.length))

end EnclosedLine

/-- What stands between the indentation and the blank in front of the brace. -/
def headerIn (depth : Nat) (line : List Char) : String :=
  String.ofList ((line.drop (2 * depth)).dropLast.dropLast)

def openBehind (headers : List String) (line : List Char) : List String :=
  if '\x7b' ∈ line then headers ++ [headerIn headers.length line]
  else if '\x7d' ∈ line then headers.dropLast
  else headers

/-- The blocks around a line. A block does not contain the line that closes it. -/
def openAround (headers : List String) (line : List Char) : List String :=
  if '\x7d' ∈ line then headers.dropLast else headers

/-- Every line with the blocks around it, if `headers` are open before the first. -/
def enclose (headers : List String) : List (List Char) → List EnclosedLine
  | [] => []
  | line :: rest => ⟨openAround headers line, line⟩ :: enclose (openBehind headers line) rest

theorem enclose_append (headers : List String) (front rest : List (List Char)) :
    enclose headers (front ++ rest) =
      enclose headers front ++ enclose (front.foldl openBehind headers) rest := by
  induction front generalizing headers with
  | nil => rfl
  | cons line front ih => rw [List.cons_append, enclose, enclose, ih, List.foldl_cons,
      List.cons_append]

def declarationsAmong (lines : List EnclosedLine) : List (List String × String) :=
  (lines.filter EnclosedLine.isDeclaration).map fun e => (e.headers, e.content)

def read (css : String) : List EnclosedLine := enclose [] (linesOf css)

def CleanChar (c : Char) : Prop := c ≠ '\n' ∧ c ≠ '\x7b' ∧ c ≠ '\x7d'

instance (c : Char) : Decidable (CleanChar c) :=
  inferInstanceAs (Decidable (c ≠ '\n' ∧ c ≠ '\x7b' ∧ c ≠ '\x7d'))

def Clean (text : String) : Prop := ∀ c ∈ text.toList, CleanChar c

instance (text : String) : Decidable (Clean text) :=
  List.decidableBAll CleanChar text.toList

namespace Clean
variable {text rest : String}

theorem append (h : Clean text) (h' : Clean rest) : Clean (text ++ rest) := by
  intro c hc
  rw [String.toList_append, List.mem_append] at hc
  exact hc.elim (h c) (h' c)

theorem not_break (h : Clean text) : '\n' ∉ text.toList := fun hc => (h _ hc).1 rfl

theorem not_opening (h : Clean text) : '\x7b' ∉ text.toList := fun hc => (h _ hc).2.1 rfl

theorem not_closing (h : Clean text) : '\x7d' ∉ text.toList := fun hc => (h _ hc).2.2 rfl

end Clean

def Line.chars (line : Line) : List Char := line.text.toList

theorem Line.chars_eq (line : Line) :
    line.chars = List.replicate (2 * line.depth) ' ' ++ line.content.text.toList := by
  rw [chars, text, String.toList_append, String.toList_ofList]

theorem Line.count_chars (line : Line) {c : Char} (hc : c ≠ ' ') :
    line.chars.count c = line.content.text.toList.count c := by
  rw [chars_eq, List.count_append, List.count_replicate, if_neg (by simpa using hc.symm),
    Nat.zero_add]

theorem Line.mem_chars_iff (line : Line) {c : Char} (hc : c ≠ ' ') :
    c ∈ line.chars ↔ c ∈ line.content.text.toList := by
  rw [← List.count_pos_iff, line.count_chars hc, List.count_pos_iff]

theorem Line.drop_chars (line : Line) :
    line.chars.drop (2 * line.depth) = line.content.text.toList := by
  rw [chars_eq, List.drop_left' List.length_replicate]

theorem toList_text_cons (line : Line) (lines : List Line) :
    (text (line :: lines)).toList = line.chars ++ '\n' :: (text lines).toList := by
  simp [text, Line.chars]

theorem linesOf_text {lines : List Line} (h : ∀ line ∈ lines, '\n' ∉ line.chars) :
    linesOf (text lines) = lines.map Line.chars := by
  unfold linesOf
  induction lines with
  | nil => rfl
  | cons line lines ih =>
      rw [List.forall_mem_cons] at h
      rw [toList_text_cons, List.splitOn_append_cons_self_of_not_mem h.1,
        List.dropLast_cons_of_ne_nil (List.splitOn_ne_nil _ _), ih h.2, List.map_cons]

/-- Printed lines lead from some open blocks to others and declare something on the way. -/
structure Scans (before : List String) (lines : List Line) (after : List String)
    (declared : List (List String × String)) : Prop where
  unbroken : ∀ line ∈ lines, '\n' ∉ line.chars
  opens : Opens before.length (text lines).toList after.length
  behind : (lines.map Line.chars).foldl openBehind before = after
  indented : ∀ e ∈ enclose before (lines.map Line.chars), e.Indented
  declared : declarationsAmong (enclose before (lines.map Line.chars)) = declared

namespace Scans
variable {before mid after headers : List String} {lines front rest : List Line}
  {declared declared' : List (List String × String)}

theorem nil (headers : List String) : Scans headers [] headers [] where
  unbroken := by simp
  opens := .of_count_le (by simp [text]) rfl
  behind := rfl
  indented := by simp [enclose]
  declared := rfl

theorem append (h : Scans before front mid declared) (h' : Scans mid rest after declared') :
    Scans before (front ++ rest) after (declared ++ declared') where
  unbroken line hline := (List.mem_append.1 hline).elim (h.unbroken line) (h'.unbroken line)
  opens := by
    rw [text_append, String.toList_append]
    exact h.opens.append h'.opens
  behind := by rw [List.map_append, List.foldl_append, h.behind, h'.behind]
  indented := by
    rw [List.map_append, enclose_append, h.behind]
    intro e he
    exact (List.mem_append.1 he).elim (h.indented e) (h'.indented e)
  declared := by
    rw [List.map_append, enclose_append, h.behind, ← h.declared, ← h'.declared, declarationsAmong,
      List.filter_append, List.map_append]
    rfl

theorem single (before after : List String) (line : Line) (hunbroken : '\n' ∉ line.chars)
    (hclosed : line.chars.count '\x7d' ≤ before.length)
    (hwhole : before.length + line.chars.count '\x7b' =
      after.length + line.chars.count '\x7d')
    (hbehind : openBehind before line.chars = after)
    (hdepth : (openAround before line.chars).length = line.depth) :
    Scans before [line] after (declarationsAmong [⟨openAround before line.chars, line.chars⟩]) where
  unbroken := by simpa using hunbroken
  opens := by
    have htext : (text [line]).toList = line.chars ++ ['\n'] := toList_text_cons line []
    rw [htext]
    refine .of_count_le ?_ ?_
    · simpa [List.count_append] using hclosed
    · simpa [List.count_append] using hwhole
  behind := hbehind
  indented := by
    intro e he
    obtain rfl := List.mem_singleton.1 he
    rw [EnclosedLine.Indented, hdepth, line.chars_eq]
    exact List.prefix_append _ _
  declared := rfl

theorem opening {header : String} (h : Clean header) :
    Scans headers [⟨headers.length, .opening header⟩] (headers ++ [header]) [] := by
  let line : Line := ⟨headers.length, .opening header⟩
  have htext : line.content.text.toList = header.toList ++ [' ', '\x7b'] := by
    simp [line, Content.text]
  have hbreak : '\n' ∉ line.chars := by
    simp [line.mem_chars_iff, htext, h.not_break]
  have hopening : line.chars.count '\x7b' = 1 := by
    simp [line.count_chars, htext, List.count_append, List.count_eq_zero.2 h.not_opening]
  have hclosing : '\x7d' ∉ line.chars := by
    simp [line.mem_chars_iff, htext, h.not_closing]
  have hmem : '\x7b' ∈ line.chars := List.count_pos_iff.1 (by omega)
  have hheader : headerIn headers.length line.chars = header := by
    have hdrop : line.chars.drop (2 * headers.length) = header.toList ++ [' ', '\x7b'] :=
      line.drop_chars.trans htext
    rw [headerIn, hdrop]
    simp
  have haround : openAround headers line.chars = headers := if_neg hclosing
  have hscan := single headers (headers ++ [header]) line hbreak
    (by rw [List.count_eq_zero.2 hclosing]; omega)
    (by rw [List.count_eq_zero.2 hclosing, hopening, List.length_append]; rfl)
    (by rw [openBehind, if_pos hmem, hheader]) (by rw [haround])
  simpa [declarationsAmong, EnclosedLine.isDeclaration, hmem] using hscan

theorem closing (headers : List String) (header : String) :
    Scans (headers ++ [header]) [⟨headers.length, .closing⟩] headers [] := by
  let line : Line := ⟨headers.length, .closing⟩
  have htext : line.content.text.toList = ['\x7d'] := by simp [line, Content.text]
  have hbreak : '\n' ∉ line.chars := by simp [line.mem_chars_iff, htext]
  have hopening : '\x7b' ∉ line.chars := by simp [line.mem_chars_iff, htext]
  have hclosing : line.chars.count '\x7d' = 1 := by simp [line.count_chars, htext]
  have hmem : '\x7d' ∈ line.chars := List.count_pos_iff.1 (by omega)
  have haround : openAround (headers ++ [header]) line.chars = headers := by
    rw [openAround, if_pos hmem, List.dropLast_concat]
  have hscan := single (headers ++ [header]) headers line hbreak
    (by rw [hclosing, List.length_append]; simp)
    (by rw [List.count_eq_zero.2 hopening, hclosing, List.length_append]; rfl)
    (by rw [openBehind, if_neg hopening, if_pos hmem, List.dropLast_concat]) (by rw [haround])
  simpa [declarationsAmong, EnclosedLine.isDeclaration, hmem] using hscan

theorem declaration {property value : String} (hp : Clean property) (hv : Clean value) :
    Scans headers [⟨headers.length, .declaration property value⟩] headers
      [(headers, property ++ ": " ++ value ++ ";")] := by
  let line : Line := ⟨headers.length, .declaration property value⟩
  have hclean : Clean line.content.text :=
    ((hp.append (by decide)).append hv).append (by decide)
  have hbreak : '\n' ∉ line.chars := by simp [line.mem_chars_iff, hclean.not_break]
  have hopening : '\x7b' ∉ line.chars := by simp [line.mem_chars_iff, hclean.not_opening]
  have hclosing : '\x7d' ∉ line.chars := by simp [line.mem_chars_iff, hclean.not_closing]
  have haround : openAround headers line.chars = headers := if_neg hclosing
  have hscan := single headers headers line hbreak
    (by rw [List.count_eq_zero.2 hclosing]; omega)
    (by rw [List.count_eq_zero.2 hopening, List.count_eq_zero.2 hclosing])
    (by rw [openBehind, if_neg hopening, if_neg hclosing]) (by rw [haround])
  have hcontent : (EnclosedLine.mk headers line.chars).content = line.content.text := by
    have hdrop : line.chars.drop (2 * headers.length) = line.content.text.toList := line.drop_chars
    rw [EnclosedLine.content, hdrop, String.ofList_toList]
  have hdeclared : declarationsAmong [⟨openAround headers line.chars, line.chars⟩] =
      [(headers, line.content.text)] := by
    simp [declarationsAmong, EnclosedLine.isDeclaration, haround, hopening, hclosing, hcontent]
  rw [hdeclared] at hscan
  exact hscan

/-- Lines inside a block of their own. -/
theorem block {header : String} (h : Clean header)
    (hinner : Scans (headers ++ [header]) lines (headers ++ [header]) declared) :
    Scans headers
      (⟨headers.length, .opening header⟩ :: (lines ++ [⟨headers.length, .closing⟩]))
      headers declared := by
  simpa using (opening h).append (hinner.append (closing headers header))

end Scans
end StyleVariants.Css

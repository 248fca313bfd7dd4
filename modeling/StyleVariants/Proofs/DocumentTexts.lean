import StyleVariants.Json.Decode
import StyleVariants.Proofs.NumeralTexts

/-!
# Documents read back from their texts

A string is read back from its quoted form, whatever its characters. A document whose
numbers read back is read back as a whole: same members, same items, same order. What
stands behind a document in a text stays unread, so the reading of a part says all that the
reading of the whole needs to know about it.
-/
namespace StyleVariants

namespace Quoted

theorem unit?_of_control {c : Char} (hc : c.toNat < 32) :
    unit? '0' '0' (hexDigit (c.toNat / 16)) (hexDigit (c.toNat % 16)) = some (.char c) := by
  have hzero : hexValue? '0' = some 0 := rfl
  have hhigh := hexValue?_hexDigit (c.toNat / 16) (by omega)
  have hlow := hexValue?_hexDigit (c.toNat % 16) (by omega)
  have hvalue : ((0 * 16 + 0) * 16 + c.toNat / 16) * 16 + c.toNat % 16 = c.toNat := by omega
  simp only [unit?, hzero, hhigh, hlow, Option.bind_eq_bind, Option.bind_some, hvalue,
    Option.pure_def, Char.ofNat_toNat]
  rw [if_neg (by omega)]

def before (c : Char) (read : List Piece × List Char) : List Piece × List Char :=
  (.char c :: read.1, read.2)

theorem pieces?_letter {letter c : Char} (h : unescape? letter = some c) (cs : List Char) :
    pieces? ('\\' :: letter :: cs) = (pieces? cs).map (before c) := by
  have hu : letter ≠ 'u' := by
    rintro rfl
    have hnone : unescape? 'u' = none := by decide
    simp [hnone] at h
  cases hcs : pieces? cs <;> simp [pieces?, hu, h, hcs, before]

/-- The written form of a character is read as that character, whatever follows. -/
theorem pieces?_escape (c : Char) (cs : List Char) :
    pieces? (escape c ++ cs) = (pieces? cs).map (before c) := by
  fun_cases escape c with
  | case8 _ _ _ _ _ _ _ hcontrol =>
      cases hcs : pieces? cs <;> simp [pieces?, unit?_of_control hcontrol, hcs, before]
  | case9 _ hbackslash _ _ _ _ _ hplain =>
      cases hcs : pieces? cs <;> simp [pieces?, hbackslash, hplain, hcs, before]
  | _ => exact pieces?_letter (by simp_all [unescape?]) cs

theorem pieces?_flatMap_escape (s rest : List Char) :
    pieces? (s.flatMap escape ++ '"' :: rest) = some (s.map .char, rest) := by
  induction s with
  | nil => simp [pieces?]
  | cons c s ih =>
      rw [List.flatMap_cons, List.append_assoc, pieces?_escape, ih]
      rfl

theorem join?_map_char (s : List Char) : join? (s.map .char) = some s := by
  induction s with
  | nil => rfl
  | cons c s ih => simp [join?, ih]

theorem read?_flatMap_escape (s : String) (rest : List Char) :
    read? (s.toList.flatMap escape ++ '"' :: rest) = some (some s, rest) := by
  simp [read?, pieces?_flatMap_escape, join?_map_char]

end Quoted

/-- A number whose text is read as the same number. -/
def Number.ReadsBack (n : Number) : Prop :=
  Json.read? (Json.number n).text = some (.number n)

namespace Json

mutual

/-- Every part has a value, and every number reads back. -/
def Readable : Json → Prop
  | .null => True
  | .bool _ => True
  | .number n => n.ReadsBack
  | .string _ => True
  | .array items => EachReadable items
  | .object members => EachValueReadable members
  | .unreadable => False

def EachReadable : List Json → Prop
  | [] => True
  | item :: items => item.Readable ∧ EachReadable items

def EachValueReadable : List (String × Json) → Prop
  | [] => True
  | (_, value) :: members => value.Readable ∧ EachValueReadable members

end

theorem eachReadable_iff {items : List Json} :
    EachReadable items ↔ ∀ item ∈ items, item.Readable := by
  induction items with
  | nil => simp [EachReadable]
  | cons item items ih => simp [EachReadable, ih]

theorem eachValueReadable_iff {members : List (String × Json)} :
    EachValueReadable members ↔ ∀ member ∈ members, member.2.Readable := by
  induction members with
  | nil => simp [EachValueReadable]
  | cons member members ih => simp [EachValueReadable, ih]

theorem skipBlanks_cons {c : Char} (hc : isBlank c = false) (cs : List Char) :
    skipBlanks (c :: cs) = c :: cs := by
  simp [skipBlanks, hc]

/-- Behind a sign or a digit stands a number, not another document. -/
theorem value?_numeral {fuel : Nat} {c : Char} (hc : c = '-' ∨ c.isDigit) (cs : List Char) :
    value? (fuel + 1) (c :: cs) =
      (Numeral.read? (c :: cs)).map fun (n, rest) => (ofNumeral n, rest) := by
  have hblank : isBlank c = false := by
    refine isBlank_of_isNumberChar ?_
    rcases hc with rfl | hc
    · rfl
    · simp [isNumberChar, hc]
  rw [value?, skipBlanks_cons hblank]
  -- all documents but numbers start with another character
  split
  all_goals first
    | rfl
    | next heq =>
        obtain ⟨rfl, -⟩ := List.cons.inj heq
        exact absurd hc (by decide)

theorem ofLiteral_ne_number (s : Option String) (n : Number) : ofLiteral s ≠ .number n := by
  cases s <;> simp [ofLiteral]

theorem ofMembers_ne_number (members : List (Option String × Json)) (n : Number) :
    ofMembers members ≠ .number n := by
  unfold ofMembers
  split <;> simp

theorem exists_numeral_of_value? {fuel : Nat} {cs rest : List Char} {n : Number}
    (h : value? fuel cs = some (.number n, rest)) :
    ∃ m, Numeral.read? (skipBlanks cs) = some (m, rest) ∧ m.number? = some n := by
  cases fuel with
  | zero => simp [value?] at h
  | succ fuel =>
      rw [value?] at h
      split at h
      · simp at h
      · simp at h
      · simp at h
      · obtain ⟨read, -, heq⟩ := Option.map_eq_some_iff.1 h
        exact (ofLiteral_ne_number _ _ (Prod.mk.inj heq).1).elim
      · split at h
        · simp at h
        · simp [Option.bind_eq_some_iff] at h
      · split at h
        · simp at h
        · simp [Option.bind_eq_some_iff, ofMembers_ne_number] at h
      · obtain ⟨⟨m, left⟩, hm, heq⟩ := Option.map_eq_some_iff.1 h
        obtain ⟨hnumber, rfl⟩ := Prod.mk.inj heq
        refine ⟨m, hm, ?_⟩
        unfold ofNumeral at hnumber
        split at hnumber <;> simp_all

theorem readsBack_iff {n : Number} : n.ReadsBack ↔
    ∃ m, Numeral.read? n.chars = some (m, []) ∧ m.number? = some n := by
  -- nothing is skipped: neither the text nor what a numeral leaves of it has a blank
  have hblank : ∀ c ∈ n.chars, isBlank c = false :=
    fun c hc => isBlank_of_isNumberChar (Number.isNumberChar_of_mem_chars hc)
  have hskip : ∀ cs, cs <:+ n.chars → skipBlanks cs = cs := by
    intro cs hcs
    cases cs with
    | nil => rfl
    | cons c cs => exact skipBlanks_cons (hblank c (hcs.subset (by simp))) cs
  have htext : (number n).text.toList = n.chars := by simp [text, chars]
  unfold Number.ReadsBack read?
  simp only [htext]
  constructor
  · intro h
    split at h
    · next doc rest hvalue =>
      split at h
      · next hrest =>
        obtain rfl := Option.some.inj h
        obtain ⟨m, hm, hn⟩ := exists_numeral_of_value? hvalue
        rw [hskip _ List.suffix_rfl] at hm
        rw [hskip _ (Numeral.read?_suffix hm), List.isEmpty_iff] at hrest
        exact ⟨m, hrest ▸ hm, hn⟩
      · simp at h
    · simp at h
  · rintro ⟨m, hm, hn⟩
    obtain ⟨c, tail, hcs, hc⟩ := Numeral.exists_head_of_read? hm
    rw [hcs] at hm ⊢
    simp [value?_numeral hc, hm, ofNumeral, hn, skipBlanks]

theorem value?_number {n : Number} (h : n.ReadsBack) {rest : List Char}
    (hr : Numeral.Ends rest) (fuel : Nat) :
    value? (fuel + 1) (n.chars ++ rest) = some (.number n, rest) := by
  obtain ⟨m, hm, hn⟩ := readsBack_iff.1 h
  obtain ⟨c, tail, hcs, hc⟩ := Numeral.exists_head_of_read? hm
  have hread := Numeral.read?_append hm hr
  rw [hcs, List.cons_append] at hread ⊢
  rw [value?_numeral hc, hread]
  simp [ofNumeral, hn]

end Json

theorem Number.readsBack_int {n : Int} (h : -twoPow 63 ≤ n ∧ n < twoPow 64) :
    (Number.int n h).ReadsBack :=
  Json.readsBack_iff.2 ⟨Numeral.ofInt n, Numeral.read?_intChars_self n, Numeral.number?_ofInt h⟩

namespace Json

/-- A document starts with a character that is neither blank nor the end of an array. -/
theorem exists_head_of_chars {doc : Json} (h : doc.Readable) :
    ∃ c tail, doc.chars = c :: tail ∧ isBlank c = false ∧ c ≠ ']' := by
  have hnumber : ∀ n : Number, n.ReadsBack →
      ∃ c tail, n.chars = c :: tail ∧ isBlank c = false ∧ c ≠ ']' := by
    intro n hn
    obtain ⟨m, hm, -⟩ := readsBack_iff.1 hn
    obtain ⟨c, tail, hcs, hc⟩ := Numeral.exists_head_of_read? hm
    refine ⟨c, tail, hcs, isBlank_of_isNumberChar ?_, ?_⟩
    · exact Number.isNumberChar_of_mem_chars (n := n) (by simp [hcs])
    · rintro rfl
      exact absurd hc (by decide)
  cases doc with
  | null => exact ⟨'n', ['u', 'l', 'l'], rfl, rfl, by decide⟩
  | bool b =>
      cases b with
      | true => exact ⟨'t', ['r', 'u', 'e'], rfl, rfl, by decide⟩
      | false => exact ⟨'f', ['a', 'l', 's', 'e'], rfl, rfl, by decide⟩
  | number n => exact hnumber n h
  | string s => exact ⟨'"', _, rfl, rfl, by decide⟩
  | array items => cases items <;> exact ⟨'[', _, rfl, rfl, by decide⟩
  | object members => cases members <;> exact ⟨'\x7b', _, rfl, rfl, by decide⟩
  | unreadable => exact h.elim

theorem ends_itemsTail (items : List Json) (rest : List Char) :
    Numeral.Ends (itemsTail items ++ rest) := by
  cases items <;> simp [Numeral.Ends, itemsTail, Char.isDigit]

theorem ends_membersTail (members : List (String × Json)) (rest : List Char) :
    Numeral.Ends (membersTail members ++ rest) := by
  cases members <;> simp [Numeral.Ends, membersTail, Char.isDigit]

theorem key?_quoted (key : String) (rest : List Char) :
    key? (Quoted.chars key.toList ++ ':' :: rest) = some (some key, rest) := by
  have hquote : isBlank '"' = false := rfl
  have hcolon : isBlank ':' = false := rfl
  rw [key?, Quoted.chars, List.cons_append, skipBlanks_cons hquote]
  simp [Quoted.read?_flatMap_escape, skipBlanks_cons hcolon]

theorem ofMembers_map_some (members : List (String × Json)) :
    ofMembers (members.map fun m => (some m.1, m.2)) = .object members := by
  have hmembers : (members.map fun m => (some m.1, m.2)).mapM
      (fun m : Option String × Json => m.1.map (·, m.2)) = some members := by
    induction members with
    | nil => rfl
    | cons member members ih => simp [List.mapM_cons, ih]
  rw [ofMembers, hmembers]

-- The induction follows the parts of a document. Each call spends one unit of fuel and at least
-- one character before it calls again, so the length of a part is fuel enough to read it.
mutual

theorem value?_chars (doc : Json) (h : doc.Readable) (fuel : Nat)
    (hf : doc.chars.length ≤ fuel) (rest : List Char) (hr : Numeral.Ends rest) :
    value? fuel (doc.chars ++ rest) = some (doc, rest) := by
  obtain ⟨c, tail, hc, hblank, hbracket⟩ := exists_head_of_chars h
  have hfuel : fuel ≠ 0 := by
    rintro rfl
    simp [hc] at hf
  obtain ⟨fuel, rfl⟩ := Nat.exists_eq_add_one_of_ne_zero hfuel
  cases doc with
  | null => simp [value?, chars, skipBlanks, isBlank]
  | bool b => cases b <;> simp [value?, chars, skipBlanks, isBlank]
  | number n => exact value?_number h hr fuel
  | string s => simp [value?, chars, Quoted.chars, skipBlanks, isBlank, ofLiteral,
      Quoted.read?_flatMap_escape]
  | array items =>
      cases items with
      | nil => simp [value?, chars, skipBlanks, isBlank]
      | cons item items =>
          obtain ⟨hitem, hitems⟩ := h
          obtain ⟨d, more, hd, hblank, hbracket⟩ := exists_head_of_chars hitem
          simp only [chars, List.length_cons, List.length_append] at hf
          have hfirst := value?_chars item hitem fuel (by omega) (itemsTail items ++ rest)
            (ends_itemsTail items rest)
          have hothers := itemsTail?_chars items hitems fuel (by omega) rest
          have hopen : isBlank '[' = false := rfl
          rw [hd, List.cons_append] at hfirst
          rw [chars, List.cons_append, List.append_assoc, hd, value?, skipBlanks_cons hopen]
          simp [skipBlanks_cons hblank, hbracket, hfirst, hothers]
  | object members =>
      cases members with
      | nil => simp [value?, chars, skipBlanks, isBlank]
      | cons member members =>
          obtain ⟨key, value⟩ := member
          obtain ⟨hvalue, hmembers⟩ := h
          simp only [chars, List.length_cons, List.length_append] at hf
          have hkey := key?_quoted key (value.chars ++ (membersTail members ++ rest))
          have hfirst := value?_chars value hvalue fuel (by omega) (membersTail members ++ rest)
            (ends_membersTail members rest)
          have hothers := membersTail?_chars members hmembers fuel (by omega) rest
          have hopen : isBlank '\x7b' = false := rfl
          have hquote : isBlank '"' = false := rfl
          have hobject := ofMembers_map_some ((key, value) :: members)
          rw [Quoted.chars, List.cons_append] at hkey
          rw [chars, Quoted.chars, value?]
          simp only [List.cons_append, List.nil_append, List.append_assoc,
            skipBlanks_cons hopen, skipBlanks_cons hquote] at hkey ⊢
          simp [hkey, hfirst, hothers, ← hobject]
  | unreadable => exact h.elim

theorem itemsTail?_chars (items : List Json) (h : EachReadable items) (fuel : Nat)
    (hf : (itemsTail items).length ≤ fuel) (rest : List Char) :
    itemsTail? fuel (itemsTail items ++ rest) = some (items, rest) := by
  have hfuel : fuel ≠ 0 := by
    rintro rfl
    cases items <;> simp [itemsTail] at hf
  obtain ⟨fuel, rfl⟩ := Nat.exists_eq_add_one_of_ne_zero hfuel
  cases items with
  | nil => simp [itemsTail?, itemsTail, skipBlanks, isBlank]
  | cons item items =>
      obtain ⟨hitem, hitems⟩ := h
      simp only [itemsTail, List.length_cons, List.length_append] at hf
      have hfirst := value?_chars item hitem fuel (by omega) (itemsTail items ++ rest)
        (ends_itemsTail items rest)
      have hothers := itemsTail?_chars items hitems fuel (by omega) rest
      have hcomma : isBlank ',' = false := rfl
      rw [itemsTail, List.cons_append, List.append_assoc, itemsTail?, skipBlanks_cons hcomma]
      simp [hfirst, hothers]

theorem membersTail?_chars (members : List (String × Json)) (h : EachValueReadable members)
    (fuel : Nat) (hf : (membersTail members).length ≤ fuel) (rest : List Char) :
    membersTail? fuel (membersTail members ++ rest) =
      some (members.map fun m => (some m.1, m.2), rest) := by
  have hfuel : fuel ≠ 0 := by
    rintro rfl
    cases members <;> simp [membersTail] at hf
  obtain ⟨fuel, rfl⟩ := Nat.exists_eq_add_one_of_ne_zero hfuel
  cases members with
  | nil => simp [membersTail?, membersTail, skipBlanks, isBlank]
  | cons member members =>
      obtain ⟨key, value⟩ := member
      obtain ⟨hvalue, hmembers⟩ := h
      simp only [membersTail, List.length_cons, List.length_append] at hf
      have hkey := key?_quoted key (value.chars ++ (membersTail members ++ rest))
      have hfirst := value?_chars value hvalue fuel (by omega) (membersTail members ++ rest)
        (ends_membersTail members rest)
      have hothers := membersTail?_chars members hmembers fuel (by omega) rest
      have hcomma : isBlank ',' = false := rfl
      rw [membersTail, List.cons_append, membersTail?, skipBlanks_cons hcomma]
      simp only [List.cons_append, List.append_assoc]
      simp [hkey, hfirst, hothers]

end

theorem read?_text {doc : Json} (h : doc.Readable) : read? doc.text = some doc := by
  have hvalue := value?_chars doc h (doc.chars.length + 1) (by omega) [] Numeral.ends_nil
  rw [List.append_nil] at hvalue
  simp [read?, text, hvalue, skipBlanks]

end Json
end StyleVariants

import StyleVariants.Proofs.ClassTokens

/-!
# Bounded names

Readable names and names in camel case have at most 32 bytes. A longer name is cut where its 25th
character begins, which is never inside a character, whatever characters the name has. A name in
camel case is a word of letters and digits, behind an underscore exactly if a digit comes first. A
label of this form is its own name, so the name of a name is that name, even if it was cut.
-/
namespace StyleVariants.ClassName

/-- The bytes at which the characters of a text begin, the first of them at `start`. -/
def beginnings (start : Nat) : List Char → List Nat
  | [] => []
  | c :: cs => start :: beginnings (start + c.utf8Size) cs

/-- The byte at which the 25th character begins, or the end of a shorter text. -/
def cutAt (text : String) : String.Pos.Raw :=
  ⟨(beginnings 0 text.toList)[24]?.getD text.utf8ByteSize⟩

theorem utf8ByteSize_ofList_cons (c : Char) (cs : List Char) :
    (String.ofList (c :: cs)).utf8ByteSize = c.utf8Size + (String.ofList cs).utf8ByteSize := by
  rw [String.ofList_cons, String.utf8ByteSize_append, String.utf8ByteSize_singleton]

theorem getElem?_beginnings (start : Nat) (cs : List Char) (n : Nat) :
    (beginnings start cs)[n]?.getD (start + (String.ofList cs).utf8ByteSize) =
      start + (String.ofList (cs.take n)).utf8ByteSize := by
  induction cs generalizing start n with
  | nil => simp [beginnings]
  | cons c cs ih =>
      cases n with
      | zero => simp [beginnings]
      | succ n =>
          rw [beginnings, List.getElem?_cons_succ, List.take_succ_cons, utf8ByteSize_ofList_cons,
            utf8ByteSize_ofList_cons, ← Nat.add_assoc, ← Nat.add_assoc, ih]

theorem byteIdx_cutAt (text : String) :
    (cutAt text).byteIdx = (String.ofList (text.toList.take 24)).utf8ByteSize := by
  have hbegin := getElem?_beginnings 0 text.toList 24
  rwa [Nat.zero_add, Nat.zero_add, String.ofList_toList] at hbegin

theorem isValid_cutAt (text : String) : (cutAt text).IsValid text :=
  String.Pos.Raw.isValid_iff_exists_take_toList.2 ⟨24, byteIdx_cutAt text⟩

/-- Of 27 characters with two bytes each, 24 are kept. -/
example : cutAt (String.ofList (List.replicate 27 'é')) = ⟨48⟩ := by decide

/-- What stands in front of the cut are the first 24 characters. -/
theorem copy_sliceTo_cutAt (text : String) :
    (text.sliceTo (text.pos (cutAt text) (isValid_cutAt text))).copy =
      String.ofList (text.toList.take 24) := by
  let pos := text.pos (cutAt text) (isValid_cutAt text)
  have hsplits : pos.Splits (String.ofList (text.toList.take 24))
      (String.ofList (text.toList.drop 24)) := by
    constructor
    · rw [← String.ofList_append, List.take_append_drop, String.ofList_toList]
    · rw [String.offset_pos, String.Pos.Raw.ext_iff, byteIdx_cutAt, String.byteIdx_rawEndPos]
  exact pos.splits.eq_left hsplits

/-- A long name is cut between two characters, whatever they are. -/
theorem shorten_eq_slice (digest : String → String) (name separator : String) :
    ∃ boundary : (cutAt name).IsValid name, shorten digest name separator =
      if name.utf8ByteSize ≤ 32 then name
      else (name.sliceTo (name.pos (cutAt name) boundary)).copy ++ separator ++
        hashDigits digest name 6 :=
  ⟨isValid_cutAt name, by rw [copy_sliceTo_cutAt, shorten]⟩

theorem toNat_lt_of_isNameChar {c : Char} (h : isNameChar c = true) : c.toNat < 128 := by
  have hranges : (decide ('A'.val ≤ c.val ∧ c.val ≤ 'Z'.val) ||
      (decide ('a'.val ≤ c.val) && decide (c.val ≤ 'z'.val)) ||
      (decide ('0'.val ≤ c.val) && decide (c.val ≤ '9'.val)) || c == '-' || c == '_') = true := h
  simp only [Bool.or_eq_true, Bool.and_eq_true, decide_eq_true_eq, beq_iff_eq] at hranges
  have hbelow : ∀ d : Char, d.toNat < 128 → c.val ≤ d.val → c.toNat < 128 :=
    fun d hd hle => Nat.lt_of_le_of_lt (UInt32.le_iff_toNat_le.1 hle) hd
  rcases hranges with (((⟨-, hle⟩ | ⟨-, hle⟩) | ⟨-, hle⟩) | rfl) | rfl
  · exact hbelow 'Z' (by decide) hle
  · exact hbelow 'z' (by decide) hle
  · exact hbelow '9' (by decide) hle
  · decide
  · decide

theorem utf8Size_of_isNameChar {c : Char} (h : isNameChar c = true) : c.utf8Size = 1 := by
  have hlt := toNat_lt_of_isNameChar h
  rw [Char.utf8Size_eq_one_iff, UInt32.le_iff_toNat_le]
  exact Nat.le_of_lt_succ hlt

theorem utf8ByteSize_ofList {cs : List Char} (h : ∀ c ∈ cs, isNameChar c = true) :
    (String.ofList cs).utf8ByteSize = cs.length := by
  induction cs with
  | nil => rfl
  | cons c cs ih =>
      rw [List.forall_mem_cons] at h
      rw [utf8ByteSize_ofList_cons, utf8Size_of_isNameChar h.1, ih h.2, List.length_cons,
        Nat.add_comm]

variable {digest : String → String} (hdigest : ∀ text, Hexadecimal (digest text))
include hdigest

theorem utf8ByteSize_hashDigits_le (input : String) (count : Nat) :
    (hashDigits digest input count).utf8ByteSize ≤ count := by
  have hchars := nameChars_hashDigits hdigest input count
  rw [hashDigits, NameChars, String.toList_ofList] at hchars
  rw [hashDigits, utf8ByteSize_ofList hchars]
  exact List.length_take_le _ _

theorem utf8ByteSize_shorten_le {name separator : String} (hname : NameChars name)
    (hseparator : separator.utf8ByteSize ≤ 2) :
    (shorten digest name separator).utf8ByteSize ≤ 32 := by
  unfold shorten
  split
  · assumption
  · have hfront : (String.ofList (name.toList.take 24)).utf8ByteSize ≤ 24 := by
      rw [utf8ByteSize_ofList fun c hc => hname c (List.mem_of_mem_take hc)]
      exact List.length_take_le _ _
    have hdigits := utf8ByteSize_hashDigits_le hdigest name 6
    rw [String.utf8ByteSize_append, String.utf8ByteSize_append]
    omega

theorem utf8ByteSize_readable_le (scope : String) (label : Option String) :
    (readable digest scope label).utf8ByteSize ≤ 32 := by
  have hline : NameChars "__" := by decide
  refine utf8ByteSize_shorten_le hdigest ?_ (by decide)
  simp [nameChars_sanitize, hline]

theorem utf8ByteSize_camelCase_le (label : Option String) :
    (camelCase digest label).utf8ByteSize ≤ 32 := by
  simp only [camelCase]
  split
  · decide
  · exact utf8ByteSize_shorten_le hdigest (nameChars_camel _) (by decide)

omit hdigest

/-- Letters and digits, behind an underscore exactly if a digit comes first. -/
inductive IsCamel : List Char → Prop
  | word {c : Char} {cs : List Char} : c.isAlpha → (∀ d ∈ cs, d.isAlphanum) → IsCamel (c :: cs)
  | guarded {c : Char} {cs : List Char} :
      c.isDigit → (∀ d ∈ cs, d.isAlphanum) → IsCamel ('_' :: c :: cs)

namespace IsCamel
variable {cs ds : List Char}

theorem append (h : IsCamel cs) (hd : ∀ d ∈ ds, d.isAlphanum) : IsCamel (cs ++ ds) := by
  cases h with
  | word hc hcs => exact .word hc (List.forall_mem_append.2 ⟨hcs, hd⟩)
  | guarded hc hcs => exact .guarded hc (List.forall_mem_append.2 ⟨hcs, hd⟩)

/-- Two characters are enough to keep the first letter or digit. -/
theorem take (h : IsCamel cs) (n : Nat) : IsCamel (cs.take (n + 2)) := by
  cases h with
  | word hc hcs => exact .word hc fun d hd => hcs d (List.mem_of_mem_take hd)
  | guarded hc hcs => exact .guarded hc fun d hd => hcs d (List.mem_of_mem_take hd)

end IsCamel

theorem isAlphanum_iff {c : Char} :
    c.isAlphanum = true ↔ isNameChar c = true ∧ isSeparator c = false := by
  have hhyphen : ('-').isAlphanum = false := rfl
  have hunderscore : ('_').isAlphanum = false := rfl
  by_cases hc : c = '-' ∨ c = '_'
  · rcases hc with rfl | rfl
    · simp [isSeparator, hhyphen]
    · simp [isSeparator, hunderscore]
  · rw [not_or] at hc
    simp [isNameChar, isSeparator, hc]

theorem isAlphanum_of_isAlpha {c : Char} (h : c.isAlpha = true) : c.isAlphanum = true := by
  simp [Char.isAlphanum, h]

theorem isAlphanum_of_isDigit {c : Char} (h : c.isDigit = true) : c.isAlphanum = true := by
  simp [Char.isAlphanum, h]

theorem isAlphanum_toUpper {c : Char} (h : c.isAlphanum = true) : c.toUpper.isAlphanum = true := by
  have hascii := forall_ascii
    (p := fun c => c.isAlphanum = true → c.toUpper.isAlphanum = true) (by decide)
  exact hascii c (toNat_lt_of_isNameChar (isAlphanum_iff.1 h).1) h

theorem isDigit_of_isAlpha {c : Char} (h : c.isAlpha = true) : c.isDigit = false := by
  have hascii := forall_ascii (p := fun c => c.isAlpha = true → c.isDigit = false) (by decide)
  exact hascii c (toNat_lt_of_isNameChar (isAlphanum_iff.1 (isAlphanum_of_isAlpha h)).1) h

theorem isAlphanum_of_isHexDigit {c : Char} (h : isHexDigit c = true) : c.isAlphanum = true := by
  have hascii := forall_ascii (p := fun c => isHexDigit c = true → c.isAlphanum = true) (by decide)
  exact hascii c (toNat_lt_of_isNameChar (isNameChar_of_isHexDigit h)) h

theorem isAlphanum_joinWords {started capital : Bool} {cs : List Char}
    (h : ∀ c ∈ cs, isNameChar c = true) :
    ∀ c ∈ joinWords started capital cs, c.isAlphanum = true := by
  induction cs generalizing started capital with
  | nil => simp [joinWords]
  | cons c cs ih =>
      rw [List.forall_mem_cons] at h
      rw [joinWords]
      split
      · exact ih h.2
      · next hseparator =>
        have hc : c.isAlphanum = true := isAlphanum_iff.2 ⟨h.1, by simpa using hseparator⟩
        rw [List.forall_mem_cons]
        refine ⟨?_, ih h.2⟩
        split
        · exact isAlphanum_toUpper hc
        · exact hc

theorem joinWords_word (started : Bool) {cs : List Char} (h : ∀ c ∈ cs, c.isAlphanum = true) :
    joinWords started false cs = cs := by
  induction cs generalizing started with
  | nil => rfl
  | cons c cs ih =>
      rw [List.forall_mem_cons] at h
      simp [joinWords, (isAlphanum_iff.1 h.1).2, ih true h.2]

theorem isCamel_camel {label : String} (h : camel label ≠ "") : IsCamel (camel label).toList := by
  have hwords : ∀ c ∈ joinWords false false (sanitize label).toList, c.isAlphanum = true :=
    isAlphanum_joinWords (nameChars_sanitize label)
  unfold camel at h ⊢
  split at h
  · exact (h rfl).elim
  · next c cs hcons =>
    rw [hcons, List.forall_mem_cons] at hwords
    rw [String.toList_ofList]
    split
    · next hdigit => exact .guarded hdigit hwords.2
    · next hdigit =>
      refine .word ?_ hwords.2
      simpa [Char.isAlphanum, hdigit] using hwords.1

theorem sanitize_of_nameChars {text : String} (h : NameChars text) : sanitize text = text := by
  have hsame : text.toList.map (fun c => if isNameChar c then c else '_') = text.toList := by
    rw [List.map_congr_left fun c hc => if_pos (h c hc), List.map_id']
  rw [sanitize, hsame, String.ofList_toList]

theorem IsCamel.isNameChar {cs : List Char} (h : IsCamel cs) : ∀ c ∈ cs, isNameChar c = true := by
  have halphanum : ∀ c : Char, c.isAlphanum = true → ClassName.isNameChar c = true :=
    fun c hc => (isAlphanum_iff.1 hc).1
  cases h with
  | word hc hcs =>
      have hfirst := halphanum _ (isAlphanum_of_isAlpha hc)
      exact List.forall_mem_cons.2 ⟨hfirst, fun d hd => halphanum d (hcs d hd)⟩
  | guarded hc hcs =>
      have hfirst := halphanum _ (isAlphanum_of_isDigit hc)
      exact List.forall_mem_cons.2 ⟨rfl, List.forall_mem_cons.2
        ⟨hfirst, fun d hd => halphanum d (hcs d hd)⟩⟩

theorem camel_of_isCamel {name : String} (h : IsCamel name.toList) : camel name = name := by
  have hsanitized : sanitize name = name := sanitize_of_nameChars h.isNameChar
  have hname : String.ofList name.toList = name := String.ofList_toList
  unfold camel
  rw [hsanitized]
  generalize name.toList = cs at h hname
  cases h with
  | @word c cs hc hcs =>
      have hwhole : joinWords false false (c :: cs) = c :: cs :=
        joinWords_word false (List.forall_mem_cons.2 ⟨isAlphanum_of_isAlpha hc, hcs⟩)
      simp [hwhole, isDigit_of_isAlpha hc, hname]
  | @guarded c cs hc hcs =>
      have hseparator := (isAlphanum_iff.1 (isAlphanum_of_isDigit hc)).2
      have hunderscore : isSeparator '_' = true := rfl
      simp [joinWords, hunderscore, hseparator, joinWords_word true hcs, hc, hname]

theorem isCamel_shorten (hdigest : ∀ text, Hexadecimal (digest text)) {name : String}
    (h : IsCamel name.toList) : IsCamel (shorten digest name "").toList := by
  unfold shorten
  split
  · exact h
  · rw [String.append_empty, String.toList_append, String.toList_ofList]
    refine (h.take 22).append fun d hd => ?_
    exact isAlphanum_of_isHexDigit (isHexDigit_of_mem_hashDigits (hdigest name) hd)

theorem isCamel_camelCase (hdigest : ∀ text, Hexadecimal (digest text)) (label : Option String) :
    IsCamel (camelCase digest label).toList := by
  simp only [camelCase]
  split
  · exact .word (by decide) (List.all_eq_true.1 (by decide))
  · next hne => exact isCamel_shorten hdigest (isCamel_camel hne)

theorem camelCase_camelCase (hdigest : ∀ text, Hexadecimal (digest text))
    (label : Option String) :
    camelCase digest (some (camelCase digest label)) = camelCase digest label := by
  have hcamel := isCamel_camelCase hdigest label
  have hbound := utf8ByteSize_camelCase_le hdigest label
  generalize camelCase digest label = name at hcamel hbound
  have hne : name ≠ "" := by
    rintro rfl
    cases hcamel
  simp [camelCase, camel_of_isCamel hcamel, hne, shorten, hbound]

/-- Readable names and names in camel case have at most 32 bytes, and names are cut between two
characters only. A name in camel case is a word in camel case, and is its own name. -/
theorem generate_bounded (digest : String → String) (hdigest : ∀ text, Hexadecimal (digest text))
    (scope : String) (label : Option String) (rule : StyleRule) :
    (generate digest .readable scope label rule).utf8ByteSize ≤ 32 ∧
    (generate digest .camelCase scope label rule).utf8ByteSize ≤ 32 ∧
    (∀ name separator, ∃ boundary : (cutAt name).IsValid name, shorten digest name separator =
      if name.utf8ByteSize ≤ 32 then name
      else (name.sliceTo (name.pos (cutAt name) boundary)).copy ++ separator ++
        hashDigits digest name 6) ∧
    IsCamel (generate digest .camelCase scope label rule).toList ∧
    ∀ scope' rule', generate digest .camelCase scope'
        (some (generate digest .camelCase scope label rule)) rule' =
      generate digest .camelCase scope label rule :=
  ⟨utf8ByteSize_readable_le hdigest scope label, utf8ByteSize_camelCase_le hdigest label,
    shorten_eq_slice digest, isCamel_camelCase hdigest label,
    fun _ _ => camelCase_camelCase hdigest label⟩

def headerLabel : String := "2-columns wide_layout of the page-header"

theorem generate_bounded_header :
    (∀ text, Hexadecimal (Blake3.hexDigest text)) ∧
    camel headerLabel = "_2ColumnsWideLayoutOfThePageHeader" ∧
    (generate Blake3.hexDigest .readable "app" headerLabel ∅).utf8ByteSize ≤ 32 ∧
    (generate Blake3.hexDigest .camelCase "app" headerLabel ∅).utf8ByteSize ≤ 32 ∧
    (∀ name separator, ∃ boundary : (cutAt name).IsValid name,
      shorten Blake3.hexDigest name separator =
        if name.utf8ByteSize ≤ 32 then name
        else (name.sliceTo (name.pos (cutAt name) boundary)).copy ++ separator ++
          hashDigits Blake3.hexDigest name 6) ∧
    IsCamel (generate Blake3.hexDigest .camelCase "app" headerLabel ∅).toList ∧
    ∀ scope' rule', generate Blake3.hexDigest .camelCase scope'
        (some (generate Blake3.hexDigest .camelCase "app" headerLabel ∅)) rule' =
      generate Blake3.hexDigest .camelCase "app" headerLabel ∅ :=
  ⟨Blake3.hexadecimal_hexDigest, by decide,
    generate_bounded Blake3.hexDigest Blake3.hexadecimal_hexDigest "app" headerLabel ∅⟩

end StyleVariants.ClassName

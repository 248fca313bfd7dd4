import StyleVariants.CustomProperty.Reference
import Mathlib.Data.List.Basic

/-!
# What a chain of references means

A value is a literal text or a reference to a custom property, with or without a fallback.
A reference takes the value of its property if that is set, else of its fallback. Values
are read from texts by recursive descent. A chain of references, with or without a literal
behind them, is read as the value in which each reference falls back on the next. It takes the
first property that is set, or else the literal, and its parentheses match.
-/
namespace StyleVariants.Reference

inductive Value where
  | literal (text : String)
  | var (name : String)
  | varOr (name : String) (fallback : Value)

def Value.eval (env : String → Option String) : Value → Option String
  | literal text => some text
  | var name => env name
  | varOr name fallback => (env name).or (fallback.eval env)

/-- References to properties, each falling back on the next, with a literal behind the last. -/
def Value.ofChain : List String → Option String → Value
  | [], last => literal (last.getD "")
  | [name], none => var name
  | name :: rest, last => varOr name (ofChain rest last)

def isPlain (c : Char) : Bool := c != '(' && c != ')' && c != ','

def Plain (text : String) : Prop := ∀ c ∈ text.toList, isPlain c

instance (text : String) : Decidable (Plain text) :=
  List.decidableBAll (fun c => isPlain c) text.toList

def readValue (text : List Char) : Option (Value × List Char) :=
  match text with
  | 'v' :: 'a' :: 'r' :: '(' :: rest =>
      let name := String.ofList (rest.takeWhile isPlain)
      match _h : rest.dropWhile isPlain with
      | ')' :: after => some (.var name, after)
      | ',' :: ' ' :: after =>
          match readValue after with
          | some (fallback, ')' :: after) => some (.varOr name fallback, after)
          | _ => none
      | _ => none
  | _ => some (.literal (String.ofList (text.takeWhile isPlain)), text.dropWhile isPlain)
termination_by text.length
decreasing_by
  have hle := (List.dropWhile_sublist (l := rest) isPlain).length_le
  rw [_h] at hle
  simp only [List.length_cons] at hle ⊢
  omega

def Value.ofText? (text : String) : Option Value :=
  match readValue text.toList with
  | some (value, []) => some value
  | _ => none

def ofName (name : String) : String := "var(" ++ name ++ ")"

theorem toList_ofName (name : String) :
    (ofName name).toList = 'v' :: 'a' :: 'r' :: '(' :: (name.toList ++ [')']) := by
  simp [ofName]

@[simp] theorem target_ofName (name : String) : target (ofName name) = name := by
  simp [target, toList_ofName, opened?]

theorem ofName_injective : Function.Injective ofName := by
  intro name other h
  rw [← target_ofName name, h, target_ofName]

theorem opened?_ofName (name : String) :
    opened? (ofName name).toList = some ('v' :: 'a' :: 'r' :: '(' :: name.toList) := by
  have hsplit : (ofName name).toList = 'v' :: 'a' :: 'r' :: '(' :: name.toList ++ [')'] := by
    simp [ofName]
  simp only [opened?, hsplit, List.getLast?_concat, List.dropLast_concat, if_true]

theorem toList_chain_cons (name : String) {rest : List String} (hr : rest ≠ []) :
    (chain (ofName name :: rest)).toList =
      'v' :: 'a' :: 'r' :: '(' :: (name.toList ++ ',' :: ' ' :: ((chain rest).toList ++ [')'])) := by
  cases rest with
  | nil => exact (hr rfl).elim
  | cons value rest => simp [chain, opened?_ofName]

theorem takeWhile_plain {name : String} (hn : Plain name) {c : Char} (hc : isPlain c = false)
    (rest : List Char) : (name.toList ++ c :: rest).takeWhile isPlain = name.toList := by
  rw [List.takeWhile_append_of_pos hn]
  simp [hc]

theorem dropWhile_plain {name : String} (hn : Plain name) {c : Char} (hc : isPlain c = false)
    (rest : List Char) : (name.toList ++ c :: rest).dropWhile isPlain = c :: rest := by
  rw [List.dropWhile_append_of_pos hn]
  simp [hc]

theorem readValue_var {name : String} (hn : Plain name) (rest : List Char) :
    readValue ('v' :: 'a' :: 'r' :: '(' :: (name.toList ++ ')' :: rest)) =
      some (.var name, rest) := by
  have htake := takeWhile_plain hn (c := ')') rfl rest
  have hdrop := dropWhile_plain hn (c := ')') rfl rest
  rw [readValue]
  split <;> simp_all

theorem readValue_varOr {name : String} (hn : Plain name) {text rest : List Char}
    {fallback : Value} (h : readValue text = some (fallback, ')' :: rest)) :
    readValue ('v' :: 'a' :: 'r' :: '(' :: (name.toList ++ ',' :: ' ' :: text)) =
      some (.varOr name fallback, rest) := by
  have htake := takeWhile_plain hn (c := ',') rfl (' ' :: text)
  have hdrop := dropWhile_plain hn (c := ',') rfl (' ' :: text)
  rw [readValue]
  split <;> simp_all

theorem readValue_literal {literal : String} (hl : Plain literal) {rest : List Char}
    (hr : ∀ c ∈ rest.head?, c = ')') :
    readValue (literal.toList ++ rest) = some (.literal literal, rest) := by
  have hstop : rest.takeWhile isPlain = [] ∧ rest.dropWhile isPlain = rest := by
    cases rest with
    | nil => exact ⟨rfl, rfl⟩
    | cons c rest =>
        obtain rfl := hr c (by simp)
        exact ⟨rfl, rfl⟩
  have htake : (literal.toList ++ rest).takeWhile isPlain = literal.toList := by
    rw [List.takeWhile_append_of_pos hl, hstop.1, List.append_nil]
  have hdrop : (literal.toList ++ rest).dropWhile isPlain = rest := by
    rw [List.dropWhile_append_of_pos hl, hstop.2]
  have hnot : ∀ after, literal.toList ++ rest = 'v' :: 'a' :: 'r' :: '(' :: after → False := by
    intro after h
    have hopen : rest = '(' :: after := by
      rw [← hdrop, h]
      rfl
    exact absurd (hr '(' (by rw [hopen]; rfl)) (by decide)
  rw [readValue]
  · rw [htake, hdrop, String.ofList_toList]
  · exact hnot

theorem values_eq_nil_iff {names : List String} {last : Option String} :
    names.map ofName ++ last.toList = [] ↔ names = [] ∧ last = none := by
  rw [List.append_eq_nil_iff, List.map_eq_nil_iff, Option.toList_eq_nil_iff]

theorem Value.ofChain_cons (name : String) {rest : List String} {last : Option String}
    (h : rest.map ofName ++ last.toList ≠ []) :
    ofChain (name :: rest) last = varOr name (ofChain rest last) := by
  cases rest with
  | nil =>
      cases last with
      | none => exact (h rfl).elim
      | some literal => rfl
  | cons next rest => rfl

/-- A chain of references and at most one literal is read up to the end or to a closing
parenthesis. -/
theorem readValue_chain {names : List String} {last : Option String}
    (hn : ∀ name ∈ names, Plain name) (hl : ∀ literal ∈ last, Plain literal)
    (hne : names.map ofName ++ last.toList ≠ []) {rest : List Char}
    (hr : ∀ c ∈ rest.head?, c = ')') :
    readValue ((chain (names.map ofName ++ last.toList)).toList ++ rest) =
      some (.ofChain names last, rest) := by
  induction names generalizing rest with
  | nil =>
      cases last with
      | none => exact (hne rfl).elim
      | some literal => exact readValue_literal (hl literal rfl) hr
  | cons name names ih =>
      have hname : Plain name := hn name (by simp)
      by_cases hrest : names.map ofName ++ last.toList = []
      · obtain ⟨rfl, rfl⟩ := values_eq_nil_iff.1 hrest
        simpa [chain, ofName, Value.ofChain] using readValue_var hname rest
      · have hclosed : ∀ c ∈ (')' :: rest).head?, c = ')' := by simp
        have hfallback := ih (fun n h => hn n (by simp [h])) hrest hclosed
        have hboth := readValue_varOr hname hfallback
        simpa [toList_chain_cons name hrest, Value.ofChain_cons name hrest] using hboth

theorem Value.eval_ofChain {names : List String} {last : Option String}
    (hne : names.map ofName ++ last.toList ≠ []) (env : String → Option String) :
    (ofChain names last).eval env = (names.findSome? env).or last := by
  induction names with
  | nil =>
      cases last with
      | none => exact (hne rfl).elim
      | some literal => rfl
  | cons name names ih =>
      by_cases hrest : names.map ofName ++ last.toList = []
      · obtain ⟨rfl, rfl⟩ := values_eq_nil_iff.1 hrest
        cases h : env name <;> simp [ofChain, eval, h]
      · rw [ofChain_cons name hrest, eval, ih hrest]
        cases h : env name <;> simp [h]

theorem Value.ofText?_ofChain {names : List String} {last : Option String}
    (hn : ∀ name ∈ names, Plain name) (hl : ∀ literal ∈ last, Plain literal)
    (hne : names.map ofName ++ last.toList ≠ []) :
    Value.ofText? (chain (names.map ofName ++ last.toList)) = some (.ofChain names last) := by
  have hr : ∀ c ∈ ([] : List Char).head?, c = ')' := by simp
  have hread := readValue_chain hn hl hne hr
  rw [List.append_nil] at hread
  rw [ofText?, hread]

theorem Value.ofText?_chain {names : List String} {last : Option String}
    (hn : ∀ name ∈ names, Plain name) (hl : ∀ literal ∈ last, Plain literal)
    (hne : names.map ofName ++ last.toList ≠ []) :
    ∃ value, Value.ofText? (chain (names.map ofName ++ last.toList)) = some value ∧
      ∀ env, value.eval env = (names.findSome? env).or last :=
  ⟨.ofChain names last, ofText?_ofChain hn hl hne, eval_ofChain hne⟩

/-- How many parentheses are open behind a text, if it closes none that is not open. -/
def openBehind? (before : Nat) : List Char → Option Nat
  | [] => some before
  | '(' :: rest => openBehind? (before + 1) rest
  | ')' :: rest =>
      match before with
      | 0 => none
      | before + 1 => openBehind? before rest
  | _ :: rest => openBehind? before rest

/-- Every parenthesis that is opened is closed, and no other. -/
def Matched (text : String) : Prop := openBehind? 0 text.toList = some 0

theorem openBehind?_append_plain {cs : List Char} (h : ∀ c ∈ cs, isPlain c = true)
    (before : Nat) (rest : List Char) :
    openBehind? before (cs ++ rest) = openBehind? before rest := by
  induction cs with
  | nil => rfl
  | cons c cs ih =>
      rw [List.forall_mem_cons] at h
      have hc : c ≠ '(' ∧ c ≠ ')' := by
        constructor <;> rintro rfl
        · exact absurd h.1 (by decide)
        · exact absurd h.1 (by decide)
      rw [List.cons_append, ← ih h.2]
      simp [openBehind?, hc]

theorem openBehind?_chain {names : List String} {last : Option String}
    (hn : ∀ name ∈ names, Plain name) (hl : ∀ literal ∈ last, Plain literal)
    (before : Nat) (rest : List Char) :
    openBehind? before ((chain (names.map ofName ++ last.toList)).toList ++ rest) =
      openBehind? before rest := by
  induction names generalizing before rest with
  | nil =>
      cases last with
      | none => rfl
      | some literal => exact openBehind?_append_plain (hl literal rfl) before rest
  | cons name names ih =>
      have hname : Plain name := hn name (by simp)
      have hnames : ∀ n ∈ names, Plain n := fun n h => hn n (by simp [h])
      by_cases hrest : names.map ofName ++ last.toList = []
      · have hone : chain ((name :: names).map ofName ++ last.toList) = ofName name := by
          rw [List.map_cons, List.cons_append, hrest, chain]
        rw [hone, toList_ofName]
        simp [openBehind?, openBehind?_append_plain hname]
      · rw [List.map_cons, List.cons_append, toList_chain_cons name hrest]
        simp [openBehind?, openBehind?_append_plain hname, ih hnames]

/-- A chain of references, with or without a literal behind them, is read as the value in which
each reference falls back on the next, and its parentheses match. Whatever properties are set, it
takes the value of the first of them, else the literal, else nothing. The properties are those
that the references name. -/
theorem chain_takes_first_set {names : List String} {last : Option String} (hne : names ≠ [])
    (hn : ∀ name ∈ names, Plain name) (hl : ∀ literal ∈ last, Plain literal) :
    Value.ofText? (chain (names.map ofName ++ last.toList)) = some (.ofChain names last) ∧
      Matched (chain (names.map ofName ++ last.toList)) ∧
      (∀ env, (Value.ofChain names last).eval env = (names.findSome? env).or last) ∧
      (names.map ofName).map target = names := by
  have hvalues : names.map ofName ++ last.toList ≠ [] := by simp [hne]
  refine ⟨Value.ofText?_ofChain hn hl hvalues, ?_, Value.eval_ofChain hvalues, ?_⟩
  · have hopen := openBehind?_chain hn hl 0 []
    rw [List.append_nil] at hopen
    exact hopen
  · have hsame : target ∘ ofName = id := funext target_ofName
    rw [List.map_map, hsame, List.map_id]

/-- Two properties and a literal, all of which a value may take. -/
theorem chain_takes_first_set_gap :
    ["--gap-md", "--gap"] ≠ [] ∧ (∀ name ∈ ["--gap-md", "--gap"], Plain name) ∧
      (∀ literal ∈ some "4px", Plain literal) ∧
      Value.ofText? (chain ["var(--gap-md)", "var(--gap)", "4px"]) =
        some (.varOr "--gap-md" (.varOr "--gap" (.literal "4px"))) ∧
      Matched "var(--gap-md, var(--gap, 4px))" ∧
      (∀ env, (Value.varOr "--gap-md" (.varOr "--gap" (.literal "4px"))).eval env =
        (["--gap-md", "--gap"].findSome? env).or (some "4px")) ∧
      (["--gap-md", "--gap"].map ofName).map target = ["--gap-md", "--gap"] := by
  have hnames : ∀ name ∈ ["--gap-md", "--gap"], Plain name := by decide
  have hliteral : ∀ literal ∈ some "4px", Plain literal := by decide
  have htext : chain (["--gap-md", "--gap"].map ofName ++ (some "4px").toList) =
      "var(--gap-md, var(--gap, 4px))" := by decide
  obtain ⟨hread, hmatched, heval, htarget⟩ :=
    chain_takes_first_set (by decide) hnames hliteral
  exact ⟨by decide, hnames, hliteral, hread, htext ▸ hmatched, heval, htarget⟩

end StyleVariants.Reference

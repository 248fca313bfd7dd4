import StyleVariants.Proofs.CssReading
import StyleVariants.Proofs.RuleLevels
import StyleVariants.Proofs.SettledNames

/-!
# The declarations of a style sheet

Reading a style sheet back gives the plain declarations of all levels of the registered rules:
class by class, each level before those nested in it. A declaration stands under the at-rules on
the way to its level and under the selector that its patterns make of the class. No text that is
printed may have a line break or a brace; what is left out of a style sheet may have any.
-/
namespace StyleVariants
namespace Css

theorem cleanChar_toLower {c : Char} (h : CleanChar c) : CleanChar c.toLower := by
  have hascii := forall_ascii (p := fun c => CleanChar c → CleanChar c.toLower) (by decide)
  by_cases hc : c.toNat < 128
  · exact hascii c hc h
  · have hupper : ¬ (c.val ≥ 'A'.val ∧ c.val ≤ 'Z'.val) := by
      rintro ⟨-, hz⟩
      have hbound : c.toNat ≤ 90 := UInt32.le_iff_toNat_le.1 hz
      omega
    have hsame : c.toLower = c := dif_neg hupper
    rw [hsame]
    exact h

theorem cleanChar_hyphenate {c : Char} (h : CleanChar c) : ∀ d ∈ hyphenate c, CleanChar d := by
  unfold hyphenate
  split
  · simpa using ⟨by decide, cleanChar_toLower h⟩
  · simpa using h

namespace Clean

theorem propertyName {property : String} (h : Clean property) :
    Clean (Css.propertyName property) := by
  have hchars : ∀ c ∈ property.toList.flatMap hyphenate, CleanChar c := by
    intro c hc
    obtain ⟨d, hd, hmem⟩ := List.mem_flatMap.1 hc
    exact cleanChar_hyphenate (h d hd) c hmem
  unfold Css.propertyName
  split
  · exact h
  · split
    · next heq =>
      intro c hc
      rw [String.toList_ofList, List.mem_cons, ← heq] at hc
      rcases hc with rfl | hc
      · decide
      · exact hchars c hc
    · intro c hc
      rw [String.toList_ofList] at hc
      exact hchars c hc

theorem substitute {pattern selector : String} (hp : Clean pattern) (hs : Clean selector) :
    Clean (Css.substitute pattern selector) := by
  intro c hc
  rw [Css.substitute, String.toList_ofList] at hc
  obtain ⟨d, hd, hmem⟩ := List.mem_flatMap.1 hc
  split at hmem
  · exact hs c hmem
  · obtain rfl := List.mem_singleton.1 hmem
    exact hp c hd

theorem blockName (kind : ConditionKind) : Clean kind.blockName := by
  cases kind <;> decide

end Clean
end Css

namespace RuleLevel

/-- The texts that are printed of a level have no line breaks and braces. -/
structure Clean (level : RuleLevel) : Prop where
  predicates : ∀ e ∈ level.predicates, Css.Clean e.2
  plain : ∀ e ∈ level.plain, Css.Clean e.1 ∧ Css.Clean e.2

instance (level : RuleLevel) : Decidable level.Clean :=
  decidable_of_iff
    ((∀ e ∈ level.predicates, Css.Clean e.2) ∧ ∀ e ∈ level.plain, Css.Clean e.1 ∧ Css.Clean e.2)
    ⟨fun h => ⟨h.1, h.2⟩, fun h => ⟨h.predicates, h.plain⟩⟩

theorem Clean.of_under {kind : ConditionKind} {predicate : String} {level : RuleLevel}
    (h : (level.under kind predicate).Clean) : Css.Clean predicate ∧ level.Clean where
  left := h.predicates _ List.mem_cons_self
  right := {
    predicates e he := h.predicates e (List.mem_cons_of_mem _ he)
    plain := h.plain }

end RuleLevel

namespace Css

/-- The headers around the declarations of a level: the at-rules of its predicates, and the
selector in which every pattern has taken the place of the one before. -/
def headersAt (selector : String) : List (ConditionKind × String) → List String
  | [] => [selector]
  | (.selector, pattern) :: rest => headersAt (substitute pattern selector) rest
  | (kind, query) :: rest => (kind.blockName ++ " " ++ query) :: headersAt selector rest

/-- What levels declare inside open blocks. -/
def declared (headers : List String) (selector : String) (levels : List RuleLevel) :
    List (List String × String) :=
  levels.flatMap fun level => level.plain.map fun e =>
    (headers ++ headersAt selector level.predicates, propertyName e.1 ++ ": " ++ e.2 ++ ";")

theorem declared_append (headers : List String) (selector : String)
    (front rest : List RuleLevel) : declared headers selector (front ++ rest) =
      declared headers selector front ++ declared headers selector rest := by
  simp [declared]

theorem declared_under_selector (headers : List String) (selector pattern : String)
    (levels : List RuleLevel) :
    declared headers selector (levels.map (·.under .selector pattern)) =
      declared headers (substitute pattern selector) levels := by
  rw [declared, List.flatMap_map]
  rfl

theorem declared_under_query {kind : ConditionKind} (hkind : kind ≠ .selector)
    (headers : List String) (selector query : String) (levels : List RuleLevel) :
    declared headers selector (levels.map (·.under kind query)) =
      declared (headers ++ [kind.blockName ++ " " ++ query]) selector levels := by
  rw [declared, List.flatMap_map, declared]
  apply List.flatMap_congr
  intro level _
  have hheaders : headersAt selector (level.under kind query).predicates =
      (kind.blockName ++ " " ++ query) :: headersAt selector level.predicates := by
    cases kind <;> first | rfl | exact (hkind rfl).elim
  rw [hheaders, List.append_assoc, List.singleton_append]
  rfl

/-- The style sheet has keys of its own. They are the names of the blocks that conditions lead to. -/
theorem printed_key_iff {key : String} :
    key ∈ queryKeys ∨ key = patternKey ↔ ∃ kind : ConditionKind, kind.blockName = key := by
  constructor
  · intro h
    simp only [queryKeys, patternKey, List.mem_cons, List.not_mem_nil, or_false] at h
    rcases h with (rfl | rfl | rfl) | rfl
    · exact ⟨.media, rfl⟩
    · exact ⟨.supports, rfl⟩
    · exact ⟨.container, rfl⟩
    · exact ⟨.selector, rfl⟩
  · rintro ⟨kind, rfl⟩
    cases kind <;> decide

theorem blocks_cons_block (selector : String) (depth : Nat) (key : String)
    (inner entries : List (String × StyleTree)) :
    blocks selector depth ((key, .block inner) :: entries) =
      (match ConditionKind.ofBlockName? key with
      | some .selector => patterns selector depth inner
      | some _ => queries key selector depth inner
      | none => []) ++ blocks selector depth entries := by
  rw [blocks]
  cases hkey : ConditionKind.ofBlockName? key with
  | none =>
      have hprinted : ¬ (key ∈ queryKeys ∨ key = patternKey) := by
        rw [printed_key_iff]
        rintro ⟨kind, hkind⟩
        rw [ConditionKind.ofBlockName?_eq_some_iff.2 hkind] at hkey
        cases hkey
      rw [not_or] at hprinted
      rw [if_neg hprinted.1, if_neg hprinted.2]
  | some kind =>
      obtain rfl := ConditionKind.ofBlockName?_eq_some_iff.1 hkey
      cases kind with
      | selector =>
          have hpattern : ConditionKind.selector.blockName = patternKey := rfl
          rw [if_neg (by decide), if_pos hpattern]
      | media => rw [if_pos (by decide)]
      | supports => rw [if_pos (by decide)]
      | container => rw [if_pos (by decide)]

theorem scans_block_declarations (headers : List String) {selector : String}
    {plain : List (String × String)} (h : ∀ e ∈ plain, Clean e.1 ∧ Clean e.2) :
    Scans (headers ++ [selector])
      (plain.map fun e => ⟨headers.length + 1, .declaration (propertyName e.1) e.2⟩)
      (headers ++ [selector])
      (plain.map fun e => (headers ++ [selector], propertyName e.1 ++ ": " ++ e.2 ++ ";")) := by
  have hdepth : (headers ++ [selector]).length = headers.length + 1 := by simp
  rw [← hdepth]
  induction plain with
  | nil => exact .nil _
  | cons e plain ih =>
      rw [List.forall_mem_cons] at h
      exact (Scans.declaration h.1.1.propertyName h.1.2).append (ih h.2)

theorem scans_declarations (headers : List String) {selector : String} (hs : Clean selector)
    {level : RuleLevel} (h : ∀ e ∈ level.plain, Clean e.1 ∧ Clean e.2) :
    Scans headers (declarations selector headers.length level.entries) headers
      (level.plain.map fun e =>
        (headers ++ [selector], propertyName e.1 ++ ": " ++ e.2 ++ ";")) := by
  have hlines := (scans_block_declarations headers h).block hs
  unfold declarations
  unfold RuleLevel.plain at h hlines ⊢
  split
  · next heq =>
    rw [heq]
    exact .nil headers
  · exact hlines

mutual

/-- Reading a printed rule back gives what its levels declare, and leaves the blocks open that
were open before. -/
theorem scans_tree (headers : List String) {selector : String} (hs : Clean selector) :
    (t : StyleTree) → (∀ level ∈ t.levels, level.Clean) →
    Scans headers (tree selector headers.length t) headers (declared headers selector t.levels)
  | .number _, _ => .nil headers
  | .text _, _ => .nil headers
  | .block entries, h => by
      rw [StyleTree.levels, List.forall_mem_cons] at h
      have hown := scans_declarations headers hs h.1.plain
      exact hown.append (scans_blocks headers hs entries h.2)

theorem scans_blocks (headers : List String) {selector : String} (hs : Clean selector) :
    (entries : List (String × StyleTree)) →
    (∀ level ∈ StyleTree.levelsIn entries, level.Clean) →
    Scans headers (blocks selector headers.length entries) headers
      (declared headers selector (StyleTree.levelsIn entries))
  | [], _ => .nil headers
  | (_, .number _) :: entries, h => scans_blocks headers hs entries h
  | (_, .text _) :: entries, h => scans_blocks headers hs entries h
  | (key, .block inner) :: entries, h => by
      rw [StyleTree.levelsIn, List.forall_mem_append] at h
      rw [blocks_cons_block, StyleTree.levelsIn, declared_append]
      refine .append ?_ (scans_blocks headers hs entries h.2)
      cases hkey : ConditionKind.ofBlockName? key with
      | none => exact .nil headers
      | some kind =>
          rw [hkey] at h
          obtain rfl := ConditionKind.ofBlockName?_eq_some_iff.1 hkey
          cases kind with
          | selector => exact scans_patterns headers hs inner h.1
          | media => exact scans_queries headers hs (by decide) inner h.1
          | supports => exact scans_queries headers hs (by decide) inner h.1
          | container => exact scans_queries headers hs (by decide) inner h.1

theorem scans_queries (headers : List String) {selector : String} (hs : Clean selector)
    {kind : ConditionKind} (hkind : kind ≠ .selector) :
    (entries : List (String × StyleTree)) →
    (∀ level ∈ StyleTree.levelsUnder kind entries, level.Clean) →
    Scans headers (queries kind.blockName selector headers.length entries) headers
      (declared headers selector (StyleTree.levelsUnder kind entries))
  | [], _ => .nil headers
  | (_, .number _) :: entries, h => scans_queries headers hs hkind entries h
  | (_, .text _) :: entries, h => scans_queries headers hs hkind entries h
  | (query, .block inner) :: entries, h => by
      rw [StyleTree.levelsUnder, List.forall_mem_append, List.forall_mem_map] at h
      rw [queries, StyleTree.levelsUnder, declared_append]
      refine .append ?_ (scans_queries headers hs hkind entries h.2)
      have hquery := (h.1 ⟨[], inner⟩ List.mem_cons_self).of_under.1
      have hheader : Clean (kind.blockName ++ " " ++ query) :=
        ((Clean.blockName kind).append (by decide)).append hquery
      have hinner := scans_tree (headers ++ [kind.blockName ++ " " ++ query]) hs (.block inner)
        fun level hlevel => (h.1 level hlevel).of_under.2
      rw [List.length_append] at hinner
      rw [declared_under_query hkind]
      exact hinner.block hheader

theorem scans_patterns (headers : List String) {selector : String} (hs : Clean selector) :
    (entries : List (String × StyleTree)) →
    (∀ level ∈ StyleTree.levelsUnder .selector entries, level.Clean) →
    Scans headers (patterns selector headers.length entries) headers
      (declared headers selector (StyleTree.levelsUnder .selector entries))
  | [], _ => .nil headers
  | (_, .number _) :: entries, h => scans_patterns headers hs entries h
  | (_, .text _) :: entries, h => scans_patterns headers hs entries h
  | (pattern, .block inner) :: entries, h => by
      rw [StyleTree.levelsUnder, List.forall_mem_append, List.forall_mem_map] at h
      rw [patterns, StyleTree.levelsUnder, declared_append]
      refine .append ?_ (scans_patterns headers hs entries h.2)
      have hpattern := (h.1 ⟨[], inner⟩ List.mem_cons_self).of_under.1
      rw [declared_under_selector]
      exact scans_tree headers (hpattern.substitute hs) (.block inner)
        fun level hlevel => (h.1 level hlevel).of_under.2

end

end Css

namespace ClassRegistry

/-- The texts that the style sheet prints have no line breaks and braces. -/
structure Clean (registry : ClassRegistry) : Prop where
  className : ∀ e ∈ registry.rules.entries, Css.Clean e.1
  levels : ∀ e ∈ registry.rules.entries, ∀ level ∈ e.2.levels, level.Clean

/-- What the registered rules declare, class by class, under the at-rules and selectors on the
way. -/
def declared (registry : ClassRegistry) : List (List String × String) :=
  registry.rules.entries.flatMap fun e => Css.declared [] ("." ++ e.1) e.2.levels

theorem scans_rules {entries : List (String × StyleRule)} (hclass : ∀ e ∈ entries, Css.Clean e.1)
    (hlevels : ∀ e ∈ entries, ∀ level ∈ e.2.levels, level.Clean) :
    Css.Scans [] (entries.flatMap fun e => Css.rule ("." ++ e.1) 0 e.2) []
      (entries.flatMap fun e => Css.declared [] ("." ++ e.1) e.2.levels) := by
  induction entries with
  | nil => exact .nil []
  | cons e entries ih =>
      rw [List.forall_mem_cons] at hclass hlevels
      have hselector : Css.Clean ("." ++ e.1) := .append (by decide) hclass.1
      exact (Css.scans_tree [] hselector e.2.tree hlevels.1).append (ih hclass.2 hlevels.2)

theorem css_append_of_run {digest : String → String} {s t : ClassRegistry}
    {calls : List NamedRule} (h : ClassNamer.Run (className digest) s calls t) :
    ∃ rest, t.css = s.css ++ rest := by
  refine ⟨Css.text ((firstRequests s.rules.keys calls).flatMap
    fun e => Css.rule ("." ++ e.1) 0 e.2), ?_⟩
  rw [css, run_entries h, List.flatMap_append, Css.text_append]
  rfl

/-- Braces match in the style sheet of any registry of clean texts, and its lines are indented by
the blocks around them. Its declarations are those of all levels of the registered rules, with the
headers of their way. Later requests only append to it. -/
theorem css_reads_back (registry : ClassRegistry) :
    (registry.Clean →
      Css.Balanced registry.css ∧
      (∀ e ∈ Css.read registry.css, e.Indented) ∧
      Css.declarationsAmong (Css.read registry.css) = registry.declared) ∧
    (∀ e ∈ registry.rules.entries, e.2.ListsLevels e.2.levels) ∧
    ∀ (digest : String → String) (calls : List NamedRule) (t : ClassRegistry),
      ClassNamer.Run (className digest) registry calls t → ∃ rest, t.css = registry.css ++ rest := by
  refine ⟨fun h => ?_, fun e _ => e.2.listsLevels, fun _ _ _ hrun => css_append_of_run hrun⟩
  have hscan := scans_rules h.className h.levels
  have hread : Css.read registry.css = Css.enclose []
      ((registry.rules.entries.flatMap fun e => Css.rule ("." ++ e.1) 0 e.2).map Css.Line.chars) := by
    rw [Css.read, css, Css.linesOf_text hscan.unbroken]
  rw [hread]
  exact ⟨hscan.opens.balanced, hscan.indented, hscan.declared⟩

/-- A rule with a query, a pattern in it, a plain value in place of a rule, a block of no kind, and
a declaration behind them. -/
def nestedCard : StyleRule := .ofList
  [("width", .text "100px"),
   ("@media", .block (.ofList
     [("print", .block (.ofList
        [("selectors", .block (.ofList
           [("&:hover, & > a", .block (.ofList [("fontSize", .text "1em")]))])),
         ("color", .text "red")])),
      ("screen", .text "none")])),
   ("@layer", .block (.ofList [("odd\x7b", .block (.ofList [("color", .text "blue")]))])),
   ("--gap", .text "2px")]

def cardRegistry : ClassRegistry where
  options := byLabel
  rules := .singleton "card" nestedCard

def toneRequest : NamedRule := ⟨.ofList [("color", .text "red")], some "tone", "recipes__tone"⟩

theorem css_reads_back_card :
    (cardRegistry.Clean ∧
      Css.Balanced cardRegistry.css ∧
      (∀ e ∈ Css.read cardRegistry.css, e.Indented) ∧
      Css.declarationsAmong (Css.read cardRegistry.css) = cardRegistry.declared) ∧
    nestedCard.ListsLevels nestedCard.levels ∧
    ∃ t, ClassNamer.Run (className id) cardRegistry [toneRequest] t ∧
      ∃ rest, t.css = cardRegistry.css ++ rest := by
  have hclean : cardRegistry.Clean := ⟨by decide, by decide⟩
  obtain ⟨hread, hlevels, happend⟩ := css_reads_back cardRegistry
  have hrun : ClassNamer.Run (className id) cardRegistry [toneRequest]
      (className id toneRequest.rule toneRequest.label cardRegistry).2 := .step rfl (.done _)
  exact ⟨⟨hclean, hread hclean⟩, hlevels ("card", nestedCard) (.head _), _, hrun,
    happend id _ _ hrun⟩

example : cardRegistry.declared =
    [([".card"], "width: 100px;"), ([".card"], "--gap: 2px;"),
     (["@media print", ".card"], "color: red;"),
     (["@media print", ".card:hover, .card > a"], "font-size: 1em;")] := by decide

end ClassRegistry
end StyleVariants

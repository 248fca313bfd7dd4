import StyleVariants.Proofs.ClassRegistryRuns

/-!
# What a style sheet prints for a class

A style sheet prints a registered rule once, as it was first requested. A class may be
shared by rules with the same declarations in another order, and by zeros of either sign;
what is printed for it is then the first of them, because later requests change nothing. A
rule that is requested in one form only is printed in this form.
-/
namespace StyleVariants

def Css.classText (className : String) (rule : StyleRule) : String :=
  Css.text (Css.rule ("." ++ className) 0 rule)

theorem Css.text_append (front rest : List Line) :
    text (front ++ rest) = text front ++ text rest := by
  simp [text]

namespace ClassRegistry

def printed? (registry : ClassRegistry) (className : String) : Option String :=
  (registry.rules.get? className).map (Css.classText className)

theorem css_eq_join (registry : ClassRegistry) :
    registry.css = String.join (registry.rules.keys.map fun c => (registry.printed? c).getD "") := by
  have hentries : registry.rules.keys.map (fun c => (registry.printed? c).getD "") =
      registry.rules.entries.map fun e => Css.classText e.1 e.2 := by
    rw [OrderedMap.keys, List.map_map]
    refine List.map_congr_left fun e he => ?_
    have hget := OrderedMap.get?_eq_some_iff.2 he
    simp [printed?, hget]
  have hjoin : ∀ es : List (String × StyleRule),
      Css.text (es.flatMap fun e => Css.rule ("." ++ e.1) 0 e.2) =
        String.join (es.map fun e => Css.classText e.1 e.2) := by
    intro es
    induction es with
    | nil => rfl
    | cons e es ih => simp [Css.text_append, ih, Css.classText]
  rw [hentries, css, hjoin]

/-- A class that a new registry has answered is registered with the rule of the first request
that was answered with it. -/
theorem exists_first_request {digest : String → String} {options : NamingOptions}
    {t : ClassRegistry} {calls : List NamedRule} {named : NamedRule}
    (h : ClassNamer.Run (className digest) { options } calls t) (hn : named ∈ calls) :
    ∃ before first after, calls = before ++ first :: after ∧
      (∀ other ∈ before, other.className ≠ named.className) ∧
      first.className = named.className ∧ (first.rule == named.rule) = true ∧
      t.rules.get? named.className = some first.rule := by
  obtain ⟨registered, hget, heq⟩ := run_holds h hn
  rcases run_registered h hget with hold | ⟨before, label, after, hcalls, hbefore⟩
  · simp at hold
  · exact ⟨before, ⟨registered, label, named.className⟩, after, hcalls, hbefore, rfl, heq, hget⟩

/-- Whatever a new registry was asked for, its style sheet prints for every class the rule of
the first request that was answered with it. A request of which no other form was made is
printed as it was made. -/
theorem css_prints_first_request (digest : String → String) (options : NamingOptions)
    {t : ClassRegistry} {calls : List NamedRule}
    (h : ClassNamer.Run (className digest) { options } calls t) :
    t.css = String.join (t.rules.keys.map fun c => (t.printed? c).getD "") ∧
    ∀ named ∈ calls,
      (∃ before first after, calls = before ++ first :: after ∧
        (∀ other ∈ before, other.className ≠ named.className) ∧
        first.className = named.className ∧ (first.rule == named.rule) = true ∧
        t.printed? named.className = some (Css.classText named.className first.rule)) ∧
      ((∀ other ∈ calls, (other.rule == named.rule) = true → other.rule = named.rule) →
        t.printed? named.className = some (Css.classText named.className named.rule)) := by
  refine ⟨t.css_eq_join, fun named hn => ?_⟩
  obtain ⟨before, first, after, hcalls, hbefore, hclass, heq, hget⟩ := exists_first_request h hn
  have hprinted : t.printed? named.className =
      some (Css.classText named.className first.rule) := by
    rw [printed?, hget, Option.map_some]
  refine ⟨⟨before, first, after, hcalls, hbefore, hclass, heq, hprinted⟩, fun hsingle => ?_⟩
  have hfirst : first ∈ calls := by
    rw [hcalls]
    simp
  rw [hprinted, hsingle first hfirst heq]

def refined : StyleRule := .ofList [("margin", .text "0"), ("marginTop", .text "1px")]

/-- The same declarations, where the shorthand takes the refinement back. -/
def overridden : StyleRule := .ofList [("marginTop", .text "1px"), ("margin", .text "0")]

def byLabel : NamingOptions where
  mode := .readable

def boxes : List NamedRule :=
  [⟨refined, some "box", "recipes__box"⟩, ⟨overridden, some "box", "recipes__box"⟩]

def boxRegistry : ClassRegistry where
  options := byLabel
  rules := .singleton "recipes__box" refined

theorem run_boxes : ClassNamer.Run (className id) ⟨byLabel, ∅⟩ boxes boxRegistry := by
  have hfirst : className id refined (some "box") ⟨byLabel, ∅⟩ =
      ("recipes__box", boxRegistry) := rfl
  have hsecond : className id overridden (some "box") boxRegistry =
      ("recipes__box", boxRegistry) := rfl
  exact .step hfirst (.step hsecond (.done boxRegistry))

theorem css_prints_first_request_boxes :
    ClassNamer.Run (className id) ⟨byLabel, ∅⟩ boxes boxRegistry ∧
    boxRegistry.css = String.join (boxRegistry.rules.keys.map
      fun c => (boxRegistry.printed? c).getD "") ∧
    ∀ named ∈ boxes,
      (∃ before first after, boxes = before ++ first :: after ∧
        (∀ other ∈ before, other.className ≠ named.className) ∧
        first.className = named.className ∧ (first.rule == named.rule) = true ∧
        boxRegistry.printed? named.className =
          some (Css.classText named.className first.rule)) ∧
      ((∀ other ∈ boxes, (other.rule == named.rule) = true → other.rule = named.rule) →
        boxRegistry.printed? named.className =
          some (Css.classText named.className named.rule)) :=
  ⟨run_boxes, css_prints_first_request id byLabel run_boxes⟩

/-- Not every request is printed as it was made: the second of the two boxes has a shorthand
at its end, which takes back what is declared before it, and the style sheet has it in front. -/
theorem not_css_prints_every_request :
    ¬ ∀ (digest : String → String) (options : NamingOptions) (calls : List NamedRule)
      (t : ClassRegistry), ClassNamer.Run (className digest) { options } calls t →
      ∀ named ∈ calls,
        t.printed? named.className = some (Css.classText named.className named.rule) := by
  intro h
  have hprinted := h id byLabel boxes boxRegistry run_boxes
    ⟨overridden, some "box", "recipes__box"⟩ (by simp [boxes])
  have hdiffers : boxRegistry.printed? "recipes__box" ≠
      some (Css.classText "recipes__box" overridden) := by decide +kernel
  exact hdiffers hprinted

end ClassRegistry
end StyleVariants

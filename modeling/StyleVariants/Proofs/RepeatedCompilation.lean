import StyleVariants.CustomProperty.Registry
import StyleVariants.Proofs.PropertyRuns
import StyleVariants.Proofs.RegisteredClasses
import StyleVariants.Proofs.SettledNames

/-!
# Compiling a recipe again

A recipe that is compiled again, with its allocator in the same state as before, makes the
same requests. The custom properties come out the same, because the allocator does not see
the classes; so the rules of the inline axes are the same; and a namer that answers each of
these requests as it did before, without a change, gives the same tables. A class registry
does so for good, whatever it was asked for in between.
-/
namespace StyleVariants
variable {σ τ : Type}

/-- The same requests, made in a state of the namer in which each is answered as before and
nothing changes, leave that state and are answered as before. -/
theorem Backend.Run.replay {ι : Type} {namer : ClassNamer σ} {allocator : PropertyAllocator τ}
    {schedule : Schedule ι} {answers again : Answers ι (σ × τ)} {s t r w : σ × τ}
    (h : (Backend.ofParts namer allocator).Run s (schedule.steps answers) t)
    (h' : (Backend.ofParts namer allocator).Run r (schedule.steps again) w)
    (hallocator : r.2 = s.2)
    (hstable : ∀ slot rule label, (slot, Request.className rule label) ∈ schedule →
      namer rule label r.1 = ((answers slot).1, r.1)) :
    w = (r.1, t.2) ∧ ∀ e ∈ schedule, (again e.1).1 = (answers e.1).1 := by
  induction schedule generalizing s r with
  | nil =>
      cases h
      cases h'
      exact ⟨Prod.ext rfl hallocator, by simp⟩
  | cons e rest ih =>
      obtain ⟨slot, request⟩ := e
      obtain ⟨hstep, hrest⟩ := h.uncons
      obtain ⟨hstep', hrest'⟩ := h'.uncons
      -- one request leaves the namer as it is and the allocators in step
      have hone : (again slot).1 = (answers slot).1 ∧ (again slot).2.1 = r.1 ∧
          (again slot).2.2 = (answers slot).2.2 := by
        rw [← hstep']
        cases request with
        | className rule label =>
            have hnamed := hstable slot rule label (by simp)
            rw [perform_ofParts_className, hnamed, ← hstep]
            exact ⟨rfl, rfl, hallocator⟩
        | customProperty hint =>
            rw [perform_ofParts_customProperty, hallocator, ← hstep]
            exact ⟨rfl, rfl, rfl⟩
      obtain ⟨htext, hstate, hallocator'⟩ := hone
      have hlater := ih hrest hrest' hallocator' fun slot' rule label hmem => by
        rw [hstate]
        exact hstable slot' rule label (List.mem_cons_of_mem _ hmem)
      rw [hstate] at hlater
      exact ⟨hlater.1, List.forall_mem_cons.2 ⟨htext, hlater.2⟩⟩

namespace Blueprint
variable {plan : Blueprint} {debugId : Option String}

section Congruence
variable {b : Backend σ} {answers again : Answers Cell σ}

/-- The same references to the same properties stand in all cells of inline axes. -/
def SameProperties (b : Backend σ) (answers again : Answers Cell σ) : Prop :=
  ∀ axisName name, (again (.property axisName name)).1 = (answers (.property axisName name)).1 ∧
    propertyIn b again axisName name = propertyIn b answers axisName name

theorem schedule_eq_of_sameProperties (h : SameProperties b answers again) :
    plan.schedule b debugId again = plan.schedule b debugId answers := by
  have hstate : ∀ axisName axis,
      plan.inlineState b again axisName axis = plan.inlineState b answers axisName axis := by
    intro axisName axis
    simp only [inlineState, h axisName _]
  simp only [schedule, inlineSchedule, hstate]

theorem filled_eq_of_sameProperties (h : SameProperties b answers again)
    (htext : ∀ cell, (again cell).1 = (answers cell).1) :
    plan.filled b again = plan.filled b answers := by
  simp only [filled, baseClass, regularTable, responsiveTable, inlineCell, compoundCell, htext,
    h _ _]

end Congruence

theorem sameProperties_of_run {namer : ClassNamer σ} {allocator : PropertyAllocator τ}
    {answers again : Answers Cell (σ × τ)} {s t r w : σ × τ}
    (h : (Backend.ofParts namer allocator).Run s
      ((plan.schedule (.ofParts namer allocator) debugId answers).steps answers) t)
    (h' : (Backend.ofParts namer allocator).Run r
      ((plan.schedule (.ofParts namer allocator) debugId again).steps again) w)
    (hallocator : r.2 = s.2)
    (hothers : ∀ cell, cell ∉ plan.cells debugId → again cell = answers cell) :
    SameProperties (.ofParts namer allocator) answers again := by
  have hrun := run_allocated h'
  rw [hallocator] at hrun
  have hsteps := ((run_allocated h).deterministic hrun (by simp [Function.comp_def])).1
  have hcells := List.map_inj_left.1 hsteps
  intro axisName name
  by_cases hc : (axisName, name) ∈ plan.inlineCells
  · have hsame := hcells (axisName, name) hc
    simp only [Prod.mk.injEq, true_and] at hsame
    refine ⟨hsame.1.symm, ?_⟩
    simp only [propertyIn, Backend.ofParts, hsame.1, hsame.2]
  · have hother := hothers (.property axisName name) fun hmem =>
      hc (mem_inlineCells_of_mem_cells (.ofParts namer allocator) answers hmem)
    simp [propertyIn, hother]

theorem compile_again {namer : ClassNamer σ} {allocator : PropertyAllocator τ} {s t u : σ}
    {p q : τ} {compiled : CompiledRecipe}
    (h : plan.compile (.ofParts namer allocator) debugId (s, p) = (compiled, t, q))
    (hstable : ∀ calls, namer.Run s calls t → ∀ named ∈ calls,
      namer named.rule named.label u = (named.className, u)) :
    plan.compile (.ofParts namer allocator) debugId (u, p) = (compiled, u, q) := by
  have hfills := plan.fills_compile (.ofParts namer allocator) debugId
  obtain ⟨answers, hfilled, hrun⟩ := hfills.exists_answers (plan.nodup_cells debugId) (s, p)
  obtain ⟨again, hothers, hfilled', hrun'⟩ :=
    hfills.exists_answers_extending (plan.nodup_cells debugId) (u, p) answers
  rw [h] at hfilled hrun
  have hsame := sameProperties_of_run hrun hrun' rfl hothers
  rw [schedule_eq_of_sameProperties hsame] at hrun'
  have hreplay := hrun.replay hrun' rfl fun cell rule label hmem =>
    hstable _ hrun.named ⟨rule, label, (answers cell).1⟩
      (Schedule.mem_named_iff.2 ⟨cell, hmem, rfl⟩)
  have htext : ∀ cell, (again cell).1 = (answers cell).1 := by
    intro cell
    by_cases hc : cell ∈ plan.cells debugId
    · rw [← plan.schedule_map_fst (.ofParts namer allocator) debugId answers] at hc
      obtain ⟨e, he, rfl⟩ := List.mem_map.1 hc
      exact hreplay.2 e he
    · rw [hothers cell hc]
  have hcompiled : plan.filled (.ofParts namer allocator) again = compiled :=
    (filled_eq_of_sameProperties hsame htext).trans hfilled.symm
  exact Prod.ext (hfilled'.trans hcompiled) hreplay.1

end Blueprint

/-- A recipe that was compiled with a class registry can be compiled again at any later time,
with its allocator in the state in which it was: the outcome is the same, and the registry
stays exactly as it is. In between the registry may have named any rules, and any recipes may
have been compiled with it or refused. -/
theorem Recipe.recompiling_changes_nothing (digest : String → String) (allocator : PropertyAllocator τ)
    (debugId : Option String) (r : Recipe) (family : RecipeDefaults) {s t u : ClassRegistry}
    {p q : τ} {outcome : Except RecipeError CompiledRecipe}
    (h : r.compile family (ClassRegistry.backend digest allocator) debugId (s, p) =
      (outcome, t, q)) (hlater : ClassRegistry.Later digest t u) :
    r.compile family (ClassRegistry.backend digest allocator) debugId (u, p) =
      (outcome, u, q) := by
  unfold Recipe.compile at h ⊢
  cases hplan : r.blueprint family with
  | error error =>
      rw [hplan] at h
      obtain ⟨rfl, hsame⟩ := Prod.mk.inj h
      obtain ⟨-, rfl⟩ := Prod.mk.inj hsame
      rfl
  | ok plan =>
      rw [hplan] at h
      rcases hcompile : plan.compile (ClassRegistry.backend digest allocator) debugId (s, p) with
        ⟨compiled, t', q'⟩
      obtain ⟨later, hrun⟩ := hlater.exists_run
      have houtcome : (outcome, t, q) = (Except.ok compiled, t', q') := by
        rw [← h]
        exact congrArg (fun e => (Except.ok e.1, e.2)) hcompile
      obtain ⟨rfl, hstate⟩ := Prod.mk.inj houtcome
      obtain ⟨rfl, rfl⟩ := Prod.mk.inj hstate
      have hstable : ∀ calls, ClassNamer.Run (ClassRegistry.className digest) s calls t →
          ∀ named ∈ calls, ClassRegistry.className digest named.rule named.label u =
            (named.className, u) := by
        intro calls hcalls named hn
        exact ClassRegistry.run_again (hcalls.append hrun) (List.mem_append_left _ hn)
      have hagain := Blueprint.compile_again hcompile hstable
      exact congrArg (fun e => (Except.ok e.1, e.2)) hagain

def spaced : Recipe where
  base := some (.rule (ClassRegistry.gapped "8px"))

def classedOption : Recipe where
  regular := .ofList [("size", .ofList [("small", .reference "frame")])]

abbrev blindBackend : Backend (ClassRegistry × PropertyRegistry) :=
  ClassRegistry.backend blind (PropertyRegistry.allocator blind)

/-- All classes are numbered names of one text. A recipe that is compiled in between takes the
next number, and another one is refused. -/
theorem Recipe.recompiling_changes_nothing_framed :
    ∃ (compiled : CompiledRecipe) (t u : ClassRegistry) (q : PropertyRegistry),
      framed.compile {} blindBackend none ({}, {}) = (.ok compiled, t, q) ∧
      ClassRegistry.Later blind t u ∧
      q.names = ["--gap-initial__000000", "--gap-md__000000"] ∧
      u.rules.keys = ["recipes__00000000", "recipes__00000000_1", "recipes__00000000_2",
        "recipes__00000000_3"] ∧
      framed.compile {} blindBackend none (u, {}) = (.ok compiled, u, q) := by
  have haccepted : (framed.compile {} blindBackend none ({}, {})).1.isOk = true := by
    decide +kernel
  have hnames : (framed.compile {} blindBackend none ({}, {})).2.2.names =
      ["--gap-initial__000000", "--gap-md__000000"] := by decide +kernel
  have hkeys : (spaced.compile {} blindBackend none (classedOption.compile {} blindBackend none
      (framed.compile {} blindBackend none ({}, {})).2).2).2.1.rules.keys =
      ["recipes__00000000", "recipes__00000000_1", "recipes__00000000_2",
        "recipes__00000000_3"] := by decide +kernel
  rcases hframed : framed.compile {} blindBackend none ({}, {}) with ⟨outcome, t, q⟩
  rcases hrefused : classedOption.compile {} blindBackend none (t, q) with ⟨refusal, t', q'⟩
  rcases hspaced : spaced.compile {} blindBackend none (t', q') with ⟨other, u, q''⟩
  rw [hframed] at haccepted hnames hkeys
  rw [hrefused, hspaced] at hkeys
  have hlater : ClassRegistry.Later blind t u :=
    .compiled hrefused (.compiled hspaced (.refl u))
  cases outcome with
  | error error => cases haccepted
  | ok compiled =>
      exact ⟨compiled, t, u, q, rfl, hlater, hnames, hkeys,
        Recipe.recompiling_changes_nothing blind (PropertyRegistry.allocator blind) none framed
          {} hframed hlater⟩

end StyleVariants

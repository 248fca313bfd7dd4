import StyleVariants.Proofs.CompiledClasses
import StyleVariants.Proofs.InlineProperties

/-!
# Runs of a property allocator

A backend made of two parts allocates properties without a look at its classes. What a
compilation is answered for its inline axes is therefore the run of the allocator alone, one
request for each condition in the scope of an axis, and it depends on nothing but the state
in which the allocator began.
-/
namespace StyleVariants
variable {σ τ : Type}

/-- From one state to another by allocations, each with its answer and the state it leaves. -/
inductive PropertyAllocator.Run (allocator : PropertyAllocator τ) :
    τ → List (String × String × τ) → τ → Prop
  | done (p : τ) : Run allocator p [] p
  | step {p q u : τ} {hint answer : String} {rest : List (String × String × τ)} :
      allocator.customProperty hint p = (answer, q) → Run allocator q rest u →
      Run allocator p ((hint, answer, q) :: rest) u

theorem PropertyAllocator.Run.deterministic {allocator : PropertyAllocator τ} {p q q' : τ}
    {steps steps' : List (String × String × τ)} (h : allocator.Run p steps q)
    (h' : allocator.Run p steps' q') (hhints : steps.map Prod.fst = steps'.map Prod.fst) :
    steps = steps' ∧ q = q' := by
  induction h generalizing steps' with
  | done p =>
      cases h' with
      | done p => exact ⟨rfl, rfl⟩
      | step _ _ => cases hhints
  | @step p q u hint answer rest hstep _ ih =>
      cases h' with
      | done p => cases hhints
      | @step _ q' _ hint' answer' rest' hstep' hrest' =>
          obtain ⟨rfl, htail⟩ := List.cons.inj hhints
          obtain ⟨rfl, rfl⟩ := Prod.mk.inj (hstep.symm.trans hstep')
          obtain ⟨hsteps, hend⟩ := ih hrest' htail
          exact ⟨by rw [hsteps], hend⟩

def Request.allocated? : Request × String × (σ × τ) → Option (String × String × τ)
  | (.customProperty hint, answer, t) => some (hint, answer, t.2)
  | (.className _ _, _) => none

theorem Backend.Run.allocated {namer : ClassNamer σ} {allocator : PropertyAllocator τ}
    {s t : σ × τ} {steps : List (Request × String × (σ × τ))}
    (h : (Backend.ofParts namer allocator).Run s steps t) :
    allocator.Run s.2 (steps.filterMap Request.allocated?) t.2 := by
  induction h with
  | done s => exact .done s.2
  | @step s t u request answer rest hp _ ih =>
      cases request with
      | className rule label =>
          obtain ⟨rfl, rfl⟩ := Prod.mk.inj hp
          exact ih
      | customProperty hint =>
          obtain ⟨rfl, rfl⟩ := Prod.mk.inj hp
          exact .step rfl ih

namespace Blueprint
variable {plan : Blueprint} {namer : ClassNamer σ} {allocator : PropertyAllocator τ}
  {debugId : Option String} {answers : Answers Cell (σ × τ)} {s t : σ × τ}

/-- The run of the allocator while a schedule is performed. -/
theorem run_allocated (h : (Backend.ofParts namer allocator).Run s
      ((plan.schedule (.ofParts namer allocator) debugId answers).steps answers) t) :
    allocator.Run s.2 (plan.inlineCells.map fun c => (c.1 ++ "-" ++ c.2,
      (answers (.property c.1 c.2)).1, (answers (.property c.1 c.2)).2.2)) t.2 := by
  have hrun := h.allocated
  rw [Schedule.steps, List.filterMap_map, filterMap_schedule fun _ _ _ => rfl] at hrun
  simpa [Request.allocated?] using hrun

theorem mem_inlineCells_of_mem_cells (b : Backend σ) (answers : Answers Cell σ)
    {axisName name : String} (h : Cell.property axisName name ∈ plan.cells debugId) :
    (axisName, name) ∈ plan.inlineCells := by
  let cell? : Cell × Request → Option (String × String)
    | (.property axisName name, .customProperty _) => some (axisName, name)
    | _ => none
  rw [← plan.schedule_map_fst b debugId answers] at h
  obtain ⟨⟨cell, request⟩, hmem, rfl⟩ := List.mem_map.1 h
  cases request with
  | className rule label => cases cellRule_of_mem_schedule hmem
  | customProperty hint =>
      have hfound : (axisName, name) ∈ (plan.schedule b debugId answers).filterMap cell? :=
        List.mem_filterMap.2 ⟨_, hmem, rfl⟩
      rw [filterMap_schedule fun cell _ _ => by cases cell <;> rfl] at hfound
      obtain ⟨c, hc, heq⟩ := List.mem_filterMap.1 hfound
      rw [← Option.some.inj heq]
      exact hc

end Blueprint
end StyleVariants

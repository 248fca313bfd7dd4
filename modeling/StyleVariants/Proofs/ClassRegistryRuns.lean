import StyleVariants.ClassName.Registry
import StyleVariants.OrderedMap.Lemmas
import StyleVariants.Proofs.BackendRuns
import Mathlib.Data.List.Nodup
import Mathlib.Data.List.Perm.Subperm

/-!
# Runs of a class registry

Naming a class either finds it registered for an equal rule and changes nothing, or
registers the rule under a new name. There is always such a name, because there is one
candidate more than there are registered classes. Along a run a registered rule therefore
never changes, and a class that was answered stays registered for a rule equal to the one
it was asked for.
-/
namespace StyleVariants

structure NamedRule where
  rule : StyleRule
  label : Option String
  className : String

/-- From one state to another by naming rules one after the other. -/
inductive ClassNamer.Run {σ : Type} (namer : ClassNamer σ) : σ → List NamedRule → σ → Prop
  | done (s : σ) : Run namer s [] s
  | step {s t u : σ} {named : NamedRule} {rest : List NamedRule} :
      namer named.rule named.label s = (named.className, t) → Run namer t rest u →
      Run namer s (named :: rest) u

theorem ClassNamer.Run.append {σ : Type} {namer : ClassNamer σ} {s t u : σ}
    {front rest : List NamedRule} (h : namer.Run s front t) (k : namer.Run t rest u) :
    namer.Run s (front ++ rest) u := by
  induction h with
  | done s => exact k
  | step hstep _ ih => exact .step hstep (ih k)

def Request.named? {σ : Type} : Request × String × σ → Option NamedRule
  | (.className rule label, answer, _) => some ⟨rule, label, answer⟩
  | (.customProperty _, _, _) => none

theorem Backend.Run.named {σ τ : Type} {namer : ClassNamer σ} {allocator : PropertyAllocator τ}
    {s t : σ × τ} {steps : List (Request × String × (σ × τ))}
    (h : (Backend.ofParts namer allocator).Run s steps t) :
    namer.Run s.1 (steps.filterMap Request.named?) t.1 := by
  induction h with
  | done s => exact .done s.1
  | @step s t u request answer rest hp _ ih =>
      cases request with
      | className rule label =>
          obtain ⟨rfl, rfl⟩ := Prod.mk.inj hp
          let named : NamedRule := ⟨rule, label, (namer rule label s.1).1⟩
          have hstep : namer named.rule named.label s.1 =
            (named.className, (namer rule label s.1).2) := rfl
          exact .step hstep ih
      | customProperty hint =>
          obtain ⟨rfl, rfl⟩ := Prod.mk.inj hp
          exact ih

@[simp] theorem StyleRule.beq_refl (rule : StyleRule) : (rule == rule) = true := by
  simp [BEq.beq]

namespace ClassRegistry

/-- A class is registered for a rule with the same declarations. -/
def Holds (registry : ClassRegistry) (className : String) (rule : StyleRule) : Prop :=
  ∃ registered, registry.rules.get? className = some registered ∧ (registered == rule) = true

theorem numbered_injective {base : String} {i j : Nat}
    (h : base ++ "_" ++ toString i = base ++ "_" ++ toString j) : i = j := by
  have hlist := congrArg String.toList h
  simp only [String.toList_append] at hlist
  have hdigits := List.append_cancel_left hlist
  have hvalue := congrArg (Nat.ofDigitChars 10 · 0) hdigits
  simpa using hvalue

theorem nodup_candidates (base : String) (count : Nat) : (candidates base count).Nodup := by
  rw [candidates, List.nodup_cons]
  constructor
  · simp only [List.mem_map, not_exists, not_and]
    intro i _ h
    have hlength := congrArg (fun s : String => s.toList.length) h
    simp at hlength
  · exact List.Nodup.map (fun i j h => Nat.succ.inj (numbered_injective h)) List.nodup_range

/-- There are not enough registered classes to take every candidate. -/
theorem exists_admitted (registry : ClassRegistry) (rule : StyleRule) (base : String) :
    ∃ name ∈ candidates base registry.rules.size, registry.admits rule name = true := by
  by_contra hnone
  have htaken : candidates base registry.rules.size ⊆ registry.rules.keys := by
    intro name hname
    cases hget : registry.rules.get? name with
    | none => exact (hnone ⟨name, hname, by simp [admits, hget]⟩).elim
    | some registered => exact OrderedMap.mem_keys_iff.2 ⟨registered, hget⟩
  have hlength := (List.subperm_of_subset (nodup_candidates base _) htaken).length_le
  simp only [candidates, OrderedMap.keys, OrderedMap.size, List.length_cons, List.length_map,
    List.length_range] at hlength
  omega

theorem exists_found (registry : ClassRegistry) (rule : StyleRule) (base : String) :
    ∃ name, (candidates base registry.rules.size).find? (registry.admits rule) = some name := by
  obtain ⟨name, hname, hadmits⟩ := registry.exists_admitted rule base
  cases hfind : (candidates base registry.rules.size).find? (registry.admits rule) with
  | none => exact (List.find?_eq_none.1 hfind name hname hadmits).elim
  | some first => exact ⟨first, rfl⟩

/-- What naming a rule does: it finds the class registered for an equal rule, or registers
the rule. -/
theorem className_cases {digest : String → String} {rule : StyleRule} {label : Option String}
    {s t : ClassRegistry} {name : String} (h : className digest rule label s = (name, t)) :
    (s.Holds name rule ∧ t = s) ∨
      (s.rules.get? name = none ∧ t = { s with rules := s.rules.insert name rule }) := by
  obtain ⟨first, hfirst⟩ :=
    s.exists_found rule (ClassName.generate digest s.options.mode s.options.scope label rule)
  have hfirst_admits := List.find?_some hfirst
  -- the search succeeds, so the name is a candidate that is free or taken by an equal rule
  simp only [className] at h
  rw [hfirst, Option.getD_some] at h
  cases hget : s.rules.get? first with
  | none =>
      right
      have hnew : s.rules.contains first = false := by simp [OrderedMap.contains, hget]
      rw [hnew, if_neg (by decide)] at h
      obtain ⟨rfl, rfl⟩ := Prod.mk.inj h
      exact ⟨hget, rfl⟩
  | some registered =>
      left
      have hold : s.rules.contains first = true := by simp [OrderedMap.contains, hget]
      rw [hold, if_pos rfl] at h
      obtain ⟨rfl, rfl⟩ := Prod.mk.inj h
      exact ⟨⟨registered, hget, by simpa [admits, hget] using hfirst_admits⟩, rfl⟩

section Steps
variable {digest : String → String} {rule : StyleRule} {label : Option String}
  {s t : ClassRegistry} {name c : String}

theorem className_holds (h : className digest rule label s = (name, t)) : t.Holds name rule := by
  rcases className_cases h with ⟨hholds, rfl⟩ | ⟨-, rfl⟩
  · exact hholds
  · exact ⟨rule, by simp, by simp⟩

theorem className_keeps (h : className digest rule label s = (name, t)) {registered : StyleRule}
    (hc : s.rules.get? c = some registered) : t.rules.get? c = some registered := by
  rcases className_cases h with ⟨-, rfl⟩ | ⟨hnew, rfl⟩
  · exact hc
  · have hne : c ≠ name := by
      rintro rfl
      simp [hnew] at hc
    simpa [OrderedMap.get?_insert_of_ne hne] using hc

end Steps

section Runs
variable {digest : String → String} {s t : ClassRegistry} {calls : List NamedRule} {c : String}

theorem run_keeps (h : ClassNamer.Run (className digest) s calls t) {registered : StyleRule}
    (hc : s.rules.get? c = some registered) : t.rules.get? c = some registered := by
  induction h with
  | done s => exact hc
  | step hstep _ ih => exact ih (className_keeps hstep hc)

theorem Holds.of_run {rule : StyleRule} (hc : s.Holds c rule)
    (h : ClassNamer.Run (className digest) s calls t) : t.Holds c rule := by
  obtain ⟨registered, hget, heq⟩ := hc
  exact ⟨registered, run_keeps h hget, heq⟩

theorem run_holds (h : ClassNamer.Run (className digest) s calls t) {named : NamedRule}
    (hn : named ∈ calls) : t.Holds named.className named.rule := by
  induction h with
  | done s => simp at hn
  | step hstep hrest ih =>
      rcases List.mem_cons.1 hn with rfl | hn
      · exact (className_holds hstep).of_run hrest
      · exact ih hn

/-- The rule of a class is the one that was registered before the run, or the one of the
first request that was answered with the class. -/
theorem run_registered (h : ClassNamer.Run (className digest) s calls t)
    {registered : StyleRule} (hc : t.rules.get? c = some registered) :
    s.rules.get? c = some registered ∨
      ∃ before label after, calls = before ++ ⟨registered, label, c⟩ :: after ∧
        ∀ named ∈ before, named.className ≠ c := by
  induction h with
  | done s => exact .inl hc
  | @step s t u named rest hstep hrest ih =>
      obtain ⟨rule, label, name⟩ := named
      by_cases hname : name = c
      · subst hname
        -- after this step the rule of the class is settled
        have hsettled : ∀ rule', t.rules.get? name = some rule' → rule' = registered :=
          fun rule' h => Option.some.inj ((run_keeps hrest h).symm.trans hc)
        rcases className_cases hstep with ⟨⟨old, hold, -⟩, rfl⟩ | ⟨-, rfl⟩
        · exact .inl (hsettled old hold ▸ hold)
        · right
          have hrule : rule = registered := hsettled rule (by simp)
          exact ⟨[], label, rest, by rw [hrule]; rfl, by simp⟩
      · rcases ih hc with hmid | ⟨before, label', after, hcalls, hbefore⟩
        · rcases className_cases hstep with ⟨-, rfl⟩ | ⟨-, rfl⟩
          · exact .inl hmid
          · left
            simpa [OrderedMap.get?_insert_of_ne (Ne.symm hname)] using hmid
        · right
          refine ⟨⟨rule, label, name⟩ :: before, label', after, by rw [hcalls]; rfl, ?_⟩
          simpa [hname] using hbefore

end Runs

end ClassRegistry
end StyleVariants

import StyleVariants.Backend.Basic
import StyleVariants.OrderedMap.Lemmas
import Mathlib.Data.List.Basic

/-!
# Runs of a backend

A request is a call without its answer. A run performs requests one after the other, each
in the state that the one before left. A program over a backend *fills* slots if it makes
exactly the requests of a schedule, in this order, and what it returns is a function of
the answers alone, each looked up in its own slot. Requests may depend on answers that
were given before.

Filling is shown for loops from their bodies: one rule for every way in which programs
are put together.
-/
namespace StyleVariants

inductive Request where
  | className (rule : StyleRule) (label : Option String)
  | customProperty (hint : String)

def Request.answered : Request → String → Call
  | className rule label, answer => .className rule label answer
  | customProperty hint, answer => .customProperty hint answer

namespace Backend
variable {σ : Type}

def perform (b : Backend σ) : Request → StateM σ String
  | .className rule label => b.className rule label
  | .customProperty hint => b.customProperty hint

@[simp] theorem perform_ofParts_className {τ : Type} (namer : ClassNamer σ)
    (allocator : PropertyAllocator τ) (rule : StyleRule) (label : Option String) (s : σ × τ) :
    (ofParts namer allocator).perform (.className rule label) s =
      ((namer rule label s.1).1, (namer rule label s.1).2, s.2) := rfl

@[simp] theorem perform_ofParts_customProperty {τ : Type} (namer : ClassNamer σ)
    (allocator : PropertyAllocator τ) (hint : String) (s : σ × τ) :
    (ofParts namer allocator).perform (.customProperty hint) s =
      ((allocator.customProperty hint s.2).1, s.1, (allocator.customProperty hint s.2).2) := rfl

/-- From one state to another by requests, each with its answer and the state it leaves. -/
inductive Run (b : Backend σ) : σ → List (Request × String × σ) → σ → Prop
  | done (s : σ) : Run b s [] s
  | step {s t u : σ} {request : Request} {answer : String}
      {rest : List (Request × String × σ)} : b.perform request s = (answer, t) →
      Run b t rest u → Run b s ((request, answer, t) :: rest) u

theorem Run.append {b : Backend σ} {s t u : σ} {front rest : List (Request × String × σ)}
    (h : b.Run s front t) (k : b.Run t rest u) : b.Run s (front ++ rest) u := by
  induction h with
  | done s => exact k
  | step hp _ ih => exact .step hp (ih k)

theorem Run.uncons {b : Backend σ} {s u : σ} {request : Request} {outcome : String × σ}
    {rest : List (Request × String × σ)} (h : b.Run s ((request, outcome) :: rest) u) :
    b.perform request s = outcome ∧ b.Run outcome.2 rest u := by
  obtain ⟨answer, t⟩ := outcome
  cases h with
  | step hp hrest => exact ⟨hp, hrest⟩

theorem Run.of_recorded {b : Backend σ} {s t : σ × List Call}
    {steps : List (Request × String × (σ × List Call))} (h : b.recorded.Run s steps t) :
    t.2 = s.2 ++ steps.map (fun e => e.1.answered e.2.1) ∧
      b.Run s.1 (steps.map fun e => (e.1, e.2.1, e.2.2.1)) t.1 := by
  induction h with
  | done s => exact ⟨by simp, .done s.1⟩
  | @step s t u request answer rest hp _ ih =>
      obtain ⟨hcalls, hrun⟩ := ih
      have hperform : b.perform request s.1 = (answer, t.1) ∧
          t.2 = s.2 ++ [request.answered answer] := by
        cases request with
        | className rule label =>
            obtain ⟨rfl, rfl⟩ := Prod.mk.inj hp
            exact ⟨rfl, rfl⟩
        | customProperty hint =>
            obtain ⟨rfl, rfl⟩ := Prod.mk.inj hp
            exact ⟨rfl, rfl⟩
      refine ⟨?_, .step hperform.1 hrun⟩
      rw [hcalls, hperform.2]
      simp

end Backend

variable {σ ι α β : Type}

/-- What each slot holds: the text of an answer and the state it left. -/
abbrev Answers (ι σ : Type) := ι → String × σ

abbrev Schedule (ι : Type) := List (ι × Request)

def Schedule.steps (schedule : Schedule ι) (answers : Answers ι σ) :
    List (Request × String × σ) :=
  schedule.map fun e => (e.2, answers e.1)

/-- A program makes the requests of a schedule and returns a function of their answers:
every run gives answers to the slots, and any function that keeps them describes the run. -/
def Fills (b : Backend σ) (program : StateM σ α) (slots : List ι)
    (schedule : Answers ι σ → Schedule ι) (result : Answers ι σ → α) : Prop :=
  ∀ s, ∃ given : List (ι × String × σ), given.map Prod.fst = slots ∧
    ∀ answers : Answers ι σ, (∀ e ∈ given, answers e.1 = e.2) →
      (program s).1 = result answers ∧
      b.Run s ((schedule answers).steps answers) (program s).2

namespace Fills
variable {b : Backend σ}

theorem pure (a : α) :
    Fills b (Pure.pure a : StateM σ α) ([] : List ι) (fun _ => []) (fun _ => a) :=
  fun s => ⟨[], rfl, fun _ _ => ⟨rfl, .done s⟩⟩

/-- The second program need only fill its slots for the values that the first can return. -/
theorem bind_of {program : StateM σ α} {next : α → StateM σ β} {slots slots' : List ι}
    {schedule : Answers ι σ → Schedule ι} {result : Answers ι σ → α}
    {schedule' : α → Answers ι σ → Schedule ι} {result' : α → Answers ι σ → β}
    {P : α → Prop} (h : Fills b program slots schedule result)
    (hP : ∀ answers, P (result answers))
    (hnext : ∀ a, P a → Fills b (next a) slots' (schedule' a) (result' a)) :
    Fills b (program >>= next) (slots ++ slots')
      (fun answers => schedule answers ++ schedule' (result answers) answers)
      (fun answers => result' (result answers) answers) := by
  intro s
  obtain ⟨given, hslots, hgiven⟩ := h s
  by_cases hkept : ∃ answers : Answers ι σ, ∀ e ∈ given, answers e.1 = e.2
  · have hprogram : P (program s).1 := by
      obtain ⟨answers, ha⟩ := hkept
      rw [(hgiven answers ha).1]
      exact hP answers
    obtain ⟨given', hslots', hgiven'⟩ := hnext (program s).1 hprogram (program s).2
    refine ⟨given ++ given', by rw [List.map_append, hslots, hslots'], fun answers ha => ?_⟩
    obtain ⟨hresult, hrun⟩ := hgiven answers fun e he => ha e (List.mem_append_left _ he)
    obtain ⟨hresult', hrun'⟩ := hgiven' answers fun e he => ha e (List.mem_append_right _ he)
    rw [hresult] at hresult' hrun'
    refine ⟨?_, ?_⟩
    · show (next (program s).1 (program s).2).1 = _
      rw [hresult, hresult']
    · show b.Run s _ (next (program s).1 (program s).2).2
      rw [hresult, Schedule.steps, List.map_append]
      exact hrun.append hrun'
  · -- two answers for one slot: no function keeps them, so any second run will do
    have hslots' : (slots'.map fun slot => (slot, "", s)).map Prod.fst = slots' := by
      simp [Function.comp_def]
    refine ⟨given ++ slots'.map fun slot => (slot, "", s), ?_, fun answers ha => ?_⟩
    · rw [List.map_append, hslots, hslots']
    · exact (hkept ⟨answers, fun e he => ha e (List.mem_append_left _ he)⟩).elim

theorem bind {program : StateM σ α} {next : α → StateM σ β} {slots slots' : List ι}
    {schedule : Answers ι σ → Schedule ι} {result : Answers ι σ → α}
    {schedule' : α → Answers ι σ → Schedule ι} {result' : α → Answers ι σ → β}
    (h : Fills b program slots schedule result)
    (hnext : ∀ a, Fills b (next a) slots' (schedule' a) (result' a)) :
    Fills b (program >>= next) (slots ++ slots')
      (fun answers => schedule answers ++ schedule' (result answers) answers)
      (fun answers => result' (result answers) answers) :=
  h.bind_of (P := fun _ => True) (fun _ => trivial) fun a _ => hnext a

theorem congr {program : StateM σ α} {slots slots' : List ι}
    {schedule schedule' : Answers ι σ → Schedule ι} {result result' : Answers ι σ → α}
    (h : Fills b program slots schedule result) (hslots : slots = slots')
    (hschedule : ∀ answers, schedule answers = schedule' answers)
    (hresult : ∀ answers, result answers = result' answers) :
    Fills b program slots' schedule' result' := by
  obtain rfl := hslots
  obtain rfl := funext hschedule
  obtain rfl := funext hresult
  exact h

theorem map {program : StateM σ α} {slots : List ι} {schedule : Answers ι σ → Schedule ι}
    {result : Answers ι σ → α} (h : Fills b program slots schedule result) (f : α → β) :
    Fills b (program >>= fun a => Pure.pure (f a)) slots schedule
      (fun answers => f (result answers)) :=
  (h.bind fun a => Fills.pure (f a)).congr (by simp) (by simp) (by simp)

theorem request (slot : ι) (q : Request) (f : String → σ → α) :
    Fills b (b.perform q >>= fun answer => get >>= fun t => Pure.pure (f answer t))
      [slot] (fun _ => [(slot, q)]) (fun answers => f (answers slot).1 (answers slot).2) := by
  intro s
  refine ⟨[(slot, b.perform q s)], rfl, fun answers ha => ?_⟩
  have hslot : answers slot = b.perform q s := ha (slot, b.perform q s) (by simp)
  refine ⟨?_, ?_⟩
  · show _ = f (answers slot).1 (answers slot).2
    rw [hslot]
    rfl
  · rw [Schedule.steps, List.map_singleton, hslot]
    exact .step rfl (.done _)

theorem className (slot : ι) (rule : StyleRule) (label : Option String) :
    Fills b (b.className rule label) [slot] (fun _ => [(slot, .className rule label)])
      (fun answers => (answers slot).1) :=
  request (b := b) slot (.className rule label) fun answer _ => answer

theorem foldlM {P : β → Prop} {body : β → α → StateM σ β} {slots : α → List ι}
    {schedule : α → Answers ι σ → Schedule ι} {next : β → α → Answers ι σ → β}
    (hbody : ∀ state a, P state →
      Fills b (body state a) (slots a) (schedule a) (next state a))
    (hP : ∀ state a answers, P state → P (next state a answers)) (l : List α) (state : β)
    (hstate : P state) :
    Fills b (l.foldlM body state) (l.flatMap slots)
      (fun answers => l.flatMap fun a => schedule a answers)
      (fun answers => l.foldl (fun state a => next state a answers) state) := by
  induction l generalizing state with
  | nil => exact Fills.pure state
  | cons a rest ih =>
      rw [List.foldlM_cons]
      exact (hbody state a hstate).bind_of (hP state a · hstate) fun next h => ih next h

/-- A loop over a list that collects what its body returns, item by item; `n` is the number
of the first item. -/
theorem mapM {body : α → StateM σ β} {slots : Nat → α → List ι}
    {schedule : Nat → α → Answers ι σ → Schedule ι} {result : Nat → α → Answers ι σ → β}
    (hbody : ∀ n a, Fills b (body a) (slots n a) (schedule n a) (result n a))
    (l : List α) (n : Nat) :
    Fills b (l.mapM body) ((l.zipIdx n).flatMap fun e => slots e.2 e.1)
      (fun answers => (l.zipIdx n).flatMap fun e => schedule e.2 e.1 answers)
      (fun answers => (l.zipIdx n).map fun e => result e.2 e.1 answers) := by
  induction l generalizing n with
  | nil => exact Fills.pure []
  | cons a rest ih =>
      rw [List.mapM_cons]
      exact (hbody n a).bind fun c => (ih (n + 1)).map (c :: ·)

theorem mapM_entries {κ : Type} {body : κ → α → StateM σ β} {slots : κ → α → List ι}
    {schedule : κ → α → Answers ι σ → Schedule ι} {result : κ → α → Answers ι σ → β}
    (hbody : ∀ k a, Fills b (body k a) (slots k a) (schedule k a) (result k a))
    (es : List (κ × α)) :
    Fills b (Entries.mapM body es) (es.flatMap fun e => slots e.1 e.2)
      (fun answers => es.flatMap fun e => schedule e.1 e.2 answers)
      (fun answers => ⟨es.map fun e => (e.1, result e.1 e.2 answers), by simp⟩) := by
  induction es with
  | nil =>
      let none : {bs : List (κ × β) // bs.map Prod.fst = ([] : List (κ × α)).map Prod.fst} :=
        ⟨[], rfl⟩
      exact Fills.pure none
  | cons e rest ih =>
      obtain ⟨k, a⟩ := e
      let extend (c : β) (bs : {bs : List (κ × β) // bs.map Prod.fst = rest.map Prod.fst}) :
          {bs : List (κ × β) // bs.map Prod.fst = ((k, a) :: rest).map Prod.fst} :=
        ⟨(k, c) :: bs.1, by simp [bs.2]⟩
      exact (hbody k a).bind fun c => ih.map (extend c)

theorem mapM_map {κ : Type} {body : κ → α → StateM σ β} {slots : κ → α → List ι}
    {schedule : κ → α → Answers ι σ → Schedule ι} {result : κ → α → Answers ι σ → β}
    (hbody : ∀ k a, Fills b (body k a) (slots k a) (schedule k a) (result k a))
    (m : OrderedMap κ α) :
    Fills b (m.mapM body) (m.entries.flatMap fun e => slots e.1 e.2)
      (fun answers => m.entries.flatMap fun e => schedule e.1 e.2 answers)
      (fun answers => m.map fun k a => result k a answers) := by
  let collect (bs : {bs : List (κ × β) // bs.map Prod.fst = m.entries.map Prod.fst}) :
      OrderedMap κ β := ⟨bs.1, by rw [bs.2]; exact m.nodup_keys⟩
  exact (mapM_entries hbody m.entries).map collect

/-- If no slot is filled twice, the answers of a run can be kept in their slots. What stands
in other slots may be chosen. -/
theorem exists_answers_extending [DecidableEq ι] {program : StateM σ α} {slots : List ι}
    {schedule : Answers ι σ → Schedule ι} {result : Answers ι σ → α}
    (h : Fills b program slots schedule result) (hn : slots.Nodup) (s : σ)
    (others : Answers ι σ) :
    ∃ answers : Answers ι σ, (∀ slot, slot ∉ slots → answers slot = others slot) ∧
      (program s).1 = result answers ∧
      b.Run s ((schedule answers).steps answers) (program s).2 := by
  obtain ⟨given, hslots, hgiven⟩ := h s
  refine ⟨fun slot => (Entries.get? slot given).getD (others slot), fun slot hslot => ?_,
    hgiven _ fun e he => ?_⟩
  · have hmissing : Entries.get? slot given = none :=
      Entries.get?_eq_none_iff.2 (hslots ▸ hslot)
    simp only [hmissing, Option.getD_none]
  · have hfound : Entries.get? e.1 given = some e.2 :=
      (Entries.get?_eq_some_iff (hslots ▸ hn)).2 he
    rw [hfound]
    rfl

theorem exists_answers [DecidableEq ι] {program : StateM σ α} {slots : List ι}
    {schedule : Answers ι σ → Schedule ι} {result : Answers ι σ → α}
    (h : Fills b program slots schedule result) (hn : slots.Nodup) (s : σ) :
    ∃ answers : Answers ι σ, (program s).1 = result answers ∧
      b.Run s ((schedule answers).steps answers) (program s).2 := by
  obtain ⟨answers, -, hanswers⟩ := h.exists_answers_extending hn s fun _ => ("", s)
  exact ⟨answers, hanswers⟩

end Fills
end StyleVariants

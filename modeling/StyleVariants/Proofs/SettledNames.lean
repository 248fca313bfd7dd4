import StyleVariants.Proofs.ClassRegistryRuns
import Mathlib.Data.List.Basic

/-!
# Names once settled

The names to try for a rule are the plain one and the numbered ones, without an end. The
search stops at the first name that is not taken by a different rule. Every name it passes
over is registered and none comes twice, so it passes over no more names than there are
registered classes.

A registry grows at its end and nowhere else, and what is registered stays as it is. A
search that is done again, however much later, is therefore refused by the same names as
before and stops at the same one, which now has its rule.
-/
namespace StyleVariants

theorem StyleRule.beq_symm {a b : StyleRule} (h : (a == b) = true) : (b == a) = true := by
  simp only [BEq.beq, decide_eq_true_eq] at h ⊢
  exact h.symm

theorem StyleRule.beq_trans {a b c : StyleRule} (hab : (a == b) = true)
    (hbc : (b == c) = true) : (a == c) = true := by
  simp only [BEq.beq, decide_eq_true_eq] at hab hbc ⊢
  exact hab.trans hbc

namespace ClassRegistry

/-- The names to try for a rule, without an end: the plain one and the numbered ones. -/
def candidate (base : String) : Nat → String
  | 0 => base
  | n + 1 => base ++ "_" ++ toString (n + 1)

def Refuses (registry : ClassRegistry) (rule : StyleRule) (name : String) : Prop :=
  ∃ registered, registry.rules.get? name = some registered ∧ (registered == rule) = false

/-- The search for a name passes over `n` candidates and takes the next. -/
structure StopsAfter (registry : ClassRegistry) (base : String) (rule : StyleRule) (n : Nat) :
    Prop where
  refused : ∀ i < n, registry.Refuses rule (candidate base i)
  taken : ¬ registry.Refuses rule (candidate base n)

theorem admits_iff {registry : ClassRegistry} {rule : StyleRule} {name : String} :
    registry.admits rule name = true ↔ ¬ registry.Refuses rule name := by
  unfold admits Refuses
  cases registry.rules.get? name with
  | none => simp
  | some registered => simp

theorem candidates_eq_map (base : String) (count : Nat) :
    candidates base count = (List.range (count + 1)).map (candidate base) := by
  rw [candidates, List.range_succ_eq_map, List.map_cons, List.map_map]
  rfl

theorem nodup_map_candidate (base : String) (n : Nat) :
    ((List.range n).map (candidate base)).Nodup := by
  cases n with
  | zero => exact List.nodup_nil
  | succ n =>
      rw [← candidates_eq_map]
      exact nodup_candidates base n

section Search
variable {registry : ClassRegistry} {base : String} {rule : StyleRule} {n m : Nat}

/-- The names that a search passes over are registered and different. -/
theorem StopsAfter.le_size (h : registry.StopsAfter base rule n) : n ≤ registry.rules.size := by
  have hregistered : (List.range n).map (candidate base) ⊆ registry.rules.keys := by
    intro name hname
    obtain ⟨i, hi, rfl⟩ := List.mem_map.1 hname
    obtain ⟨registered, hget, -⟩ := h.refused i (List.mem_range.1 hi)
    exact OrderedMap.mem_keys_iff.2 ⟨registered, hget⟩
  have hlength := (List.subperm_of_subset (nodup_map_candidate base n) hregistered).length_le
  simpa [OrderedMap.keys, OrderedMap.size] using hlength

/-- A search among as many candidates as are ever needed finds the one at which the search
without an end stops. -/
theorem find?_candidates_iff {name : String} :
    (candidates base registry.rules.size).find? (registry.admits rule) = some name ↔
      ∃ n, registry.StopsAfter base rule n ∧ candidate base n = name := by
  rw [candidates_eq_map, List.find?_map, Option.map_eq_some_iff]
  refine exists_congr fun n => and_congr_left fun _ => ?_
  rw [List.find?_range_eq_some]
  simp only [Function.comp_apply, List.mem_range, Bool.not_eq_true', ← Bool.not_eq_true,
    admits_iff, not_not]
  constructor
  · rintro ⟨htaken, -, hrefused⟩
    exact ⟨hrefused, htaken⟩
  · intro h
    exact ⟨h.taken, Nat.lt_succ_of_le h.le_size, h.refused⟩

theorem exists_stopsAfter (registry : ClassRegistry) (base : String) (rule : StyleRule) :
    ∃ n, registry.StopsAfter base rule n := by
  obtain ⟨name, hfound⟩ := registry.exists_found rule base
  obtain ⟨n, hn, -⟩ := find?_candidates_iff.1 hfound
  exact ⟨n, hn⟩

end Search

def baseName (digest : String → String) (registry : ClassRegistry) (label : Option String)
    (rule : StyleRule) : String :=
  ClassName.generate digest registry.options.mode registry.options.scope label rule

theorem className_of_stopsAfter {digest : String → String} {rule : StyleRule}
    {label : Option String} {s : ClassRegistry} {n : Nat}
    (h : s.StopsAfter (baseName digest s label rule) rule n) :
    className digest rule label s = (candidate (baseName digest s label rule) n,
      if s.rules.contains (candidate (baseName digest s label rule) n) then s
      else { s with rules :=
        s.rules.insert (candidate (baseName digest s label rule) n) rule }) := by
  have hfind := find?_candidates_iff.2 ⟨n, h, rfl⟩
  simp only [className]
  rw [show ClassName.generate digest s.options.mode s.options.scope label rule =
    baseName digest s label rule from rfl, hfind, Option.getD_some]
  split <;> rfl

/-- What one request does to a registry: it registers the rule at the end or leaves all as
it is, the answer is registered for an equal rule, and it is found after as many candidates
as there are registered classes, and one more, at the latest. -/
structure Settles (digest : String → String) (s : ClassRegistry) (named : NamedRule)
    (t : ClassRegistry) : Prop where
  options : t.options = s.options
  entries : t.rules.entries = s.rules.entries ∨
    named.className ∉ s.rules.keys ∧
      t.rules.entries = s.rules.entries ++ [(named.className, named.rule)]
  holds : t.Holds named.className named.rule
  stops : ∃ n ≤ s.rules.size, s.StopsAfter (baseName digest s named.label named.rule) named.rule n ∧
    named.className = candidate (baseName digest s named.label named.rule) n

section Steps
variable {digest : String → String} {s t : ClassRegistry} {named : NamedRule}

theorem className_settles
    (h : className digest named.rule named.label s = (named.className, t)) :
    Settles digest s named t := by
  obtain ⟨n, hn⟩ := s.exists_stopsAfter (baseName digest s named.label named.rule) named.rule
  have hname : named.className = candidate (baseName digest s named.label named.rule) n := by
    have hanswer := className_of_stopsAfter hn
    rw [h] at hanswer
    exact (Prod.mk.inj hanswer).1
  have hstops : ∃ n ≤ s.rules.size,
      s.StopsAfter (baseName digest s named.label named.rule) named.rule n ∧
        named.className = candidate (baseName digest s named.label named.rule) n :=
    ⟨n, hn.le_size, hn, hname⟩
  rcases className_cases h with ⟨hholds, rfl⟩ | ⟨hnew, rfl⟩
  · exact ⟨rfl, .inl rfl, hholds, hstops⟩
  · have hfresh : named.className ∉ s.rules.keys := Entries.get?_eq_none_iff.1 hnew
    have hentries : (s.rules.insert named.className named.rule).entries =
        s.rules.entries ++ [(named.className, named.rule)] :=
      Entries.insert_of_not_mem hfresh named.rule
    exact ⟨rfl, .inr ⟨hfresh, hentries⟩, className_holds h, hstops⟩

end Steps

section Runs
variable {digest : String → String} {s t : ClassRegistry} {calls : List NamedRule}

theorem run_options (h : ClassNamer.Run (className digest) s calls t) :
    t.options = s.options := by
  induction h with
  | done s => rfl
  | step hstep _ ih => exact ih.trans (className_settles hstep).options

theorem run_split {before after : List NamedRule} {named : NamedRule}
    (h : ClassNamer.Run (className digest) s (before ++ named :: after) t) :
    ∃ u v, ClassNamer.Run (className digest) s before u ∧
      className digest named.rule named.label u = (named.className, v) ∧
      ClassNamer.Run (className digest) v after t := by
  induction before generalizing s with
  | nil =>
      cases h with
      | @step s u t named rest hstep hrest => exact ⟨s, u, .done s, hstep, hrest⟩
  | cons first before ih =>
      cases h with
      | step hstep hrest =>
          obtain ⟨u, v, hbefore, hnamed, hafter⟩ := ih hrest
          exact ⟨u, v, .step hstep hbefore, hnamed, hafter⟩

/-- The first request for each class that is not known before, with its rule. -/
def firstRequests (known : List String) : List NamedRule → List (String × StyleRule)
  | [] => []
  | named :: rest =>
      if named.className ∈ known then firstRequests known rest
      else (named.className, named.rule) :: firstRequests (known ++ [named.className]) rest

theorem nodup_firstRequests (known : List String) (calls : List NamedRule) :
    ((firstRequests known calls).map Prod.fst).Nodup ∧
      ∀ c ∈ (firstRequests known calls).map Prod.fst, c ∉ known := by
  induction calls generalizing known with
  | nil => simp [firstRequests]
  | cons named rest ih =>
      rw [firstRequests]
      split
      · exact ih known
      · next hnew =>
        obtain ⟨hnodup, hfresh⟩ := ih (known ++ [named.className])
        have hlater : ∀ c ∈ (firstRequests (known ++ [named.className]) rest).map Prod.fst,
            c ≠ named.className ∧ c ∉ known := by
          intro c hc
          simpa [not_or, and_comm] using hfresh c hc
        rw [List.map_cons, List.nodup_cons]
        refine ⟨⟨fun hmem => (hlater _ hmem).1 rfl, hnodup⟩, ?_⟩
        intro c hc
        cases hc with
        | head => exact hnew
        | tail _ hc => exact (hlater c hc).2

/-- A registry holds what it held before and behind it the first request for every other
class, in the order of these requests. -/
theorem run_entries (h : ClassNamer.Run (className digest) s calls t) :
    t.rules.entries = s.rules.entries ++ firstRequests s.rules.keys calls := by
  induction h with
  | done s => simp [firstRequests]
  | @step s t u named rest hstep _ ih =>
      have hsettles := className_settles hstep
      rcases hsettles.entries with hsame | ⟨hfresh, hentries⟩
      · have hkeys : t.rules.keys = s.rules.keys := by
          rw [OrderedMap.keys, hsame, OrderedMap.keys]
        have hknown : named.className ∈ s.rules.keys := by
          obtain ⟨registered, hget, -⟩ := hsettles.holds
          rw [← hkeys]
          exact OrderedMap.mem_keys_iff.2 ⟨registered, hget⟩
        rw [ih, hsame, hkeys, firstRequests, if_pos hknown]
      · have hkeys : t.rules.keys = s.rules.keys ++ [named.className] := by
          rw [OrderedMap.keys, hentries, List.map_append]
          rfl
        rw [ih, hentries, hkeys, firstRequests, if_neg hfresh, List.append_assoc]
        rfl

theorem Refuses.of_run {rule : StyleRule} {name : String} (hr : s.Refuses rule name)
    (h : ClassNamer.Run (className digest) s calls t) : t.Refuses rule name := by
  obtain ⟨registered, hget, hdiffers⟩ := hr
  exact ⟨registered, run_keeps h hget, hdiffers⟩

theorem run_again (h : ClassNamer.Run (className digest) s calls t) {named : NamedRule}
    (hn : named ∈ calls) :
    className digest named.rule named.label t = (named.className, t) := by
  obtain ⟨before, after, rfl⟩ := List.append_of_mem hn
  obtain ⟨u, v, -, hstep, hafter⟩ := run_split h
  obtain ⟨n, -, hstops, hname⟩ := (className_settles hstep).stops
  obtain ⟨registered, hget, hequal⟩ := run_holds h hn
  have hlater := (ClassNamer.Run.step hstep hafter)
  have hbase : baseName digest t named.label named.rule =
      baseName digest u named.label named.rule := by
    rw [baseName, run_options hlater, baseName]
  -- the names passed over are still taken by different rules, the answer by an equal one
  have hagain : t.StopsAfter (baseName digest t named.label named.rule) named.rule n := by
    rw [hbase]
    refine ⟨fun i hi => (hstops.refused i hi).of_run hlater, ?_⟩
    rw [← hname]
    rintro ⟨other, hother, hdiffers⟩
    obtain rfl := Option.some.inj (hget.symm.trans hother)
    rw [hequal] at hdiffers
    cases hdiffers
  have hcontains : t.rules.contains named.className = true := by
    simp [OrderedMap.contains, hget]
  rw [className_of_stopsAfter hagain, hbase, ← hname, if_pos hcontains]

end Runs

/-- A new registry, whatever it is asked for and whatever the digest says, holds every class
that it answered once, in the order of the first answers. Every single request appends at
most this one class and leaves all others where and as they are; it is answered within one
candidate more than there are classes; and it can be made again at any later time, with the
same answer and without any change. Two requests share a class only if their rules are
equal. -/
theorem names_stay_settled (digest : String → String) (options : NamingOptions)
    {calls : List NamedRule} {t : ClassRegistry}
    (h : ClassNamer.Run (className digest) { options } calls t) :
    (t.rules.entries = firstRequests [] calls ∧ (t.rules.entries.map Prod.fst).Nodup) ∧
    (∀ before named after, calls = before ++ named :: after → ∃ s u,
      ClassNamer.Run (className digest) { options } before s ∧
      className digest named.rule named.label s = (named.className, u) ∧
      ClassNamer.Run (className digest) u after t ∧ Settles digest s named u) ∧
    (∀ named ∈ calls, t.Holds named.className named.rule ∧
      className digest named.rule named.label t = (named.className, t)) ∧
    ∀ named ∈ calls, ∀ other ∈ calls, named.className = other.className →
      (named.rule == other.rule) = true := by
  have hentries : t.rules.entries = firstRequests [] calls := run_entries h
  refine ⟨⟨hentries, ?_⟩, ?_, ?_, ?_⟩
  · rw [hentries]
    exact (nodup_firstRequests [] calls).1
  · intro before named after hcalls
    rw [hcalls] at h
    obtain ⟨s, u, hbefore, hstep, hafter⟩ := run_split h
    exact ⟨s, u, hbefore, hstep, hafter, className_settles hstep⟩
  · intro named hn
    exact ⟨run_holds h hn, run_again h hn⟩
  · intro named hn other ho hclass
    obtain ⟨registered, hget, hequal⟩ := run_holds h hn
    obtain ⟨registered', hget', hequal'⟩ := run_holds h ho
    rw [← hclass, hget] at hget'
    obtain rfl := Option.some.inj hget'
    exact StyleRule.beq_trans (StyleRule.beq_symm hequal) hequal'

def gapped (width : String) : StyleRule := .ofList [("gap", .text width)]

/-- The numbered name of one label is the plain name of another: the third request passes
over both, and the last shares the class of the other label. -/
def crowded : List NamedRule :=
  [⟨gapped "0", some "box", "recipes__box"⟩, ⟨gapped "1px", some "box_1", "recipes__box_1"⟩,
    ⟨gapped "2px", some "box", "recipes__box_2"⟩, ⟨gapped "1px", some "box", "recipes__box_1"⟩]

def readableNames : NamingOptions where
  mode := .readable

def crowdedRegistry : ClassRegistry where
  options := readableNames
  rules := .ofList [("recipes__box", gapped "0"), ("recipes__box_1", gapped "1px"),
    ("recipes__box_2", gapped "2px")]

theorem run_crowded :
    ClassNamer.Run (className id) { options := readableNames } crowded crowdedRegistry :=
  .step rfl (.step rfl (.step rfl (.step rfl (.done crowdedRegistry))))

theorem names_stay_settled_crowded :
    ClassNamer.Run (className id) { options := readableNames } crowded crowdedRegistry ∧
    (crowdedRegistry.rules.entries = firstRequests [] crowded ∧
      (crowdedRegistry.rules.entries.map Prod.fst).Nodup) ∧
    (∀ before named after, crowded = before ++ named :: after → ∃ s u,
      ClassNamer.Run (className id) { options := readableNames } before s ∧
      className id named.rule named.label s = (named.className, u) ∧
      ClassNamer.Run (className id) u after crowdedRegistry ∧ Settles id s named u) ∧
    (∀ named ∈ crowded, crowdedRegistry.Holds named.className named.rule ∧
      className id named.rule named.label crowdedRegistry =
        (named.className, crowdedRegistry)) ∧
    ∀ named ∈ crowded, ∀ other ∈ crowded, named.className = other.className →
      (named.rule == other.rule) = true :=
  ⟨run_crowded, names_stay_settled id readableNames run_crowded⟩

end ClassRegistry
end StyleVariants

import StyleVariants.OrderedMap.Lemmas
import Mathlib.Data.List.Forall2

/-!
# Related programs

Programs of two monads are compared by a relation between their runs, given for every relation
between what they return. If it is kept by returning and by sequencing, it is kept by the loops
over lists and maps: the bodies need only be related for related elements. Maps are related
entry by entry, with the same keys in the same order.
-/
namespace StyleVariants

section Related
variable {κ α β γ δ : Type} {P : α → β → Prop} {Q : γ → δ → Prop}

def Entries.Related (P : α → β → Prop) (es : List (κ × α)) (fs : List (κ × β)) : Prop :=
  List.Forall₂ (fun e f => e.1 = f.1 ∧ P e.2 f.2) es fs

def OrderedMap.Related (P : α → β → Prop) (m : OrderedMap κ α) (n : OrderedMap κ β) : Prop :=
  Entries.Related P m.entries n.entries

theorem Entries.related_same {P : α → α → Prop} (h : ∀ a, P a a) (es : List (κ × α)) :
    Entries.Related P es es :=
  List.forall₂_same.2 fun e _ => ⟨rfl, h e.2⟩

theorem rel_or {o o' : Option α} {p p' : Option β} (h : Option.Rel P o p)
    (h' : Option.Rel P o' p') : Option.Rel P (o.or o') (p.or p') := by
  cases h with
  | some hab => exact .some hab
  | none => exact h'

theorem rel_bind {o : Option α} {p : Option β} {f : α → Option γ} {g : β → Option δ}
    (h : Option.Rel P o p) (hfg : ∀ a b, P a b → Option.Rel Q (f a) (g b)) :
    Option.Rel Q (o.bind f) (p.bind g) := by
  cases h with
  | some hab => exact hfg _ _ hab
  | none => exact .none

theorem rel_map {o : Option α} {p : Option β} {f : α → γ} {g : β → δ}
    (h : Option.Rel P o p) (hfg : ∀ a b, P a b → Q (f a) (g b)) :
    Option.Rel Q (o.map f) (p.map g) := by
  cases h with
  | some hab => exact .some (hfg _ _ hab)
  | none => exact .none

theorem zipIdx_related {as : List α} {bs : List β} (h : List.Forall₂ P as bs) (k : Nat) :
    List.Forall₂ (fun a b => P a.1 b.1 ∧ a.2 = b.2) (as.zipIdx k) (bs.zipIdx k) := by
  induction h generalizing k with
  | nil => exact .nil
  | cons hab _ ih => exact .cons ⟨hab, rfl⟩ (ih (k + 1))

theorem Entries.Related.zip {es : List (κ × α)} {fs : List (κ × β)}
    (h : Entries.Related P es fs) (marks : List γ) :
    List.Forall₂ (fun e f => (e.1.1 = f.1.1 ∧ P e.1.2 f.1.2) ∧ e.2 = f.2) (es.zip marks)
      (fs.zip marks) := by
  induction h generalizing marks with
  | nil => exact .nil
  | cons hef _ ih =>
      cases marks with
      | nil => exact .nil
      | cons mark rest => exact .cons ⟨hef, rfl⟩ (ih rest)

theorem Entries.Related.keys_eq {es : List (κ × α)} {fs : List (κ × β)}
    (h : Entries.Related P es fs) : es.map Prod.fst = fs.map Prod.fst := by
  have hkeys : List.Forall₂ (· = ·) (es.map Prod.fst) (fs.map Prod.fst) := by
    rw [List.forall₂_map_left_iff, List.forall₂_map_right_iff]
    exact List.Forall₂.imp (fun _ _ hef => hef.1) h
  exact List.forall₂_eq_eq_eq ▸ hkeys

theorem Entries.Related.get? [DecidableEq κ] {es : List (κ × α)} {fs : List (κ × β)}
    (h : Entries.Related P es fs) (key : κ) :
    Option.Rel P (Entries.get? key es) (Entries.get? key fs) := by
  induction h with
  | nil => exact .none
  | @cons e f es fs hef _ ih =>
      obtain ⟨k, a⟩ := e
      obtain ⟨k', b⟩ := f
      obtain ⟨rfl, hab⟩ := hef
      rw [Entries.get?, Entries.get?]
      split
      · exact .some hab
      · exact ih

theorem Entries.Related.insert [DecidableEq κ] {es : List (κ × α)} {fs : List (κ × β)}
    (h : Entries.Related P es fs) (key : κ) {a : α} {b : β} (hab : P a b) :
    Entries.Related P (Entries.insert key a es) (Entries.insert key b fs) := by
  induction h with
  | nil => exact .cons ⟨rfl, hab⟩ .nil
  | @cons e f es fs hef hrest ih =>
      obtain ⟨k, a'⟩ := e
      obtain ⟨k', b'⟩ := f
      obtain ⟨rfl, hab'⟩ := hef
      rw [Entries.insert, Entries.insert]
      split
      · exact .cons ⟨rfl, hab⟩ hrest
      · exact .cons ⟨rfl, hab'⟩ ih

theorem OrderedMap.related_same {P : α → α → Prop} (h : ∀ a, P a a) (m : OrderedMap κ α) :
    m.Related P m :=
  Entries.related_same h m.entries

namespace OrderedMap
variable {m : OrderedMap κ α} {n : OrderedMap κ β}

theorem related_map {f : κ → β → α} (h : ∀ k b, P (f k b) b) (n : OrderedMap κ β) :
    (n.map f).Related P n := by
  unfold Related Entries.Related
  rw [map, List.forall₂_map_left_iff, List.forall₂_same]
  exact fun e _ => ⟨rfl, h e.1 e.2⟩

theorem Related.map {f : α → γ} {g : β → δ} (h : m.Related P n)
    (hfg : ∀ a b, P a b → Q (f a) (g b)) :
    (m.map fun _ a => f a).Related Q (n.map fun _ b => g b) := by
  unfold Related Entries.Related
  rw [OrderedMap.map, OrderedMap.map, List.forall₂_map_left_iff, List.forall₂_map_right_iff]
  exact List.Forall₂.imp (fun _ _ hef => ⟨hef.1, hfg _ _ hef.2⟩) h

theorem Related.eq {m n : OrderedMap κ α} (h : m.Related (· = ·) n) : m = n := by
  have hentries : List.Forall₂ (· = ·) m.entries n.entries :=
    List.Forall₂.imp (fun _ _ hef => Prod.ext hef.1 hef.2) h
  exact ext_entries (List.forall₂_eq_eq_eq ▸ hentries)

theorem Related.keys_eq (h : m.Related P n) : m.keys = n.keys :=
  Entries.Related.keys_eq h

theorem Related.get? [DecidableEq κ] (h : m.Related P n) (key : κ) :
    Option.Rel P (m.get? key) (n.get? key) :=
  Entries.Related.get? h key

theorem Related.insert [DecidableEq κ] (h : m.Related P n) (key : κ) {a : α} {b : β}
    (hab : P a b) : (m.insert key a).Related P (n.insert key b) :=
  Entries.Related.insert h key hab

end OrderedMap
end Related

/-- A relation between the programs of two monads that returning and sequencing keep. -/
structure Simulation (m n : Type → Type) [Monad m] [Monad n] where
  Relates {α β : Type} : (α → β → Prop) → m α → n β → Prop
  pure {α β : Type} {R : α → β → Prop} {a : α} {b : β} : R a b →
    Relates R (Pure.pure a) (Pure.pure b)
  bind {α β γ δ : Type} {R : α → β → Prop} {S : γ → δ → Prop} {x : m α} {y : n β} {f : α → m γ}
    {g : β → n δ} : Relates R x y → (∀ a b, R a b → Relates S (f a) (g b)) →
    Relates S (x >>= f) (y >>= g)

namespace Simulation
variable {m n : Type → Type} [Monad m] [Monad n] (sim : Simulation m n) {α β γ δ κ : Type}
  {R : α → β → Prop} {S : γ → δ → Prop}

theorem foldlM {f : α → κ → m α} {g : β → κ → n β}
    (hbody : ∀ a b k, R a b → sim.Relates R (f a k) (g b k)) (l : List κ) {a : α} {b : β}
    (h : R a b) : sim.Relates R (l.foldlM f a) (l.foldlM g b) := by
  induction l generalizing a b with
  | nil => exact sim.pure h
  | cons k rest ih =>
      rw [List.foldlM_cons, List.foldlM_cons]
      exact sim.bind (hbody a b k h) fun a' b' h' => ih h'

theorem mapM [LawfulMonad m] [LawfulMonad n] {f : α → m γ} {g : β → n δ} {as : List α}
    {bs : List β} (h : List.Forall₂ R as bs) (hbody : ∀ a b, R a b → sim.Relates S (f a) (g b)) :
    sim.Relates (List.Forall₂ S) (as.mapM f) (bs.mapM g) := by
  induction h with
  | nil => exact sim.pure .nil
  | cons hab _ ih =>
      rw [List.mapM_cons, List.mapM_cons]
      exact sim.bind (hbody _ _ hab) fun c d hcd =>
        sim.bind ih fun cs ds hrest => sim.pure (.cons hcd hrest)

theorem mapM_entries {f : κ → α → m γ} {g : κ → β → n δ}
    (hbody : ∀ k a b, R a b → sim.Relates S (f k a) (g k b)) {es : List (κ × α)}
    {fs : List (κ × β)} (h : Entries.Related R es fs) :
    sim.Relates (fun cs ds => Entries.Related S cs.1 ds.1)
      (Entries.mapM f es) (Entries.mapM g fs) := by
  induction h with
  | nil => exact sim.pure .nil
  | @cons e e' es fs hee _ ih =>
      obtain ⟨k, a⟩ := e
      obtain ⟨k', b⟩ := e'
      obtain ⟨rfl, hab⟩ := hee
      exact sim.bind (hbody k a b hab) fun c d hcd =>
        sim.bind ih fun cs ds hrest => sim.pure (.cons ⟨rfl, hcd⟩ hrest)

theorem mapM_map {f : κ → α → m γ} {g : κ → β → n δ} {t : OrderedMap κ α} {u : OrderedMap κ β}
    (h : t.Related R u) (hbody : ∀ k a b, R a b → sim.Relates S (f k a) (g k b)) :
    sim.Relates (OrderedMap.Related S) (t.mapM f) (u.mapM g) :=
  sim.bind (sim.mapM_entries hbody h) fun _ _ hrest => sim.pure hrest

theorem mapM_map_eq {f : κ → α → m γ} {g : κ → β → n γ} {t : OrderedMap κ α}
    {u : OrderedMap κ β} (h : t.Related R u)
    (hbody : ∀ k a b, R a b → sim.Relates (· = ·) (f k a) (g k b)) :
    sim.Relates (· = ·) (t.mapM f) (u.mapM g) :=
  sim.bind (sim.mapM_entries hbody h) fun _ _ hrest => sim.pure (OrderedMap.Related.eq hrest)

end Simulation
end StyleVariants

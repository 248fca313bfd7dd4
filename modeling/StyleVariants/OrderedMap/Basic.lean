/-!
# Insertion-ordered maps

The order is part of a map, so `=` tells two orders apart; `==` does not. `Entries` holds
the operations on bare lists of entries, which nested style rules share.
-/
namespace StyleVariants

namespace Entries
variable {κ α β : Type}

def mapM {m : Type → Type} [Monad m] (f : κ → α → m β) :
    (es : List (κ × α)) → m {bs : List (κ × β) // bs.map Prod.fst = es.map Prod.fst}
  | [] => pure ⟨[], rfl⟩
  | (k, a) :: es => do
      let b ← f k a
      let bs ← mapM f es
      pure ⟨(k, b) :: bs.1, by simp [bs.2]⟩

variable [DecidableEq κ]

def get? (key : κ) : List (κ × α) → Option α
  | [] => none
  | (k, a) :: rest => if k = key then some a else get? key rest

/-- Replaces the value of the first entry with this key, or appends an entry. -/
def insert (key : κ) (value : α) : List (κ × α) → List (κ × α)
  | [] => [(key, value)]
  | (k, a) :: rest =>
      if k = key then (key, value) :: rest else (k, a) :: insert key value rest

/-- Inserts one entry after the other: the last value of a repeated key wins
and its first position stays. -/
def insertAll (entries additions : List (κ × α)) : List (κ × α) :=
  additions.foldl (fun es e => insert e.1 e.2 es) entries

theorem mem_keys_insert {key k : κ} {value : α} {es : List (κ × α)} :
    k ∈ (insert key value es).map Prod.fst ↔ k = key ∨ k ∈ es.map Prod.fst := by
  induction es with
  | nil => simp [insert]
  | cons e es ih =>
      obtain ⟨k', a⟩ := e
      by_cases h : k' = key
      · subst h
        simp [insert]
      · simp only [insert, if_neg h, List.map_cons, List.mem_cons, ih]
        exact or_left_comm

theorem nodup_keys_insert {key : κ} {value : α} {es : List (κ × α)}
    (h : (es.map Prod.fst).Nodup) : ((insert key value es).map Prod.fst).Nodup := by
  induction es with
  | nil => simp [insert]
  | cons e es ih =>
      obtain ⟨k', a⟩ := e
      simp only [List.map_cons, List.nodup_cons] at h
      by_cases hk : k' = key
      · subst hk
        simpa [insert] using h
      · simp only [insert, if_neg hk, List.map_cons, List.nodup_cons, mem_keys_insert, not_or]
        exact ⟨⟨hk, h.1⟩, ih h.2⟩

theorem nodup_keys_insertAll {es additions : List (κ × α)}
    (h : (es.map Prod.fst).Nodup) : ((insertAll es additions).map Prod.fst).Nodup := by
  induction additions generalizing es with
  | nil => exact h
  | cons e additions ih => exact ih (nodup_keys_insert h)

theorem mem_of_get? {key : κ} {value : α} {es : List (κ × α)} (h : get? key es = some value) :
    (key, value) ∈ es := by
  induction es with
  | nil => simp [get?] at h
  | cons e es ih =>
      obtain ⟨k, a⟩ := e
      by_cases hk : k = key
      · simp_all [get?]
      · simp only [get?, if_neg hk] at h
        exact List.mem_cons_of_mem _ (ih h)

theorem mem_of_mem_insert {key : κ} {value : α} {e : κ × α} {es : List (κ × α)}
    (h : e ∈ insert key value es) : e = (key, value) ∨ e ∈ es := by
  induction es with
  | nil => simpa [insert] using h
  | cons e' es ih =>
      obtain ⟨k, a⟩ := e'
      by_cases hk : k = key
      · simp only [insert, if_pos hk, List.mem_cons] at h ⊢
        exact h.imp_right .inr
      · simp only [insert, if_neg hk, List.mem_cons] at h ⊢
        rcases h with rfl | h
        · exact .inr (.inl rfl)
        · exact (ih h).imp_right .inr

end Entries

structure OrderedMap (κ α : Type) where
  entries : List (κ × α)
  nodup_keys : (entries.map Prod.fst).Nodup

namespace OrderedMap
variable {κ α β : Type}

def empty : OrderedMap κ α := ⟨[], List.nodup_nil⟩

instance : EmptyCollection (OrderedMap κ α) := ⟨empty⟩
instance : Inhabited (OrderedMap κ α) := ⟨empty⟩

def singleton (key : κ) (value : α) : OrderedMap κ α := ⟨[(key, value)], by simp⟩

def keys (m : OrderedMap κ α) : List κ := m.entries.map Prod.fst

def size (m : OrderedMap κ α) : Nat := m.entries.length

def isEmpty (m : OrderedMap κ α) : Bool := m.entries.isEmpty

def map (f : κ → α → β) (m : OrderedMap κ α) : OrderedMap κ β :=
  ⟨m.entries.map fun e => (e.1, f e.1 e.2), by simpa [Function.comp_def] using m.nodup_keys⟩

/-- Rewrites every value by an effect, run in the order of the entries. -/
def mapM {m : Type → Type} [Monad m] (f : κ → α → m β) (t : OrderedMap κ α) :
    m (OrderedMap κ β) := do
  let bs ← Entries.mapM f t.entries
  pure ⟨bs.1, by rw [bs.2]; exact t.nodup_keys⟩

variable [DecidableEq κ]

def get? (m : OrderedMap κ α) (key : κ) : Option α := Entries.get? key m.entries

def contains (m : OrderedMap κ α) (key : κ) : Bool := (m.get? key).isSome

def insert (m : OrderedMap κ α) (key : κ) (value : α) : OrderedMap κ α :=
  ⟨Entries.insert key value m.entries, Entries.nodup_keys_insert m.nodup_keys⟩

def ofList (entries : List (κ × α)) : OrderedMap κ α :=
  ⟨Entries.insertAll [] entries, Entries.nodup_keys_insertAll List.nodup_nil⟩

/-- Equal as functions from keys to values, whatever the order. -/
instance [BEq α] : BEq (OrderedMap κ α) where
  beq m n := m.size == n.size && m.entries.all fun e =>
    match n.get? e.1 with
    | some b => e.2 == b
    | none => false

end OrderedMap
end StyleVariants

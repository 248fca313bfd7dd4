import StyleVariants.OrderedMap.Basic

/-!
# What the operations of ordered maps do

Each operation is described by what it does to the keys and to the value of every key.
Inserting the entries of a map one after the other gives the map back.
-/
namespace StyleVariants

namespace Entries
variable {κ α β : Type} [DecidableEq κ]

@[simp] theorem get?_nil (key : κ) : get? key ([] : List (κ × α)) = none := rfl

@[simp] theorem get?_insert_self (key : κ) (value : α) (es : List (κ × α)) :
    get? key (insert key value es) = some value := by
  induction es with
  | nil => simp [insert, get?]
  | cons e es ih => by_cases h : e.1 = key <;> simp [insert, get?, h, ih]

theorem get?_insert_of_ne {key k : κ} (h : k ≠ key) (value : α) (es : List (κ × α)) :
    get? k (insert key value es) = get? k es := by
  induction es with
  | nil => simp [insert, get?, h.symm]
  | cons e es ih =>
      by_cases he : e.1 = key
      · simp [insert, get?, he, h.symm]
      · simp [insert, get?, he, ih]

theorem get?_eq_none_iff {key : κ} {es : List (κ × α)} :
    get? key es = none ↔ key ∉ es.map Prod.fst := by
  induction es with
  | nil => simp
  | cons e es ih => by_cases h : e.1 = key <;> simp_all [get?, eq_comm]

theorem get?_eq_some_iff {key : κ} {value : α} {es : List (κ × α)}
    (h : (es.map Prod.fst).Nodup) : get? key es = some value ↔ (key, value) ∈ es := by
  refine ⟨mem_of_get?, fun hm => ?_⟩
  induction es with
  | nil => simp at hm
  | cons e es ih =>
      simp only [List.map_cons, List.nodup_cons] at h
      rcases List.mem_cons.1 hm with rfl | hm
      · simp [get?]
      · have hk : e.1 ≠ key := fun hk => h.1 (hk ▸ List.mem_map_of_mem hm)
        simp [get?, hk, ih h.2 hm]

theorem get?_eq_some_iff_first {key : κ} {value : α} {es : List (κ × α)} :
    get? key es = some value ↔ ∃ front rest,
      es = front ++ (key, value) :: rest ∧ key ∉ front.map Prod.fst := by
  induction es with
  | nil => simp
  | cons e es ih =>
      obtain ⟨k, a⟩ := e
      by_cases hk : k = key
      · subst hk
        simp only [get?, if_true, Option.some.injEq]
        constructor
        · rintro rfl
          exact ⟨[], es, rfl, by simp⟩
        · rintro ⟨front, rest, hsplit, hfront⟩
          cases front with
          | nil => simpa using (List.cons.inj hsplit).1
          | cons f front => simp [← (List.cons.inj hsplit).1] at hfront
      · simp only [get?, if_neg hk, ih]
        constructor
        · rintro ⟨front, rest, rfl, hfront⟩
          exact ⟨(k, a) :: front, rest, rfl, by simp [Ne.symm hk, hfront]⟩
        · rintro ⟨front, rest, hsplit, hfront⟩
          cases front with
          | nil => exact (hk (Prod.mk.inj (List.cons.inj hsplit).1).1).elim
          | cons f front =>
              simp only [List.map_cons, List.mem_cons, not_or] at hfront
              exact ⟨front, rest, (List.cons.inj hsplit).2, hfront.2⟩

theorem get?_append (key : κ) (es fs : List (κ × α)) :
    get? key (es ++ fs) = (get? key es).or (get? key fs) := by
  induction es with
  | nil => simp
  | cons e es ih => by_cases h : e.1 = key <;> simp [get?, h, ih]

theorem get?_map_values (f : κ → α → β) (key : κ) (es : List (κ × α)) :
    get? key (es.map fun e => (e.1, f e.1 e.2)) = (get? key es).map (f key) := by
  induction es with
  | nil => rfl
  | cons e es ih =>
      by_cases h : e.1 = key
      · subst h
        simp [get?]
      · simp [get?, h, ih]

theorem insert_of_not_mem {key : κ} {es : List (κ × α)} (h : key ∉ es.map Prod.fst)
    (value : α) : insert key value es = es ++ [(key, value)] := by
  induction es with
  | nil => rfl
  | cons e es ih =>
      simp only [List.map_cons, List.mem_cons, not_or] at h
      simp [insert, Ne.symm h.1, ih h.2]

theorem keys_insert_of_mem {key : κ} {es : List (κ × α)} (h : key ∈ es.map Prod.fst)
    (value : α) : (insert key value es).map Prod.fst = es.map Prod.fst := by
  induction es with
  | nil => simp at h
  | cons e es ih =>
      by_cases he : e.1 = key
      · simp [insert, he]
      · simp only [List.map_cons, List.mem_cons, Ne.symm he, false_or] at h
        simp [insert, he, ih h]

/-- A test that no entry of the key passes does not see what is written to it. -/
theorem filter_insert {key : κ} {p : κ × α → Bool} (h : ∀ a, p (key, a) = false) (value : α)
    (es : List (κ × α)) : (insert key value es).filter p = es.filter p := by
  induction es with
  | nil => simp [insert, h]
  | cons e es ih =>
      obtain ⟨k, a⟩ := e
      by_cases hk : k = key
      · subst hk
        simp [insert, h]
      · simp [insert, hk, ih, List.filter_cons]

theorem keys_insertAll (es additions : List (κ × α)) :
    (insertAll es additions).map Prod.fst = es.map Prod.fst ++
      ((additions.map Prod.fst).filter fun key => key ∉ es.map Prod.fst).eraseDups := by
  induction additions generalizing es with
  | nil => simp [insertAll]
  | cons e additions ih =>
      have hstep : insertAll es (e :: additions) = insertAll (insert e.1 e.2 es) additions := rfl
      rw [hstep, ih, List.map_cons]
      by_cases hkey : e.1 ∈ es.map Prod.fst
      · rw [keys_insert_of_mem hkey, List.filter_cons_of_neg (by simpa using hkey)]
      · have hfilter : ∀ keys : List κ,
            keys.filter (fun key => key ∉ (es ++ [(e.1, e.2)]).map Prod.fst) =
              keys.filter fun key => !key == e.1 && decide (key ∉ es.map Prod.fst) := by
          intro keys
          refine List.filter_congr fun key _ => ?_
          rw [Bool.eq_iff_iff]
          simp [not_or, and_comm]
        rw [insert_of_not_mem hkey, hfilter, List.filter_cons_of_pos (by simpa using hkey),
          List.eraseDups_cons, List.filter_filter, List.map_append, List.append_assoc]
        rfl

theorem insertAll_of_nodup {es additions : List (κ × α)}
    (h : ((es ++ additions).map Prod.fst).Nodup) : insertAll es additions = es ++ additions := by
  induction additions generalizing es with
  | nil => simp [insertAll]
  | cons e additions ih =>
      have he : e.1 ∉ es.map Prod.fst := by
        rw [List.map_append, List.nodup_append] at h
        exact fun hm => h.2.2 _ hm _ (by simp) rfl
      have hs : es ++ [e] ++ additions = es ++ e :: additions := by simp
      rw [insertAll, List.foldl_cons, insert_of_not_mem he, ← hs]
      exact ih (hs ▸ h)

theorem get?_insertAll (key : κ) (es additions : List (κ × α)) :
    get? key (insertAll es additions) = (get? key additions.reverse).or (get? key es) := by
  induction additions generalizing es with
  | nil => rfl
  | cons e additions ih =>
      have hstep : insertAll es (e :: additions) = insertAll (insert e.1 e.2 es) additions := rfl
      rw [hstep, ih, List.reverse_cons, get?_append, Option.or_assoc]
      by_cases h : e.1 = key
      · subst h
        simp [get?]
      · simp [get?, h, get?_insert_of_ne (Ne.symm h)]

end Entries

namespace OrderedMap
variable {κ α β : Type}

theorem ext_entries {m n : OrderedMap κ α} (h : m.entries = n.entries) : m = n := by
  cases m
  cases n
  simp_all

theorem ne_of_not_mem_keys {m : OrderedMap κ α} {key : κ} (h : key ∉ m.keys) {e : κ × α}
    (he : e ∈ m.entries) : e.1 ≠ key := by
  intro heq
  exact h (heq ▸ List.mem_map_of_mem he)

@[simp] theorem keys_map (f : κ → α → β) (m : OrderedMap κ α) : (m.map f).keys = m.keys := by
  simp [keys, map, Function.comp_def]

@[simp] theorem map_id (m : OrderedMap κ α) : (m.map fun _ a => a) = m :=
  ext_entries (by simp [map])

@[simp] theorem map_map {γ : Type} (g : κ → β → γ) (f : κ → α → β) (m : OrderedMap κ α) :
    (m.map f).map g = m.map fun k a => g k (f k a) :=
  ext_entries (by simp [map])

variable [DecidableEq κ]

@[simp] theorem get?_empty (key : κ) : (∅ : OrderedMap κ α).get? key = none := rfl

@[simp] theorem get?_singleton (key k : κ) (value : α) :
    (singleton key value).get? k = if key = k then some value else none := by
  simp [singleton, get?, Entries.get?]

@[simp] theorem get?_insert_self (m : OrderedMap κ α) (key : κ) (value : α) :
    (m.insert key value).get? key = some value := Entries.get?_insert_self key value m.entries

theorem get?_insert_of_ne {key k : κ} (h : k ≠ key) (m : OrderedMap κ α) (value : α) :
    (m.insert key value).get? k = m.get? k := Entries.get?_insert_of_ne h value m.entries

theorem keys_insert_of_mem {m : OrderedMap κ α} {key : κ} (h : key ∈ m.keys) (value : α) :
    (m.insert key value).keys = m.keys := Entries.keys_insert_of_mem h value

theorem keys_insert_of_not_mem {m : OrderedMap κ α} {key : κ} (h : key ∉ m.keys) (value : α) :
    (m.insert key value).keys = m.keys ++ [key] := by
  have hentries := Entries.insert_of_not_mem h value
  simp only [keys, insert, hentries, List.map_append, List.map_cons, List.map_nil]

@[simp] theorem get?_map (f : κ → α → β) (m : OrderedMap κ α) (key : κ) :
    (m.map f).get? key = (m.get? key).map (f key) := Entries.get?_map_values f key m.entries

theorem get?_eq_some_iff {m : OrderedMap κ α} {key : κ} {value : α} :
    m.get? key = some value ↔ (key, value) ∈ m.entries := Entries.get?_eq_some_iff m.nodup_keys

theorem mem_keys_iff {m : OrderedMap κ α} {key : κ} :
    key ∈ m.keys ↔ ∃ a, m.get? key = some a := by
  simp only [get?_eq_some_iff, keys, List.mem_map]
  constructor
  · rintro ⟨e, he, rfl⟩
    exact ⟨e.2, he⟩
  · rintro ⟨a, ha⟩
    exact ⟨(key, a), ha, rfl⟩

theorem isEmpty_of_get? {m : OrderedMap κ α} {key : κ} {value : α} (h : m.get? key = some value) :
    m.isEmpty = false := by
  rw [isEmpty, List.isEmpty_eq_false_iff]
  exact List.ne_nil_of_mem (get?_eq_some_iff.1 h)

theorem contains_iff {m : OrderedMap κ α} {key : κ} : m.contains key ↔ key ∈ m.keys := by
  rw [contains, Option.isSome_iff_exists, mem_keys_iff]

theorem entries_foldl_insert (additions : List (κ × α)) (m : OrderedMap κ α) :
    (additions.foldl (fun m e => m.insert e.1 e.2) m).entries =
      Entries.insertAll m.entries additions := by
  induction additions generalizing m with
  | nil => rfl
  | cons e additions ih => exact ih (m.insert e.1 e.2)

theorem keys_ofList (entries : List (κ × α)) :
    (ofList entries).keys = (entries.map Prod.fst).eraseDups := by
  rw [keys, ofList, Entries.keys_insertAll, List.map_nil, List.nil_append,
    List.filter_eq_self.2 (by simp)]

theorem get?_ofList_iff_last {entries : List (κ × α)} {key : κ} {value : α} :
    (ofList entries).get? key = some value ↔ ∃ before after,
      entries = before ++ (key, value) :: after ∧ key ∉ after.map Prod.fst := by
  rw [get?, ofList, Entries.get?_insertAll, Entries.get?_nil, Option.or_none,
    Entries.get?_eq_some_iff_first]
  constructor
  · rintro ⟨front, rest, hsplit, hfront⟩
    refine ⟨rest.reverse, front.reverse, ?_, by simpa using hfront⟩
    simpa using congrArg List.reverse hsplit
  · rintro ⟨before, after, rfl, hafter⟩
    exact ⟨after.reverse, before.reverse, by simp, by simpa using hafter⟩

/-- If all values given for a key agree, that value is kept. -/
theorem get?_ofList_eq_some_iff {entries : List (κ × α)} {key : κ} {value : α}
    (h : ∀ a a', (key, a) ∈ entries → (key, a') ∈ entries → a = a') :
    (ofList entries).get? key = some value ↔ (key, value) ∈ entries := by
  have hlast : (ofList entries).get? key = Entries.get? key entries.reverse := by
    rw [get?, ofList, Entries.get?_insertAll, Entries.get?_nil, Option.or_none]
  rw [hlast]
  refine ⟨fun hv => List.mem_reverse.1 (Entries.mem_of_get? hv), fun hm => ?_⟩
  cases hv : Entries.get? key entries.reverse with
  | none =>
      have hkey := Entries.get?_eq_none_iff.1 hv
      exact (hkey (List.mem_map.2 ⟨(key, value), List.mem_reverse.2 hm, rfl⟩)).elim
  | some a => exact congrArg some (h a value (List.mem_reverse.1 (Entries.mem_of_get? hv)) hm)

/-- Inserting what a function makes of each entry maps the function over them. -/
theorem foldl_insert_eq_map (f : κ → α → β) (m : OrderedMap κ α) :
    m.entries.foldl (fun t e => t.insert e.1 (f e.1 e.2)) ∅ = m.map f := by
  have hfold : m.entries.foldl (fun t e => t.insert e.1 (f e.1 e.2)) (∅ : OrderedMap κ β) =
      (m.map f).entries.foldl (fun t e => t.insert e.1 e.2) ∅ := by
    rw [map, List.foldl_map]
  rw [hfold]
  apply ext_entries
  rw [entries_foldl_insert]
  exact Entries.insertAll_of_nodup (m.map f).nodup_keys

@[simp] theorem ofList_entries (m : OrderedMap κ α) : ofList m.entries = m :=
  ext_entries (Entries.insertAll_of_nodup m.nodup_keys)

end OrderedMap
end StyleVariants

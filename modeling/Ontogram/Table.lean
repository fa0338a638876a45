set_option autoImplicit false

namespace Ontogram

/-- A table of entries with text keys, in the order of first writing. -/
structure Table (α : Type) where
  entries : List (String × α) := []

namespace Table

variable {α : Type}

def valueIn (key : String) : List (String × α) → Option α
  | [] => none
  | (k, v) :: rest => if key = k then some v else valueIn key rest

/-- The value that a key has. -/
def get? (t : Table α) (key : String) : Option α :=
  valueIn key t.entries

def keys (t : Table α) : List String :=
  t.entries.map Prod.fst

/-- Entries with the value of `key` replaced, or a new entry at the end. -/
def put (key : String) (value : α) : List (String × α) → List (String × α)
  | [] => [(key, value)]
  | (k, v) :: rest => if key = k then (k, value) :: rest else (k, v) :: put key value rest

/-- Writes one entry. -/
def insert (t : Table α) (key : String) (value : α) : Table α :=
  ⟨put key value t.entries⟩

/-- Writes entries one after the other. -/
def insertAll (t : Table α) (pairs : List (String × α)) : Table α :=
  pairs.foldl (fun t p => t.insert p.1 p.2) t

/-- The table that writing the pairs one after the other gives. -/
def ofList (pairs : List (String × α)) : Table α :=
  insertAll ⟨[]⟩ pairs

/-- Writes an entry for a key that has none. -/
def insertNew (t : Table α) (key : String) (value : α) : Table α :=
  if (t.get? key).isSome then t else t.insert key value

theorem get?_of_mem {t : Table α} (once : t.keys.Nodup) {key : String} {value : α}
    (h : (key, value) ∈ t.entries) : t.get? key = some value := by
  obtain ⟨entries⟩ := t
  simp only [get?, keys] at once h ⊢
  induction entries with
  | nil => cases h
  | cons entry entries ih =>
    obtain ⟨apart, once⟩ := List.nodup_cons.1 once
    rcases List.mem_cons.1 h with rfl | h
    · exact if_pos rfl
    · have other : key ≠ entry.1 := fun same => apart (same ▸ List.mem_map_of_mem h)
      exact (if_neg other).trans (ih once h)

theorem valueIn_put (key k : String) (value : α) (es : List (String × α)) :
    valueIn k (put key value es) = if k = key then some value else valueIn k es := by
  induction es with
  | nil => rfl
  | cons e es ih =>
    obtain ⟨k', v⟩ := e
    by_cases he : key = k'
    · subst he
      by_cases h : k = key <;> simp [put, valueIn, h]
    · by_cases h : k = k'
      · subst h
        simp [put, valueIn, he, Ne.symm he]
      · simp [put, valueIn, he, h, ih]

@[simp] theorem get?_insert (t : Table α) (key k : String) (value : α) :
    (t.insert key value).get? k = if k = key then some value else t.get? k :=
  valueIn_put key k value t.entries

theorem get?_insertAll_of_notMem {pairs : List (String × α)} {key : String}
    (h : key ∉ pairs.map Prod.fst) (t : Table α) : (t.insertAll pairs).get? key = t.get? key := by
  induction pairs generalizing t with
  | nil => rfl
  | cons p pairs ih =>
    rw [List.map_cons, List.mem_cons, not_or] at h
    exact (ih h.2 (t.insert p.1 p.2)).trans (by rw [get?_insert, if_neg h.1])

theorem get?_insertAll_of_mem {pairs : List (String × α)} (once : (pairs.map Prod.fst).Nodup)
    {key : String} {value : α} (h : (key, value) ∈ pairs) (t : Table α) :
    (t.insertAll pairs).get? key = some value := by
  induction pairs generalizing t with
  | nil => cases h
  | cons p pairs ih =>
    obtain ⟨apart, once⟩ := List.nodup_cons.1 once
    rcases List.mem_cons.1 h with rfl | h
    · exact (get?_insertAll_of_notMem apart _).trans (by rw [get?_insert, if_pos rfl])
    · exact ih once h (t.insert p.1 p.2)

theorem mem_of_valueIn {entries : List (String × α)} {key : String} {value : α}
    (h : valueIn key entries = some value) : (key, value) ∈ entries := by
  induction entries with
  | nil => cases h
  | cons entry entries ih =>
    rw [valueIn] at h
    split at h
    · rename_i same
      obtain rfl := Option.some.inj h
      exact same ▸ List.mem_cons_self
    · exact List.mem_cons_of_mem entry (ih h)

theorem mem_put {key : String} {value : α} {entries : List (String × α)} {entry : String × α}
    (h : entry ∈ put key value entries) : entry = (key, value) ∨ entry ∈ entries := by
  induction entries with
  | nil => exact Or.inl (List.mem_singleton.1 h)
  | cons first entries ih =>
    rw [put] at h
    split at h
    · rename_i same
      rcases List.mem_cons.1 h with rfl | h
      · exact Or.inl (by rw [same])
      · exact Or.inr (List.mem_cons_of_mem first h)
    · rcases List.mem_cons.1 h with rfl | h
      · exact Or.inr List.mem_cons_self
      · exact (ih h).imp_right (List.mem_cons_of_mem first)

/-- Entries come from the table that is written to, or from what is written. -/
theorem mem_entries_insertAll {t : Table α} {pairs : List (String × α)} {entry : String × α}
    (h : entry ∈ (t.insertAll pairs).entries) : entry ∈ t.entries ∨ entry ∈ pairs := by
  induction pairs generalizing t with
  | nil => exact Or.inl h
  | cons p pairs ih =>
    rcases ih (t := t.insert p.1 p.2) h with h | h
    · rcases mem_put h with rfl | h
      · exact Or.inr List.mem_cons_self
      · exact Or.inl h
    · exact Or.inr (List.mem_cons_of_mem p h)

theorem mem_of_get?_ofList {pairs : List (String × α)} {key : String} {value : α}
    (h : (ofList pairs).get? key = some value) : (key, value) ∈ pairs :=
  (mem_entries_insertAll (mem_of_valueIn h)).resolve_left List.not_mem_nil

/-- Where every key is written once, the table holds the pairs and nothing else. -/
theorem get?_ofList_eq_some_iff {pairs : List (String × α)} (once : (pairs.map Prod.fst).Nodup)
    {key : String} {value : α} : (ofList pairs).get? key = some value ↔ (key, value) ∈ pairs := by
  constructor
  · intro found
    by_cases there : key ∈ pairs.map Prod.fst
    · obtain ⟨⟨k, v⟩, h, rfl⟩ := List.mem_map.1 there
      have := get?_insertAll_of_mem once h ⟨[]⟩
      obtain rfl := Option.some.inj (this.symm.trans found)
      exact h
    · have := get?_insertAll_of_notMem there ⟨[]⟩
      exact absurd (this.symm.trans found) (by simp [get?, valueIn])
  · exact fun h => get?_insertAll_of_mem once h ⟨[]⟩

theorem keys_insert (t : Table α) (key : String) (value : α) :
    (t.insert key value).keys = if key ∈ t.keys then t.keys else t.keys ++ [key] := by
  obtain ⟨es⟩ := t
  simp only [keys, insert]
  induction es with
  | nil => simp [put]
  | cons e es ih =>
    obtain ⟨k, v⟩ := e
    by_cases h : key = k
    · simp [put, h]
    · by_cases hm : key ∈ es.map Prod.fst <;> simp [put, h, ih, hm]

end Table

end Ontogram

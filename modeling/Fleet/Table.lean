/-!
# Tables in order of arrival

A table maps each of its keys to one value and lists its keys in the order in which they arrived.
Replacing a value leaves its key where it is. Main statements: `get?_insert` and `get?_erase` say
what each change does to every look-up, and `mem_entries_iff` that look-ups show all there is.
-/

namespace Fleet

/-- **A finite map with its keys in order of arrival.** -/
structure Table (κ α : Type) where
  entries : List (κ × α)
  distinct : (entries.map Prod.fst).Nodup

namespace Table

variable {κ α : Type}

/-- The table without entries. -/
def empty : Table κ α := ⟨[], List.nodup_nil⟩

instance : Inhabited (Table κ α) := ⟨empty⟩

instance : EmptyCollection (Table κ α) := ⟨empty⟩

/-- The keys in order of arrival. -/
def keys (t : Table κ α) : List κ := t.entries.map Prod.fst

/-- The number of entries. -/
def size (t : Table κ α) : Nat := t.entries.length

variable [DecidableEq κ]

instance [DecidableEq α] : DecidableEq (Table κ α) := fun s t =>
  if h : s.entries = t.entries then
    isTrue (by cases s; cases t; cases h; rfl)
  else isFalse (fun e => h (congrArg entries e))

/-- The value a list of entries gives for a key. -/
def find? (k : κ) : List (κ × α) → Option α
  | [] => none
  | (j, a) :: rest => if j = k then some a else find? k rest

/-- The value at a key. -/
def get? (t : Table κ α) (k : κ) : Option α := find? k t.entries

/-- Whether the table has a key. -/
def contains (t : Table κ α) (k : κ) : Bool := (t.get? k).isSome

/-- Entries with the value at `k` replaced, or with a new entry at the end. -/
def put (k : κ) (a : α) : List (κ × α) → List (κ × α)
  | [] => [(k, a)]
  | (j, b) :: rest => if j = k then (j, a) :: rest else (j, b) :: put k a rest

/-- The keys after a change: the same ones, or one more at the end. -/
theorem map_fst_put (k : κ) (a : α) (es : List (κ × α)) :
    (put k a es).map Prod.fst =
      if k ∈ es.map Prod.fst then es.map Prod.fst else es.map Prod.fst ++ [k] := by
  induction es with
  | nil => simp [put]
  | cons e rest ih =>
    obtain ⟨j, b⟩ := e
    by_cases h : j = k
    · simp [put, h]
    · simp only [put, h, if_false, List.map_cons, ih, List.mem_cons, Ne.symm h, false_or]
      split <;> simp

theorem nodup_put (k : κ) (a : α) {es : List (κ × α)} (h : (es.map Prod.fst).Nodup) :
    ((put k a es).map Prod.fst).Nodup := by
  rw [map_fst_put]
  split
  · exact h
  · rename_i hk
    exact List.nodup_append.mpr ⟨h, by simp, fun x hx y hy e => hk (by simp_all)⟩

/-- Sets the value at a key. -/
def insert (t : Table κ α) (k : κ) (a : α) : Table κ α :=
  ⟨put k a t.entries, nodup_put k a t.distinct⟩

/-- Removes a key. -/
def erase (t : Table κ α) (k : κ) : Table κ α where
  entries := t.entries.filter fun e => e.1 ≠ k
  distinct := by
    have h : ((t.entries.filter fun e => e.1 ≠ k).map Prod.fst).Sublist (t.entries.map Prod.fst) :=
      List.filter_sublist.map _
    exact h.nodup t.distinct

theorem find?_put (k j : κ) (a : α) (es : List (κ × α)) :
    find? j (put k a es) = if k = j then some a else find? j es := by
  induction es with
  | nil => simp [put, find?]
  | cons e rest ih =>
    obtain ⟨i, b⟩ := e
    by_cases h : i = k
    · subst h
      by_cases hj : i = j <;> simp [put, find?, hj]
    · by_cases hj : i = j
      · subst hj
        simp [put, find?, h, Ne.symm h]
      · simp [put, find?, h, hj, ih]

/-- **Setting a value changes the look-up of its key and of no other.** -/
@[simp]
theorem get?_insert (t : Table κ α) (k j : κ) (a : α) :
    (t.insert k a).get? j = if k = j then some a else t.get? j :=
  find?_put k j a t.entries

/-- **Removing a key changes the look-up of that key and of no other.** -/
@[simp]
theorem get?_erase (t : Table κ α) (k j : κ) :
    (t.erase k).get? j = if k = j then none else t.get? j := by
  show find? j (t.entries.filter fun e => e.1 ≠ k) = if k = j then none else find? j t.entries
  induction t.entries with
  | nil => simp [find?]
  | cons e rest ih =>
    obtain ⟨i, b⟩ := e
    by_cases h : i = k
    · subst h
      by_cases hj : i = j
      · subst hj
        simpa [find?] using ih
      · simpa [find?, hj] using ih
    · by_cases hj : i = j
      · subst hj
        simp [find?, h, Ne.symm h]
      · simpa [find?, h, hj] using ih

@[simp]
theorem get?_empty (k : κ) : (empty : Table κ α).get? k = none := rfl

/-- A list of entries without repeated keys gives for a key what it lists with it. -/
theorem find?_eq_some_iff {k : κ} {a : α} {es : List (κ × α)} (h : (es.map Prod.fst).Nodup) :
    find? k es = some a ↔ (k, a) ∈ es := by
  induction es with
  | nil => simp [find?]
  | cons e rest ih =>
    obtain ⟨j, b⟩ := e
    rw [List.map_cons, List.nodup_cons] at h
    by_cases hj : j = k
    · subst hj
      have hrest : (j, a) ∉ rest := fun hmem => h.1 (List.mem_map.mpr ⟨_, hmem, rfl⟩)
      simp [find?, hrest, eq_comm]
    · simp [find?, hj, Ne.symm hj, ih h.2]

/-- **The entries are what the look-up gives.** -/
theorem mem_entries_iff {t : Table κ α} {k : κ} {a : α} :
    (k, a) ∈ t.entries ↔ t.get? k = some a :=
  (find?_eq_some_iff t.distinct).symm

/-- The keys are those that have a value. -/
theorem mem_keys_iff {t : Table κ α} {k : κ} : k ∈ t.keys ↔ ∃ a, t.get? k = some a := by
  simp only [keys, List.mem_map, ← mem_entries_iff]
  constructor
  · rintro ⟨⟨j, a⟩, hmem, rfl⟩
    exact ⟨a, hmem⟩
  · rintro ⟨a, hmem⟩
    exact ⟨(k, a), hmem, rfl⟩

/-- The keys after setting a value: unchanged, or with the new key last. -/
theorem keys_insert (t : Table κ α) (k : κ) (a : α) :
    (t.insert k a).keys = if k ∈ t.keys then t.keys else t.keys ++ [k] :=
  map_fst_put k a t.entries

/-- Removing a key keeps the others in order. -/
theorem keys_erase (t : Table κ α) (k : κ) : (t.erase k).keys = t.keys.filter (· ≠ k) := by
  simp [keys, erase, List.filter_map, Function.comp_def]

end Table

end Fleet

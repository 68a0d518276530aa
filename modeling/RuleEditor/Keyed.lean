/-!
# Keyed lists

Tables whose entries stay in the order in which their keys first came. Storing under a key that
is already there replaces the value and keeps the place; a new key goes to the end.

**Raw entries.** `Entries.get?` reads and `Entries.store` writes a plain list of pairs. A recursive
type (a tree whose slots hold trees) stores its entries this way.

**`Keyed`.** A list of pairs together with the fact that no key occurs twice. Every other table
of the library is of this type.
-/

namespace RuleEditor

/-! ## Storing into a list of pairs -/

namespace Entries

/-- The first value under `key`. -/
def get? {κ α : Type} [DecidableEq κ] (key : κ) : List (κ × α) → Option α
  | [] => none
  | (k, v) :: rest => if k = key then some v else get? key rest

/-- Stores `value` under `key`, in place if the key occurs and at the end if it does not. -/
def store {κ α : Type} [DecidableEq κ] (key : κ) (value : α) : List (κ × α) → List (κ × α)
  | [] => [(key, value)]
  | (k, v) :: rest => if k = key then (k, value) :: rest else (k, v) :: store key value rest

theorem map_fst_store {κ α : Type} [DecidableEq κ] (key : κ) (value : α)
    (entries : List (κ × α)) :
    (store key value entries).map Prod.fst =
      if key ∈ entries.map Prod.fst then entries.map Prod.fst
      else entries.map Prod.fst ++ [key] := by
  induction entries with
  | nil => simp [store]
  | cons entry rest ih =>
    obtain ⟨k, v⟩ := entry
    by_cases h : k = key
    · simp [store, h]
    · have h' : ¬key = k := fun e => h e.symm
      simp only [store, h, if_false, List.map_cons, ih, List.mem_cons, h', false_or]
      split <;> simp

theorem nodup_store {κ α : Type} [DecidableEq κ] (key : κ) (value : α)
    {entries : List (κ × α)} (h : (entries.map Prod.fst).Nodup) :
    ((store key value entries).map Prod.fst).Nodup := by
  rw [map_fst_store]
  split
  · exact h
  · next absent =>
    rw [List.nodup_append]
    refine ⟨h, by simp, ?_⟩
    intro a ha b hb
    simp only [List.mem_singleton] at hb
    rintro rfl
    exact absent (hb ▸ ha)

theorem get?_store {κ α : Type} [DecidableEq κ] (key other : κ) (value : α)
    (entries : List (κ × α)) :
    get? other (store key value entries) =
      if key = other then some value else get? other entries := by
  induction entries with
  | nil => by_cases h : key = other <;> simp [store, get?, h]
  | cons entry rest ih =>
    by_cases hk : entry.1 = key <;> by_cases ho : entry.1 = other <;>
      by_cases h : key = other <;> simp_all [store, get?]

theorem get?_eq_some_iff {κ α : Type} [DecidableEq κ] {entries : List (κ × α)}
    (distinct : (entries.map Prod.fst).Nodup) {key : κ} {value : α} :
    get? key entries = some value ↔ (key, value) ∈ entries := by
  induction entries with
  | nil => simp [get?]
  | cons entry rest ih =>
    obtain ⟨k, v⟩ := entry
    rw [List.map_cons, List.nodup_cons] at distinct
    by_cases h : k = key
    · subst h
      have absent : (k, value) ∉ rest := fun mem => distinct.1 (List.mem_map.2 ⟨_, mem, rfl⟩)
      simp [get?, absent, eq_comm]
    · have h' : ¬key = k := fun e => h e.symm
      simp [get?, h, h', ih distinct.2]

end Entries

/-! ## Tables without a repeated key -/

/-- Entries in the order in which their keys first came, each key once. -/
structure Keyed (κ : Type) (α : Type) where
  entries : List (κ × α)
  distinct : (entries.map Prod.fst).Nodup

namespace Keyed

variable {κ α β : Type}

def empty : Keyed κ α := ⟨[], List.nodup_nil⟩

instance : EmptyCollection (Keyed κ α) := ⟨empty⟩

instance : Inhabited (Keyed κ α) := ⟨empty⟩

def keys (table : Keyed κ α) : List κ := table.entries.map Prod.fst

def values (table : Keyed κ α) : List α := table.entries.map Prod.snd

def isEmpty (table : Keyed κ α) : Bool := table.entries.isEmpty

def size (table : Keyed κ α) : Nat := table.entries.length

/-- The table with each value replaced by its image. -/
def map (f : α → β) (table : Keyed κ α) : Keyed κ β :=
  ⟨table.entries.map fun (k, v) => (k, f v), by
    simpa [List.map_map, Function.comp_def] using table.distinct⟩

/-- The entries that satisfy `p`, in their order. -/
def filter (p : κ → α → Bool) (table : Keyed κ α) : Keyed κ α :=
  ⟨table.entries.filter fun (k, v) => p k v,
    table.distinct.sublist ((List.filter_sublist).map _)⟩

variable [DecidableEq κ]

def get? (table : Keyed κ α) (key : κ) : Option α := Entries.get? key table.entries

def contains (table : Keyed κ α) (key : κ) : Bool := (table.get? key).isSome

def insert (table : Keyed κ α) (key : κ) (value : α) : Keyed κ α :=
  ⟨Entries.store key value table.entries, Entries.nodup_store key value table.distinct⟩

def erase (table : Keyed κ α) (key : κ) : Keyed κ α := table.filter fun k _ => k ≠ key

/-- The table that storing the entries one after another leaves. -/
def ofList (entries : List (κ × α)) : Keyed κ α :=
  entries.foldl (fun table (k, v) => table.insert k v) ∅

@[simp] theorem get?_empty (key : κ) : (∅ : Keyed κ α).get? key = none := rfl

theorem get?_insert (table : Keyed κ α) (key other : κ) (value : α) :
    (table.insert key value).get? other = if key = other then some value else table.get? other :=
  Entries.get?_store key other value table.entries

theorem keys_insert (table : Keyed κ α) (key : κ) (value : α) :
    (table.insert key value).keys =
      if key ∈ table.keys then table.keys else table.keys ++ [key] :=
  Entries.map_fst_store key value table.entries

theorem get?_eq_some_iff {table : Keyed κ α} {key : κ} {value : α} :
    table.get? key = some value ↔ (key, value) ∈ table.entries :=
  Entries.get?_eq_some_iff table.distinct

theorem mem_keys_iff {table : Keyed κ α} {key : κ} :
    key ∈ table.keys ↔ ∃ value, table.get? key = some value := by
  simp [keys, get?_eq_some_iff]

theorem mem_values_iff {table : Keyed κ α} {value : α} :
    value ∈ table.values ↔ ∃ key, table.get? key = some value := by
  simp [values, get?_eq_some_iff]

theorem get?_filter (p : κ → α → Bool) (table : Keyed κ α) (key : κ) :
    (table.filter p).get? key = (table.get? key).filter (p key) := by
  ext value
  rw [get?_eq_some_iff, Option.filter_eq_some_iff, get?_eq_some_iff]
  exact List.mem_filter

theorem get?_erase (table : Keyed κ α) (key other : κ) :
    (table.erase key).get? other = if key = other then none else table.get? other := by
  rw [erase, get?_filter]
  by_cases h : key = other
  · subst h
    cases table.get? key <;> simp [Option.filter]
  · have h' : ¬other = key := fun e => h e.symm
    cases table.get? other <;> simp [Option.filter, h, h']

end Keyed

end RuleEditor

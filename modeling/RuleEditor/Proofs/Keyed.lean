import Mathlib.Data.List.Nodup
import RuleEditor.Keyed

/-!
# Storing many entries

What is in a list of pairs after one entry has been stored, or one entry after another: nothing that
was neither there nor stored, no key twice, and all entries in their order if no key repeats.

**Order.** That one element of a list stands before another is said by a sublist of two. Lists
without repetition are in the same order if their elements are, two by two.
-/

namespace RuleEditor

/-! ## Two elements of a list -/

section Pairs

variable {α : Type} {first later : α} {items before after : List α}

/-- In a list without repetition two elements stand in one order only. -/
theorem not_sublist_swap (nodup : items.Nodup)
    (pair : [first, later].Sublist items) : ¬ [later, first].Sublist items := by
  induction items with
  | nil => cases pair
  | cons item rest ih =>
    obtain ⟨new, nodup⟩ := List.nodup_cons.1 nodup
    intro swapped
    rcases List.sublist_cons_iff.1 pair with both | ⟨_, ⟨⟩, second⟩
    · rcases List.sublist_cons_iff.1 swapped with back | ⟨_, ⟨⟩, -⟩
      · exact ih nodup both back
      · exact new (both.subset (by simp))
    · rcases List.sublist_cons_iff.1 swapped with back | ⟨_, ⟨⟩, -⟩
      · exact new (back.subset (by simp))
      · exact new (second.subset (by simp))

theorem sublist_or_swap (mem : first ∈ items) (mem' : later ∈ items) (apart : first ≠ later) :
    [first, later].Sublist items ∨ [later, first].Sublist items := by
  obtain ⟨before, after, rfl⟩ := List.append_of_mem mem'
  rcases List.mem_append.1 mem with earlier | behind
  · have there := List.singleton_sublist.2 earlier
    exact Or.inl (there.append (List.singleton_sublist.2 List.mem_cons_self))
  · have behind := (List.mem_cons.1 behind).resolve_left apart
    have there := (List.singleton_sublist.2 behind).cons_cons later
    exact Or.inr (there.trans (List.sublist_append_right before (later :: after)))

/-- What stands before an element. -/
theorem sublist_pair_iff (nodup : (before ++ later :: after).Nodup) :
    [first, later].Sublist (before ++ later :: after) ↔ first ∈ before := by
  constructor
  · intro pair
    by_contra absent
    have mem := (List.mem_append.1 (pair.subset List.mem_cons_self)).resolve_left absent
    have apart : first ≠ later := by simpa using nodup.sublist pair
    have behind := (List.mem_cons.1 mem).resolve_left apart
    have swapped := (List.singleton_sublist.2 behind).cons_cons later
    exact not_sublist_swap nodup pair (swapped.trans (List.sublist_append_right before _))
  · intro earlier
    have there := List.singleton_sublist.2 earlier
    exact there.append (List.singleton_sublist.2 List.mem_cons_self)

theorem sublist_pair_trans {last : α} (nodup : items.Nodup) (pair : [first, later].Sublist items)
    (pair' : [later, last].Sublist items) : [first, last].Sublist items := by
  obtain ⟨before, after, rfl⟩ := List.append_of_mem (pair'.subset (List.mem_cons_of_mem _
    List.mem_cons_self))
  rw [sublist_pair_iff nodup] at pair' ⊢
  obtain ⟨front, back, rfl⟩ := List.append_of_mem pair'
  rw [List.append_assoc, List.cons_append] at nodup pair
  exact List.mem_append_left _ ((sublist_pair_iff nodup).1 pair)

theorem not_sublist_self (nodup : items.Nodup) : ¬ [first, first].Sublist items := fun twice => by
  simpa using nodup.sublist twice

/-- **Without repetition, elements of a list are in its order if they are two by two.** -/
theorem sublist_iff_pairs [DecidableEq α] {keys : List α} (nodup : keys.Nodup)
    (nodup' : items.Nodup) (subset : keys ⊆ items) :
    keys.Sublist items ↔ ∀ first ∈ keys, ∀ later ∈ keys,
      [first, later].Sublist items → [first, later].Sublist keys := by
  constructor
  · intro ordered first mem later mem' pair
    have apart : first ≠ later := by simpa using nodup'.sublist pair
    refine (sublist_or_swap mem mem' apart).resolve_right fun swapped => ?_
    exact not_sublist_swap nodup' pair (swapped.trans ordered)
  · intro pairs
    have perm : keys.Perm (items.filter (· ∈ keys)) := by
      refine (List.perm_ext_iff_of_nodup nodup (nodup'.filter _)).2 fun key => ?_
      simpa using @subset key
    have own : keys.Pairwise fun first later => [first, later].Sublist keys :=
      List.pairwise_iff_forall_sublist.2 id
    have others : (items.filter (· ∈ keys)).Pairwise fun first later =>
        [first, later].Sublist keys := by
      refine List.pairwise_iff_forall_sublist.2 fun {first later} pair => ?_
      have mem : first ∈ keys := perm.mem_iff.2 (pair.subset (by simp))
      have mem' : later ∈ keys := perm.mem_iff.2 (pair.subset (by simp))
      exact pairs first mem later mem' (pair.trans List.filter_sublist)
    have same : keys = items.filter (· ∈ keys) :=
      perm.eq_of_pairwise (fun _ _ _ _ pair swapped =>
        absurd swapped (not_sublist_swap nodup pair)) own others
    rw [same]
    exact List.filter_sublist

end Pairs

namespace Entries

variable {κ α : Type} [DecidableEq κ] {key : κ} {value : α} {entries : List (κ × α)}

theorem mem_of_get? (found : get? key entries = some value) : (key, value) ∈ entries := by
  induction entries with
  | nil => cases found
  | cons entry rest ih =>
    obtain ⟨k, v⟩ := entry
    rw [get?] at found
    split at found
    · next same =>
      cases found
      exact same ▸ List.mem_cons_self
    · exact List.mem_cons_of_mem _ (ih found)

theorem eq_or_mem_of_mem_store {entry : κ × α} (stored : entry ∈ store key value entries) :
    entry.2 = value ∨ entry ∈ entries := by
  induction entries with
  | nil => exact Or.inl (congrArg Prod.snd (List.mem_singleton.1 stored))
  | cons first rest ih =>
    obtain ⟨k, v⟩ := first
    rw [store] at stored
    split at stored
    · rcases List.mem_cons.1 stored with rfl | later
      · exact Or.inl rfl
      · exact Or.inr (List.mem_cons_of_mem _ later)
    · rcases List.mem_cons.1 stored with rfl | later
      · exact Or.inr List.mem_cons_self
      · exact (ih later).imp_right (List.mem_cons_of_mem _)

theorem store_of_not_mem (value : α) (new : key ∉ entries.map Prod.fst) :
    store key value entries = entries ++ [(key, value)] := by
  induction entries with
  | nil => rfl
  | cons entry rest ih =>
    obtain ⟨k, v⟩ := entry
    rw [List.map_cons, List.mem_cons, not_or] at new
    rw [store, if_neg (Ne.symm new.1), ih new.2]
    rfl

/-- Storing under a key that is there changes the entry of this key only. -/
theorem exists_append_of_get? (found : get? key entries = some value) :
    ∃ before after, entries = before ++ (key, value) :: after ∧
      ∀ new, store key new entries = before ++ (key, new) :: after := by
  induction entries with
  | nil => cases found
  | cons entry rest ih =>
    obtain ⟨k, v⟩ := entry
    rw [get?] at found
    split at found
    · next same =>
      cases found
      subst same
      exact ⟨[], rest, rfl, fun new => if_pos rfl⟩
    · next other =>
      obtain ⟨before, after, rfl, stored⟩ := ih found
      refine ⟨(k, v) :: before, after, rfl, fun new => ?_⟩
      rw [store, if_neg other, stored]
      rfl

theorem store_of_get? (found : get? key entries = some value) :
    store key value entries = entries := by
  obtain ⟨before, after, split, stored⟩ := exists_append_of_get? found
  rw [stored, split]

/-- Only the value that was stored last is kept. -/
theorem store_store (key : κ) (value new : α) (entries : List (κ × α)) :
    store key new (store key value entries) = store key new entries := by
  induction entries with
  | nil => exact if_pos rfl
  | cons entry rest ih =>
    obtain ⟨k, v⟩ := entry
    by_cases same : k = key
    · simp [store, same]
    · simp [store, same, ih]

/-- Values under two keys can be stored in any order. If both keys were new, their order would be
that of the steps. -/
theorem store_comm {other : κ} {old : α} (apart : key ≠ other)
    (found : get? key entries = some old) (value new : α) :
    store other new (store key value entries) = store key value (store other new entries) := by
  induction entries with
  | nil => cases found
  | cons entry rest ih =>
    obtain ⟨k, v⟩ := entry
    by_cases here : k = key
    · subst here
      simp [store, apart]
    · have later : get? key rest = some old := (if_neg here).symm.trans found
      by_cases there : k = other
      · simp [store, there, Ne.symm apart]
      · simp [store, here, there, ih later]

/-- Storing under a key that is there keeps the keys. -/
theorem map_fst_store_of_get? (found : get? key entries = some value) (new : α) :
    (store key new entries).map Prod.fst = entries.map Prod.fst := by
  rw [map_fst_store, if_pos (List.mem_map_of_mem (mem_of_get? found))]

/-! ## One entry after another -/

/-- Storing entries with a property keeps the property. -/
theorem forall_storeAll {P : α → Prop} {more : List (κ × α)} :
    ∀ {before : List (κ × α)}, (∀ entry ∈ more, P entry.2) → (∀ entry ∈ before, P entry.2) →
      ∀ entry ∈ more.foldl (fun stored (key, value) => store key value stored) before,
        P entry.2 := by
  induction more with
  | nil => exact fun _ known => known
  | cons first rest ih =>
    intro before new known
    obtain ⟨here, later⟩ := List.forall_mem_cons.1 new
    refine ih later fun entry mem => ?_
    rcases eq_or_mem_of_mem_store mem with same | earlier
    · exact same ▸ here
    · exact known entry earlier

theorem nodup_storeAll (more : List (κ × α)) :
    ∀ {before : List (κ × α)}, (before.map Prod.fst).Nodup →
      ((more.foldl (fun stored (key, value) => store key value stored) before).map
        Prod.fst).Nodup := by
  induction more with
  | nil => exact id
  | cons entry rest ih => exact fun distinct => ih (nodup_store entry.1 entry.2 distinct)

/-- Storing entries without a repeated key puts them behind those that were there. -/
theorem storeAll_of_nodup {more : List (κ × α)} :
    ∀ {before : List (κ × α)}, ((before ++ more).map Prod.fst).Nodup →
      more.foldl (fun stored (key, value) => store key value stored) before = before ++ more := by
  induction more with
  | nil => exact fun _ => (List.append_nil _).symm
  | cons entry rest ih =>
    obtain ⟨key, value⟩ := entry
    intro before distinct
    have new : key ∉ before.map Prod.fst := by
      rw [List.map_append, List.nodup_append] at distinct
      exact fun earlier => distinct.2.2 key earlier key List.mem_cons_self rfl
    rw [List.append_cons] at distinct ⊢
    rw [← store_of_not_mem value new] at distinct ⊢
    exact ih distinct

end Entries

namespace Keyed

variable {κ α : Type} [DecidableEq κ]

theorem mem_keys_insert {table : Keyed κ α} {key other : κ} {value : α} :
    other ∈ (table.insert key value).keys ↔ other ∈ table.keys ∨ other = key := by
  rw [keys_insert]
  split
  · next known => exact ⟨Or.inl, fun mem => mem.elim id fun same => same ▸ known⟩
  · rw [List.mem_append, List.mem_singleton]

theorem entries_ofList (entries : List (κ × α)) :
    (ofList entries).entries =
      entries.foldl (fun stored (key, value) => Entries.store key value stored) [] := by
  show _ = entries.foldl _ (∅ : Keyed κ α).entries
  rw [ofList]
  generalize (∅ : Keyed κ α) = table
  induction entries generalizing table with
  | nil => rfl
  | cons entry rest ih => exact ih _

theorem entries_ofList_of_nodup {entries : List (κ × α)}
    (distinct : (entries.map Prod.fst).Nodup) : (ofList entries).entries = entries :=
  (entries_ofList entries).trans (Entries.storeAll_of_nodup distinct)

/-- A table is what storing its entries one after another leaves. -/
theorem ofList_entries (table : Keyed κ α) : ofList table.entries = table := by
  obtain ⟨entries, distinct⟩ := table
  have same := entries_ofList_of_nodup distinct
  generalize ofList entries = stored at same
  cases stored
  cases same
  rfl

end Keyed

end RuleEditor

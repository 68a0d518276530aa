import Mathlib.Data.List.Perm.Subperm
import Mathlib.Data.Option.Basic
import RuleEditor.Proofs.Path.Walk

/-!
# Trees that say the same

`Node.equal` compares the operands of two nodes: the positional ones one after another, and each
named one with the one that the other node has under its key. It also compares how many named ones
there are. In nodes that have no two operands of one name this leaves no operand of either node out:
whatever segment is taken, both nodes have equal operands there or none
(`Node.step?_of_equal`).
-/

namespace RuleEditor

namespace Entries

variable {κ α : Type} [DecidableEq κ] {key : κ}

theorem mem_keys_of_get? {value : α} {entries : List (κ × α)}
    (found : get? key entries = some value) : key ∈ entries.map Prod.fst :=
  List.mem_map.2 ⟨(key, value), mem_of_get? found, rfl⟩

theorem get?_eq_none_iff {entries : List (κ × α)} :
    get? key entries = none ↔ key ∉ entries.map Prod.fst := by
  induction entries with
  | nil => exact iff_of_true rfl nofun
  | cons entry rest ih =>
    obtain ⟨other, value⟩ := entry
    rw [get?, List.map_cons, List.mem_cons, not_or, ← ih]
    by_cases same : other = key
    · simp [same]
    · simp [same, Ne.symm same]

end Entries

namespace Constant

theorem string?_of_equal {value other : Constant} (same : value.equal other = true) :
    value.string? = other.string? := by
  cases value with
  | string text =>
    cases other with
    | string text' => exact congrArg some (eq_of_beq same)
    | _ => cases same
  | _ =>
    cases other with
    | string text' => cases same
    | _ => rfl

theorem filterMap_string?_of_equalAll : ∀ {items others : List Constant},
    equalAll items others = true → items.filterMap string? = others.filterMap string?
  | [], [], _ => rfl
  | [], _ :: _, same => nomatch same
  | _ :: _, [], same => nomatch same
  | value :: rest, other :: rest', same => by
    rw [equalAll, Bool.and_eq_true] at same
    rw [List.filterMap_cons, List.filterMap_cons, string?_of_equal same.1,
      filterMap_string?_of_equalAll same.2]

theorem rel_of_equalOptional {literal other : Option Constant}
    (same : equalOptional literal other = true) :
    Option.Rel (fun value value' => equal value value' = true) literal other := by
  cases literal with
  | none =>
    cases other with
    | none => exact .none
    | some value => cases same
  | some value =>
    cases other with
    | none => cases same
    | some value' => exact .some same

end Constant

namespace Node

variable {node other : Node} {segment : Segment}

/-- The operands say the same. -/
def Equal (operand other : Node) : Prop := operand.equal other = true

theorem getElem?_of_equalAll : ∀ {nodes others : List Node}, equalAll nodes others = true →
    ∀ index : Nat, Option.Rel Equal nodes[index]? others[index]?
  | [], [], _, _ => .none
  | [], _ :: _, same, _ => nomatch same
  | _ :: _, [], same, _ => nomatch same
  | node :: rest, other :: rest', same, index => by
    rw [equalAll, Bool.and_eq_true] at same
    cases index with
    | zero => exact .some same.1
    | succ index => exact getElem?_of_equalAll same.2 index

/-- Each named operand of the first list has an equal one in the second. -/
theorem exists_of_equalNamed {named others : List (String × Node)}
    (same : equalNamed named others = true) :
    ∀ entry ∈ named, ∃ other, Entries.get? entry.1 others = some other ∧ entry.2.Equal other := by
  induction named with
  | nil => exact List.forall_mem_nil _
  | cons entry rest ih =>
    obtain ⟨key, node⟩ := entry
    rw [equalNamed, Bool.and_eq_true] at same
    obtain ⟨here, later⟩ := same
    refine List.forall_mem_cons.2 ⟨?_, ih later⟩
    split at here
    · next other found => exact ⟨other, found, here⟩
    · cases here

/-- As there are no more named operands in the second list than in the first, there are no other
ones in it. -/
theorem get?_of_equalNamed {named others : List (String × Node)}
    (same : equalNamed named others = true) (length : named.length = others.length)
    (distinct : (named.map Prod.fst).Nodup) (key : String) :
    Option.Rel Equal (Entries.get? key named) (Entries.get? key others) := by
  have matched := exists_of_equalNamed same
  have subset : named.map Prod.fst ⊆ others.map Prod.fst := by
    intro key mem
    obtain ⟨entry, listed, rfl⟩ := List.mem_map.1 mem
    obtain ⟨other, found, -⟩ := matched entry listed
    exact Entries.mem_keys_of_get? found
  have keys : (named.map Prod.fst).Perm (others.map Prod.fst) :=
    (List.subperm_of_subset distinct subset).perm_of_length_le (by simp [length])
  cases found : Entries.get? key named with
  | none =>
    have absent := mt keys.mem_iff.2 (Entries.get?_eq_none_iff.1 found)
    rw [Entries.get?_eq_none_iff.2 absent]
    exact .none
  | some node =>
    obtain ⟨other, there, equal⟩ := matched (key, node) (Entries.mem_of_get? found)
    rw [there]
    exact .some equal

/-- What the two nodes themselves say. -/
theorem name_of_equal (same : node.equal other = true) :
    node.name = other.name ∧ Constant.equalOptional node.constant other.constant = true := by
  cases node
  cases other
  simp only [equal, Bool.and_eq_true, beq_iff_eq] at same
  exact ⟨same.1.1.1.1, same.1.1.1.2⟩

/-- **Nodes that say the same have operands that say the same**, under the same segments. -/
theorem step?_of_equal (same : node.equal other = true) (distinct : node.OwnDistinctKeys)
    (segment : Segment) : Option.Rel Equal (node.step? segment) (other.step? segment) := by
  cases node
  cases other
  simp only [equal, Bool.and_eq_true, beq_iff_eq] at same
  obtain ⟨⟨⟨-, children⟩, length⟩, named⟩ := same
  cases segment with
  | child index => exact getElem?_of_equalAll children index
  | named key => exact get?_of_equalNamed named length distinct key

end Node

end RuleEditor

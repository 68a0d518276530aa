import RuleEditor.Aggregation.Draft

/-!
# Problems of drafts

A draft has no problem exactly if its aggregation is complete (`Aggregation.Complete`), and if it
has some, the first one is about the first part of the form, from top to bottom, that is missing
(`Aggregation.LacksFirst`).
-/

namespace RuleEditor

/-- Everything that the form asks for is there. -/
structure Aggregation.Complete (aggregation : Aggregation) : Prop where
  aggregator : aggregation.aggregator.isSome = true
  table : aggregation.table.isSome = true
  field : aggregation.field.isSome = true
  filters : ∀ row ∈ aggregation.filters, row.isComplete = true

/-- The problem is the first one of the form, from its top to its bottom. -/
inductive Aggregation.LacksFirst (aggregation : Aggregation) : DraftError → Prop
  | aggregator (missing : aggregation.aggregator = none) : aggregation.LacksFirst .missingAggregator
  | table (aggregator : aggregation.aggregator.isSome = true) (missing : aggregation.table = none) :
      aggregation.LacksFirst .missingTable
  | field (aggregator : aggregation.aggregator.isSome = true)
      (table : aggregation.table.isSome = true) (missing : aggregation.field = none) :
      aggregation.LacksFirst .missingField
  | filter (aggregator : aggregation.aggregator.isSome = true)
      (table : aggregation.table.isSome = true) (field : aggregation.field.isSome = true)
      {before after : List FilterRow} {row : FilterRow}
      (split : aggregation.filters = before ++ row :: after)
      (complete : ∀ row ∈ before, row.isComplete = true) (missing : row.isComplete = false) :
      aggregation.LacksFirst (.incompleteFilter before.length)

namespace Draft

variable {draft : Draft} {index : Nat} {rows : List FilterRow} {problem : DraftError}

theorem filterProblems_eq_nil_iff :
    filterProblems index rows = [] ↔ ∀ row ∈ rows, row.isComplete = true := by
  induction rows generalizing index with
  | nil => exact iff_of_true rfl nofun
  | cons row rest ih =>
    rw [filterProblems, List.append_eq_nil_iff, ih, List.forall_mem_cons]
    refine and_congr_left fun _ => ?_
    split <;> simp [*]

/-- The first problem of some rows is about the first one that is not complete. -/
theorem exists_of_head?_filterProblems (first : (filterProblems index rows).head? = some problem) :
    ∃ before row after, rows = before ++ row :: after ∧
      (∀ row ∈ before, row.isComplete = true) ∧ row.isComplete = false ∧
      problem = .incompleteFilter (index + before.length) := by
  induction rows generalizing index with
  | nil => cases first
  | cons row rest ih =>
    rw [filterProblems] at first
    by_cases complete : row.isComplete = true
    · rw [if_pos complete] at first
      obtain ⟨before, lacking, after, rfl, earlier, missing, rfl⟩ := ih first
      refine ⟨row :: before, lacking, after, rfl, List.forall_mem_cons.2 ⟨complete, earlier⟩,
        missing, ?_⟩
      rw [List.length_cons, Nat.add_assoc, Nat.add_comm 1]
    · rw [if_neg complete] at first
      cases first
      exact ⟨[], row, rest, rfl, nofun, Bool.eq_false_iff.2 complete, rfl⟩

/-- What the form asks for, or a problem if it is missing. -/
theorem demand_eq_nil_iff {α : Type} {part : Option α} :
    (if part.isNone then [problem] else []) = [] ↔ part.isSome = true := by
  cases part <;> simp

theorem problems_eq_nil_iff : draft.problems = [] ↔ draft.current.Complete := by
  simp only [problems, List.append_eq_nil_iff, demand_eq_nil_iff, filterProblems_eq_nil_iff,
    and_assoc]
  constructor
  · rintro ⟨aggregator, table, field, filters⟩
    exact ⟨aggregator, table, field, filters⟩
  · rintro ⟨aggregator, table, field, filters⟩
    exact ⟨aggregator, table, field, filters⟩

theorem lacksFirst_of_head?_problems (first : draft.problems.head? = some problem) :
    draft.current.LacksFirst problem := by
  rw [problems] at first
  by_cases missing : draft.current.aggregator = none
  · rw [missing] at first
    cases first
    exact .aggregator missing
  have aggregator := Option.isSome_iff_ne_none.2 missing
  rw [demand_eq_nil_iff.2 aggregator] at first
  by_cases missing : draft.current.table = none
  · rw [missing] at first
    cases first
    exact .table aggregator missing
  have table := Option.isSome_iff_ne_none.2 missing
  rw [demand_eq_nil_iff.2 table] at first
  by_cases missing : draft.current.field = none
  · rw [missing] at first
    cases first
    exact .field aggregator table missing
  have field := Option.isSome_iff_ne_none.2 missing
  rw [demand_eq_nil_iff.2 field] at first
  obtain ⟨before, row, after, split, complete, missing, rfl⟩ := exists_of_head?_filterProblems first
  rw [Nat.zero_add]
  exact .filter aggregator table field split complete missing

/-- **Committing** builds the node of a complete aggregation, and names the first problem of any
other one. -/
theorem commit_cases (draft : Draft) (next : Nat) :
    draft.current.Complete ∧ draft.commit next = .ok (draft.current.toNode next) ∨
      ∃ problem, draft.current.LacksFirst problem ∧ draft.commit next = .error problem := by
  rw [commit]
  cases found : draft.problems with
  | nil => exact Or.inl ⟨problems_eq_nil_iff.1 found, rfl⟩
  | cons problem rest =>
    have first : draft.problems.head? = some problem := by rw [found, List.head?_cons]
    exact Or.inr ⟨problem, lacksFirst_of_head?_problems first, rfl⟩

theorem exists_commit_iff {next : Nat} :
    (∃ result, draft.commit next = .ok result) ↔ draft.current.Complete := by
  rw [← problems_eq_nil_iff, commit]
  cases draft.problems with
  | nil => exact iff_of_true ⟨_, rfl⟩ rfl
  | cons problem rest => exact iff_of_false nofun nofun

end Draft

end RuleEditor

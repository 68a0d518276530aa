import RuleEditor.Proofs.Aggregation.Draft
import RuleEditor.Proofs.Aggregation.Reading
import RuleEditor.Proofs.Editor.Offers
import RuleEditor.Proofs.Path.Replacement

/-!
# Committed aggregations

**What is written.** Committing a draft puts the node of its aggregation at the path and leaves the
rest of the tree as it is. Since an aggregation is read back from its node, a later draft of the node
begins with what this one ended with.

**What is refused.** A draft that is not complete is refused before the tree is looked at, so the
path may even be stale.
-/

namespace RuleEditor

namespace Node

variable {root updated : Node} {path : Path} {draft : Draft} {next : Nat}

theorem reduce_commit (complete : draft.current.Complete)
    (put : root.put? (draft.current.toNode next).1 path = some updated) :
    root.reduce (.commitAggregation path draft) next =
      .ok (updated, (draft.current.toNode next).2) :=
  StateT.bind_eq_ok.2 ⟨_, _, Edit.commit_eq_ok.2 ⟨Draft.problems_eq_nil_iff.2 complete, rfl⟩,
    Edit.located_eq_ok.2 ⟨put_eq_ok.2 put, rfl⟩⟩

theorem reduce_commit_of_error {problem : DraftError} (refused : draft.commit next = .error problem)
    (root : Node) (path : Path) :
    root.reduce (.commitAggregation path draft) next = .error (.invalidDraft problem) := by
  have step : Edit.commit draft next = .error (.invalidDraft problem) := by
    rw [Edit.commit, refused]
  show (Edit.commit draft next >>= _) = _
  rw [step]
  rfl

end Node

namespace Editor

/-- **What is committed is read back.** No part of an aggregation is lost in its node. So while a
tree is edited, a valid draft is found again where it was committed, and nothing changes outside of
that place. A draft that is not valid is refused with its first problem, and nothing changes. -/
theorem commit_reads_back (editor : Editor) (editing : editor.config.mode = .edit) (path : Path)
    (draft : Draft) (supply : Nat) :
    (∀ aggregation : Aggregation, ∀ next,
      Aggregation.read (aggregation.toNode next).1 = pure (some aggregation)) ∧
    (∀ node, editor.root.at? path = some node → draft.isValid = true →
      ∃ edited rest written,
        editor.apply (.commitAggregation path draft) supply = .ok (edited, rest) ∧
        edited.root.at? path = some written ∧
        Aggregation.read written = pure (some draft.current) ∧
        editor.root.SameOutside path edited.root) ∧
    (draft.isValid = false → ∃ problem, draft.current.LacksFirst problem ∧
      editor.apply (.commitAggregation path draft) supply = .error (.invalidDraft problem) ∧
      ∀ run : Run, run.editor = editor →
        run.step (.apply (.commitAggregation path draft) supply) = run) := by
  refine ⟨Aggregation.read_toNode, fun node found valid => ?_, fun invalid => ?_⟩
  · have complete := Draft.problems_eq_nil_iff.1 (List.isEmpty_iff.1 valid)
    obtain ⟨updated, put⟩ : ∃ updated,
        editor.root.put? (draft.current.toNode supply).1 path = some updated :=
      Node.exists_put?_iff.2 ⟨node, found⟩
    have applied := apply_of_reduce editing (Node.reduce_commit complete put)
    exact ⟨_, _, _, applied, Node.at?_put? put, draft.current.read_toNode supply,
      Node.sameOutside_of_put? put⟩
  · rcases draft.commit_cases supply with ⟨complete, -⟩ | ⟨problem, first, refused⟩
    · have valid : draft.isValid = true :=
        List.isEmpty_iff.2 (Draft.problems_eq_nil_iff.2 complete)
      cases invalid.symm.trans valid
    · have applied : editor.apply (.commitAggregation path draft) supply =
          .error (.invalidDraft problem) := by
        rw [apply_eq_of_edit editing, Node.reduce_commit_of_error refused]
        rfl
      refine ⟨problem, first, applied, ?_⟩
      rintro run rfl
      rw [Run.step, applied]

/-- An aggregation with an empty label and a filter that needs no value. Without its table, it is
refused. -/
theorem commit_reads_back_count :
    let blank (id : Nat) : Node := ⟨id, .undefined, none, [], []⟩
    let root : Node := ⟨0, .function Name.and, none, [blank 1, blank 2], []⟩
    let row : FilterRow := ⟨some Name.isEmpty, some "orders", some "total", blank 3⟩
    let count : Aggregation := ⟨some .count, some "orders", some "id", some "", [row]⟩
    let unnamed : Aggregation := { count with table := none }
    let editor := Editor.ofTree root .default
    (∃ edited rest written,
      editor.apply (.commitAggregation [.child 1] (Draft.ofAggregation count)) 4 =
        .ok (edited, rest) ∧
      edited.root.at? [.child 1] = some written ∧
      Aggregation.read written = pure (some count) ∧
      edited.root.at? [.child 0] = some (blank 1)) ∧
    editor.apply (.commitAggregation [.child 1] (Draft.ofAggregation unnamed)) 4 =
      .error (.invalidDraft .missingTable) := by
  intro blank root row count unnamed editor
  have beside : Path.Beside [.child 1] [.child 0] := ⟨by decide, by decide⟩
  obtain ⟨edited, rest, written, applied, there, reads, outside⟩ :=
    (commit_reads_back editor rfl [.child 1] (Draft.ofAggregation count) 4).2.1 (blank 2) rfl rfl
  obtain ⟨problem, first, refused, -⟩ :=
    (commit_reads_back editor rfl [.child 1] (Draft.ofAggregation unnamed) 4).2.2 rfl
  refine ⟨⟨edited, rest, written, applied, there, reads, ?_⟩, ?_⟩
  · exact outside.beside [.child 0] beside
  · cases first with
    | aggregator missing => cases missing
    | table => exact refused
    | field aggregator table => cases table
    | filter aggregator table => cases table

end Editor

end RuleEditor

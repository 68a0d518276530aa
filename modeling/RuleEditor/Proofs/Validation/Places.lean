import RuleEditor.Proofs.Path.Tree
import RuleEditor.Proofs.Path.Walk
import RuleEditor.Proofs.Validation.Findings

/-!
# Where errors are

**Findings.** A finding about a node is at the node, or at one of its operands that is a placeholder
or a string (`Node.Blames`). So local validation finds errors at paths that lead to a node of the
tree (`exists_at?_of_mem_findings`).

**Answers.** What is seen of an answer is at paths that lead to a node of the current tree.
-/

namespace RuleEditor

namespace Node

variable {node root : Node} {context : Option Context} {path : Path} {name : String}
  {finding : Finding}

/-! ## Findings -/

/-- Where the checks of the node at `path` find errors. They look at the node, and at its operands
for placeholders and for strings that name nothing. -/
inductive Blames (node : Node) (path : Path) : Path → Prop
  | self : node.Blames path path
  | operand {segment : Segment} {operand : Node} (step : node.step? segment = some operand)
      (doubtful : operand.isUndefined = true ∨ operand.string?.isSome = true) :
      node.Blames path (path ++ [segment])

/-- **Every finding about a node is at a place that it blames.** -/
theorem blames_of_mem_nodeFindings (found : finding ∈ node.nodeFindings context path) :
    node.Blames path finding.1 := by
  obtain ⟨name, -, complaint⟩ := exists_complaint found
  cases complaint with
  | arity _ place => exact place ▸ .self
  | operand there undefined place =>
    have step : node.step? (.child _) = some _ := there
    exact place ▸ .operand step (Or.inl undefined)
  | missing _ place => exact place ▸ .self
  | slot there undefined place =>
    have step : node.step? (.named _) = some _ := there
    exact place ▸ .operand step (Or.inl undefined)
  | aggregator there string place =>
    have step : node.step? (.named Slot.aggregator) = some _ := there
    exact place ▸ .operand step (Or.inr string)
  | reference place => exact place ▸ .self

theorem Blames.exists_at? {place : Path} (blames : node.Blames path place)
    (here : root.at? path = some node) : ∃ blamed, root.at? place = some blamed := by
  cases blames with
  | self => exact ⟨node, here⟩
  | operand step =>
    rw [at?_concat, here]
    exact ⟨_, step⟩

/-- **What local validation finds is found at a node.** -/
theorem exists_at?_of_mem_findings {kind : RootKind}
    (distinct : root.Everywhere OwnDistinctKeys) (found : finding ∈ root.findings kind context) :
    ∃ node, root.at? finding.1 = some node := by
  rcases List.mem_append.1 found with shape | found
  · rw [(of_mem_rootFindings shape).1]
    exact ⟨root, rfl⟩
  · obtain ⟨⟨path, node⟩, listed, found⟩ := List.mem_flatMap.1 found
    exact (blames_of_mem_nodeFindings found).exists_at? ((mem_walk_iff distinct).1 listed)

end Node

/-! ## Answers -/

/-- What is seen of an answer is seen at a node. -/
theorem Merged.exists_at?_of_visible {merged : Merged} {root : Node} {path : Path}
    (visible : (merged.visibleIn root).errors.errorsAt path ≠ []) :
    ∃ node, root.at? path = some node := by
  cases there : root.at? path with
  | some node => exact ⟨node, rfl⟩
  | none =>
    have hidden : merged.holds root path = false := by
      rw [holds, there]
      split <;> simp_all
    refine absurd ?_ visible
    rw [PathErrors.errorsAt, visibleIn, Keyed.get?_filter, hidden]
    cases merged.annotations.errors.get? path <;> rfl

end RuleEditor

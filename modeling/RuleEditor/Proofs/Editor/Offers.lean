import RuleEditor.Editor.Offer
import RuleEditor.Proofs.Editor.Run
import RuleEditor.Proofs.Path.Tree

/-!
# Edits on offer and edits that succeed

`Node.Admits` says in one place which kinds of edits a node of a tree admits. An edit is on offer at
a path exactly if the path leads to a node that admits its kind (`Node.mem_offered_iff`), and
carrying it out succeeds exactly if its target does (`Node.exists_reduce_iff`), whatever operand it
brings along and whatever identities it takes.

Two kinds of edits are offered more sparingly than they would succeed. An operator is offered in
place of operators only, but put in place of functions as well; an aggregation is offered in place
of aggregations and of what is not chosen yet, but written anywhere.
-/

namespace RuleEditor

namespace Node

variable {root node : Node} {path : Path} {kind : IntentKind} {next : Nat}

/-- The node of a tree that a path leads to admits edits of this kind. -/
def Admits (root : Node) (path : Path) (node : Node) : IntentKind → Prop
  | .setOperand => True
  | .remove => True
  | .setOperator => node.isCompound = true
  | .appendChild => node.isVariadic = true
  | .nest => node.isBinaryLine = true
  | .unnest =>
    node.isBinaryLine = true ∧ ∃ right, node.child? 1 = some right ∧ right.isBinaryLine = true
  | .addOrBranch => root.isOrOfAnd = true ∧ path = []
  | .addAndCondition => root.isOrOfAnd = true ∧ ∃ branch, path = [.child branch]
  | .commitAggregation => node.applies Name.aggregation = true ∨ node.isUndefined = true

/-- **What is on offer is what the node admits.** -/
theorem mem_offered_iff :
    kind ∈ root.offered path ↔ ∃ node, root.at? path = some node ∧ root.Admits path node kind := by
  unfold offered
  cases root.at? path with
  | none => exact iff_of_false List.not_mem_nil nofun
  | some node =>
    simp only [Option.some.injEq, exists_eq_left']
    -- The edits of an OR of ANDs depend on the shape of the path, the others do not.
    rcases path with _ | ⟨index | key, _ | ⟨below, rest⟩⟩ <;> cases kind <;>
      simp [Admits, Option.any_eq_true]

/-! ## Changes that apply -/

/-- A line has an operator and both its operands. -/
theorem exists_of_isBinaryLine (line : node.isBinaryLine = true) :
    (∃ name, node.function? = some name) ∧ (∃ left, node.child? 0 = some left) ∧
      ∃ right, node.child? 1 = some right := by
  simp only [isBinaryLine, Bool.and_eq_true, decide_eq_true_eq, Option.any_eq_true] at line
  obtain ⟨⟨⟨name, function, -⟩, two⟩, -⟩ := line
  refine ⟨⟨name, function⟩, ?_⟩
  simp [child?, two]

theorem exists_nest?_iff :
    (∃ nested, (node.nest? next).1 = some nested) ↔ node.isBinaryLine = true := by
  constructor
  · rintro ⟨nested, made⟩
    by_contra line
    rw [nest?, Bool.eq_false_iff.2 line] at made
    cases made
  · intro line
    obtain ⟨⟨name, function⟩, -, right, second⟩ := exists_of_isBinaryLine line
    rw [nest?, line, function, second]
    exact ⟨_, rfl⟩

theorem exists_unnest?_iff :
    (∃ unnested, node.unnest? = some unnested) ↔ node.isBinaryLine = true ∧
      ∃ right, node.child? 1 = some right ∧ right.isBinaryLine = true := by
  constructor
  · rintro ⟨unnested, made⟩
    obtain ⟨right, second, made⟩ := Option.bind_eq_some_iff.1 made
    obtain ⟨inner, -, made⟩ := Option.bind_eq_some_iff.1 made
    split at made
    · next lines =>
      rw [Bool.and_eq_true] at lines
      exact ⟨lines.1, right, second, lines.2⟩
    · cases made
  · rintro ⟨line, right, second, group⟩
    obtain ⟨-, ⟨inner, first⟩, -⟩ := exists_of_isBinaryLine group
    refine ⟨node.withRight inner, ?_⟩
    simp [unnest?, second, first, line, group]

theorem exists_addOrBranch?_iff :
    (∃ updated, (root.addOrBranch? next).1 = some updated) ↔ root.isOrOfAnd = true := by
  rw [addOrBranch?]
  by_cases shape : root.isOrOfAnd = true
  · rw [if_pos shape]
    exact iff_of_true ⟨_, rfl⟩ shape
  · rw [if_neg shape]
    exact iff_of_false nofun shape

theorem exists_addAndCondition?_iff {branch : Nat} :
    (∃ updated, (root.addAndCondition? branch next).1 = some updated) ↔
      root.isOrOfAnd = true ∧ ∃ node, root.child? branch = some node := by
  rw [addAndCondition?]
  cases root.isOrOfAnd with
  | false => exact iff_of_false nofun nofun
  | true =>
    cases root.child? branch with
    | none => exact iff_of_false nofun nofun
    | some node => exact iff_of_true ⟨_, rfl⟩ ⟨rfl, node, rfl⟩

/-! ## Steps that succeed -/

section Steps

variable {α β : Type}

theorem exists_bind_iff {step : Edit α} {after : α → Edit β} :
    (∃ result, (step >>= after) next = .ok result) ↔
      ∃ value mid, step next = .ok (value, mid) ∧ ∃ result, after value mid = .ok result := by
  constructor
  · rintro ⟨result, done⟩
    obtain ⟨value, mid, first, later⟩ := StateT.bind_eq_ok.1 done
    exact ⟨value, mid, first, result, later⟩
  · rintro ⟨value, mid, first, result, later⟩
    exact ⟨result, StateT.bind_eq_ok.2 ⟨value, mid, first, later⟩⟩

theorem exists_get_bind_iff {after : Node → Edit β} :
    (∃ result, (Edit.located (root.get path) >>= after) next = .ok result) ↔
      ∃ node, root.at? path = some node ∧ ∃ result, after node next = .ok result := by
  simp only [exists_bind_iff, Edit.located_eq_ok, get_eq_ok, and_assoc, exists_and_left,
    exists_eq_left']

theorem exists_fresh_bind_iff {action : Fresh α} {after : α → Edit β} :
    (∃ result, (Edit.fresh action >>= after) next = .ok result) ↔
      ∃ result, after (action next).1 (action next).2 = .ok result := Iff.rfl

theorem exists_applicable_iff {found : Option α} :
    (∃ result, Edit.applicable kind path found next = .ok result) ↔
      ∃ value, found = some value := by
  simp [Prod.exists, Edit.applicable_eq_ok]

theorem exists_applicable_bind_iff {found : Option α} {after : α → Edit β} :
    (∃ result, (Edit.applicable kind path found >>= after) next = .ok result) ↔
      ∃ value, found = some value ∧ ∃ result, after value next = .ok result := by
  simp only [exists_bind_iff, Edit.applicable_eq_ok, and_assoc, exists_and_left, exists_eq_left']

theorem exists_put_iff {new : Node} :
    (∃ result, Edit.located (root.put path new) next = .ok result) ↔
      ∃ node, root.at? path = some node := by
  rw [← @exists_put?_iff root new path, Prod.exists]
  simp [Edit.located_eq_ok, put_eq_ok]

end Steps

/-! ## Edits that succeed -/

/-- **What the node admits succeeds.** -/
theorem exists_reduce_iff {intent : Intent} (operator : intent.kind ≠ .setOperator)
    (aggregation : intent.kind ≠ .commitAggregation) :
    (∃ result, root.reduce intent next = .ok result) ↔
      ∃ node, root.at? intent.target = some node ∧ root.Admits intent.target node intent.kind := by
  cases intent with
  | setOperand path node =>
    simp only [reduce, exists_put_iff, Intent.target, Intent.kind, Admits, and_true]
  | setOperator => exact absurd rfl operator
  | appendChild path operand =>
    simp only [reduce, exists_get_bind_iff, Intent.target, Intent.kind, Admits]
    refine exists_congr fun parent => and_congr_right fun found => ?_
    by_cases variadic : parent.isVariadic = true
    · rw [if_pos variadic, append, get_eq_ok.2 found]
      exact iff_of_true (exists_put_iff.2 ⟨parent, found⟩) variadic
    · rw [if_neg variadic]
      refine iff_of_false ?_ variadic
      rintro ⟨result, ⟨⟩⟩
  | remove path =>
    simp only [reduce, Intent.target, Intent.kind, Admits, and_true]
    split
    · simp only [Edit.stale_eq_ok, exists_removeCondition_iff]
    · simp only [Edit.stale_eq_ok, exists_remove_iff]
  | nest path =>
    simp only [reduce, exists_get_bind_iff, Intent.target, Intent.kind, Admits]
    refine exists_congr fun node => and_congr_right fun found => ?_
    simp only [exists_fresh_bind_iff, exists_applicable_bind_iff, exists_put_iff, exists_and_right,
      exists_nest?_iff]
    exact and_iff_left ⟨node, found⟩
  | unnest path =>
    simp only [reduce, exists_get_bind_iff, Intent.target, Intent.kind, Admits]
    refine exists_congr fun node => and_congr_right fun found => ?_
    simp only [exists_applicable_bind_iff, exists_put_iff, exists_and_right, exists_unnest?_iff]
    exact and_iff_left ⟨node, found⟩
  | addOrBranch =>
    simp only [reduce, exists_fresh_bind_iff, exists_applicable_iff, exists_addOrBranch?_iff]
    constructor
    · intro shape
      exact ⟨root, rfl, shape, rfl⟩
    · rintro ⟨-, -, shape, -⟩
      exact shape
  | addAndCondition branch =>
    simp only [reduce, exists_fresh_bind_iff, exists_applicable_iff, exists_addAndCondition?_iff]
    simp only [Intent.target, Intent.kind, Admits, at?_child]
    constructor
    · rintro ⟨shape, node, found⟩
      exact ⟨node, found, shape, branch, rfl⟩
    · rintro ⟨node, found, shape, -⟩
      exact ⟨shape, node, found⟩
  | commitAggregation => exact absurd rfl aggregation

theorem exists_setOperator (found : root.at? path = some node) (function : node.isCompound = true)
    (name : String) : ∃ result, root.reduce (.setOperator path name) next = .ok result := by
  obtain ⟨old, function, -⟩ := (Option.any_eq_true _ _).1 function
  simp only [reduce, exists_get_bind_iff, exists_applicable_bind_iff, exists_fresh_bind_iff,
    exists_put_iff]
  exact ⟨node, found, old, function, node, found⟩

theorem exists_commitAggregation (found : root.at? path = some node) {draft : Draft}
    (built : ∃ result, draft.commit next = .ok result) :
    ∃ result, root.reduce (.commitAggregation path draft) next = .ok result := by
  obtain ⟨⟨made, rest⟩, built⟩ := built
  rw [reduce, exists_bind_iff]
  exact ⟨made, rest, by rw [Edit.commit, built], exists_put_iff.2 ⟨node, found⟩⟩

end Node

namespace Editor

variable {editor : Editor} {path : Path} {kind : IntentKind}

theorem apply_eq_of_edit (editing : editor.config.mode = .edit) (intent : Intent) (supply : Nat) :
    editor.apply intent supply =
      (editor.root.reduce intent supply).map fun result => (editor.advance result.1, result.2) := by
  have writable : editor.config.mode ≠ .view := by
    rw [editing]
    exact nofun
  rw [apply, if_neg writable]
  show (editor.root.reduce intent supply >>= _) = _
  cases editor.root.reduce intent supply <;> rfl

theorem apply_of_reduce {intent : Intent} {root : Node} {supply rest : Nat}
    (editing : editor.config.mode = .edit)
    (reduced : editor.root.reduce intent supply = .ok (root, rest)) :
    editor.apply intent supply = .ok (editor.advance root, rest) := by
  rw [apply_eq_of_edit editing, reduced]
  rfl

theorem exists_apply_iff (editing : editor.config.mode = .edit) (intent : Intent) (supply : Nat) :
    (∃ result, editor.apply intent supply = .ok result) ↔
      ∃ result, editor.root.reduce intent supply = .ok result := by
  constructor
  · rintro ⟨⟨edited, rest⟩, applied⟩
    obtain ⟨-, root, reduced, -⟩ := apply_eq_ok applied
    exact ⟨(root, rest), reduced⟩
  · rintro ⟨⟨root, rest⟩, reduced⟩
    exact ⟨_, apply_of_reduce editing reduced⟩

theorem offered_of_edit (editing : editor.config.mode = .edit) (path : Path) :
    editor.offered path = editor.root.offered path :=
  if_pos (decide_eq_true editing)

theorem mem_offered_iff (editing : editor.config.mode = .edit) :
    kind ∈ editor.offered path ↔
      ∃ node, editor.root.at? path = some node ∧ editor.root.Admits path node kind := by
  rw [offered_of_edit editing, Node.mem_offered_iff]

/-- Whatever is on offer at a node, there is an edit of that kind which is addressed to it. -/
theorem exists_intent_of_mem (offered : kind ∈ editor.root.offered path) :
    ∃ intent : Intent, intent.kind = kind ∧ intent.target = path := by
  obtain ⟨node, -, admits⟩ := Node.mem_offered_iff.1 offered
  cases kind with
  | setOperand => exact ⟨.setOperand path node, rfl, rfl⟩
  | setOperator => exact ⟨.setOperator path Name.and, rfl, rfl⟩
  | appendChild => exact ⟨.appendChild path node, rfl, rfl⟩
  | remove => exact ⟨.remove path, rfl, rfl⟩
  | nest => exact ⟨.nest path, rfl, rfl⟩
  | unnest => exact ⟨.unnest path, rfl, rfl⟩
  | addOrBranch => exact ⟨.addOrBranch, rfl, admits.2.symm⟩
  | addAndCondition =>
    obtain ⟨-, branch, rfl⟩ := admits
    exact ⟨.addAndCondition branch, rfl, rfl⟩
  | commitAggregation => exact ⟨.commitAggregation path Draft.empty, rfl, rfl⟩

/-- **What is on offer is what succeeds.** While a tree is edited, an edit of any kind but two is on
offer at its target exactly if it succeeds, whatever operand it brings along. Operators and valid
aggregations succeed wherever they are on offer. Nothing is on offer at a stale path. While a tree
is only viewed nothing is on offer at all, and every edit is refused. -/
theorem offered_iff_succeeds (editor : Editor) (supply : Nat) :
    (editor.config.mode = .edit →
      (∀ intent : Intent, intent.kind ≠ .setOperator → intent.kind ≠ .commitAggregation →
        (intent.kind ∈ editor.offered intent.target ↔
          ∃ result, editor.apply intent supply = .ok result)) ∧
      (∀ path name, .setOperator ∈ editor.offered path →
        ∃ result, editor.apply (.setOperator path name) supply = .ok result) ∧
      (∀ path draft, (∃ built, draft.commit supply = .ok built) →
        .commitAggregation ∈ editor.offered path →
          ∃ result, editor.apply (.commitAggregation path draft) supply = .ok result) ∧
      ∀ path, ∀ kind ∈ editor.offered path,
        ∃ intent : Intent, intent.kind = kind ∧ intent.target = path) ∧
    (∀ path, editor.root.at? path = none → editor.offered path = []) ∧
    (editor.config.mode = .view → editor.offersEdits = false ∧
      (∀ path, editor.offered path = []) ∧
      ∀ intent, editor.apply intent supply = .error .readOnly) := by
  refine ⟨fun editing => ⟨?_, ?_, ?_, ?_⟩, ?_, fun viewing => ?_⟩
  · intro intent operator aggregation
    rw [mem_offered_iff editing, exists_apply_iff editing,
      Node.exists_reduce_iff operator aggregation]
  · intro path name offered
    obtain ⟨node, found, compound⟩ := (mem_offered_iff editing).1 offered
    exact (exists_apply_iff editing _ _).2 (Node.exists_setOperator found compound name)
  · intro path draft built offered
    obtain ⟨node, found, -⟩ := (mem_offered_iff editing).1 offered
    exact (exists_apply_iff editing _ _).2 (Node.exists_commitAggregation found built)
  · intro path kind offered
    rw [offered_of_edit editing] at offered
    exact exists_intent_of_mem offered
  · intro path stale
    have nothing : editor.root.offered path = [] := by
      unfold Node.offered
      rw [stale]
    rw [offered, nothing]
    exact ite_self _
  · have closed : editor.offersEdits = false := by
      rw [offersEdits, viewing]
      rfl
    refine ⟨closed, fun path => ?_, fun intent => ?_⟩
    · rw [offered, closed]
      rfl
    · rw [apply, if_pos viewing]
      rfl

end Editor

end RuleEditor

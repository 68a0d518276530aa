import RuleEditor.Proofs.Path.Preorder
import RuleEditor.Proofs.Path.Text
import RuleEditor.Proofs.Validation.Equality
import RuleEditor.Proofs.Validation.Entries

/-!
# Evaluation trees and annotations

An evaluation that comes as a tree is made into a response, and the response into annotations. On
the way the paths of its nodes are written as texts and read again, and errors and evaluations are
stored in tables by path.

**Nothing is lost or invented** (`EvaluationTree.annotations_ofEvaluationTree`). If the paths can be
written so that they can be read (`EvaluationTree.Addressable`), the annotations have one evaluation
for every node, at its path and in pre-order, and have at each path the errors of its node. No two
nodes are at one path, so storing a node never touches what is stored of another one.
-/

namespace RuleEditor

/-! ## Tables -/

namespace PathErrors

/-- No error that is added is lost. -/
theorem count_append (errors : PathErrors) (path : Path) (more : List EvaluationError) :
    (errors.append path more).count = errors.count + more.length := by
  have stored : (errors.append path more).values =
      (Entries.store path (errors.errorsAt path ++ more) errors.entries).map Prod.snd := rfl
  rw [count, stored, count, Keyed.values]
  cases found : errors.get? path with
  | none =>
    have new : path ∉ errors.entries.map Prod.fst := fun mem => by
      obtain ⟨list, there⟩ := Keyed.mem_keys_iff.1 mem
      cases found.symm.trans there
    rw [Entries.store_of_not_mem _ new]
    simp [errorsAt, found]
  | some list =>
    obtain ⟨before, after, split, stored⟩ := Entries.exists_append_of_get? found
    rw [stored, split]
    simp [errorsAt, found]
    omega

theorem count_addAll (errors : PathErrors) (findings : List (Path × EvaluationError)) :
    (errors.addAll findings).count = errors.count + findings.length := by
  induction findings generalizing errors with
  | nil => rfl
  | cons finding rest ih =>
    obtain ⟨path, error⟩ := finding
    show (addAll (errors.append path [error]) rest).count = _
    rw [ih, count_append, List.length_singleton, List.length_cons, Nat.add_assoc, Nat.add_comm 1]

end PathErrors

namespace EvaluationTree

open OperandTree

/-! ## The tree -/

instance : OperandTree EvaluationTree where
  children := children
  named := named
  smaller := by
    refine ⟨sizeOf, ?_⟩
    rintro ⟨returnValue, errors, children, named⟩
    refine ⟨fun child mem => ?_, ?_⟩
    · have less : sizeOf child < sizeOf children := List.sizeOf_lt_of_mem mem
      simp only [mk.sizeOf_spec]
      omega
    · rintro ⟨key, child⟩ mem
      have less : sizeOf (key, child) < sizeOf named := List.sizeOf_lt_of_mem mem
      simp only [mk.sizeOf_spec, Prod.mk.sizeOf_spec] at less ⊢
      omega

/-- What the server computed for the root of the tree. -/
def evaluation (tree : EvaluationTree) : NodeEvaluation := ⟨tree.returnValue, tree.errors⟩

mutual

/-- A number for each node, added up over the tree. -/
def total (weight : NodeEvaluation → Nat) : EvaluationTree → Nat
  | ⟨returnValue, errors, children, named⟩ =>
    weight ⟨returnValue, errors⟩ + (totalAll weight children + totalNamed weight named)

def totalAll (weight : NodeEvaluation → Nat) : List EvaluationTree → Nat
  | [] => 0
  | tree :: rest => total weight tree + totalAll weight rest

def totalNamed (weight : NodeEvaluation → Nat) : List (String × EvaluationTree) → Nat
  | [] => 0
  | (_, tree) :: rest => total weight tree + totalNamed weight rest

end

/-- Paths can tell the operands of the node apart, and can be read once they are written: positions
fit 64 bits, and no key is empty, holds a point or is repeated. -/
structure OwnAddressable (tree : EvaluationTree) : Prop where
  positions : tree.children.length ≤ UInt64.size
  keys : ∀ entry ∈ tree.named, entry.1 ≠ "" ∧ '.' ∉ entry.1.toList
  distinct : (tree.named.map Prod.fst).Nodup

/-- The path of every node can be read once it is written. -/
def Addressable (tree : EvaluationTree) : Prop := Everywhere OwnAddressable tree

variable {tree found : EvaluationTree} {path : Path}

theorem lists_walkFrom : Lists walkFrom evaluation :=
  .of_steps (fun _ tree => by cases tree; rfl) (fun _ _ => rfl) (fun _ _ _ _ => rfl) (fun _ => rfl)
    fun _ _ _ _ => rfl

theorem total_eq (weight : NodeEvaluation → Nat) (tree : EvaluationTree) :
    tree.total weight =
      weight tree.evaluation + ((operands tree).map fun entry => entry.2.total weight).sum := by
  have positions (trees : List EvaluationTree) (index : Nat) : totalAll weight trees =
      ((trees.zipIdx index).map fun entry => entry.1.total weight).sum := by
    induction trees generalizing index with
    | nil => rfl
    | cons tree rest ih => simp [totalAll, ih (index + 1), List.zipIdx_cons]
  have slots (named : List (String × EvaluationTree)) : totalNamed weight named =
      (named.map fun entry => entry.2.total weight).sum := by
    induction named with
    | nil => rfl
    | cons entry rest ih => simp [totalNamed, ih]
  obtain ⟨returnValue, errors, children, named⟩ := tree
  rw [total, positions children 0, slots]
  simp [operands, evaluation, OperandTree.children, OperandTree.named, Function.comp_def]

theorem sum_walkFrom (weight : NodeEvaluation → Nat) (tree : EvaluationTree) :
    ((walkFrom Path.root tree).map fun entry => weight entry.2).sum = tree.total weight :=
  lists_walkFrom.sum_eq (total_eq weight)

theorem Addressable.distinct (addressable : tree.Addressable) : Everywhere OwnDistinctKeys tree :=
  fun path found there => (addressable path found there).distinct

theorem Addressable.of_at? (addressable : tree.Addressable) (there : at? tree path = some found) :
    path.Addressable := by
  induction path generalizing tree with
  | nil => exact nofun
  | cons segment path ih =>
    obtain ⟨operand, step, below⟩ := Option.bind_eq_some_iff.1 there
    refine List.forall_mem_cons.2 ⟨?_, ih (Everywhere.step? addressable step) below⟩
    have own := Everywhere.own addressable
    cases segment with
    | child index =>
      have bound : index < tree.children.length := (List.getElem?_eq_some_iff.1 step).1
      exact Nat.lt_of_lt_of_le bound own.positions
    | named key => exact own.keys (key, operand) (Entries.mem_of_get? step)

/-! ## Its evaluations, one after another -/

theorem flatten_entries (addressable : tree.Addressable) :
    tree.flatten.entries = walkFrom Path.root tree :=
  Keyed.entries_ofList_of_nodup (lists_walkFrom.nodup addressable.distinct)

theorem mem_flatten_iff (addressable : tree.Addressable) {evaluation : NodeEvaluation} :
    (path, evaluation) ∈ tree.flatten.entries ↔
      ∃ found, at? tree path = some found ∧ found.evaluation = evaluation := by
  rw [flatten_entries addressable, lists_walkFrom.mem_iff addressable.distinct]
  constructor
  · rintro ⟨_, found, rfl, there, same⟩
    exact ⟨found, there, same⟩
  · rintro ⟨found, there, same⟩
    exact ⟨path, found, rfl, there, same⟩

theorem get?_flatten (addressable : tree.Addressable) (path : Path) :
    tree.flatten.get? path = (at? tree path).map evaluation := by
  ext evaluation
  rw [Keyed.get?_eq_some_iff, mem_flatten_iff addressable, Option.map_eq_some_iff]

/-- The texts of the paths are read as these paths. -/
theorem entryPath?_text {entry : Path × NodeEvaluation} (addressable : tree.Addressable)
    (mem : entry ∈ tree.flatten.entries) : entryPath? entry.1.text = some entry.1 := by
  obtain ⟨found, there, -⟩ := (mem_flatten_iff addressable).1 mem
  rw [entryPath?, Path.parse_text (addressable.of_at? there)]
  rfl

/-- The errors of all nodes with their paths. -/
def findings (tree : EvaluationTree) : List (Path × EvaluationError) :=
  tree.flatten.entries.flatMap fun entry => entry.2.errors.map (entry.1, ·)

/-- The evaluations without their errors. -/
def values (tree : EvaluationTree) : List (Path × NodeEvaluation) :=
  tree.flatten.entries.map fun entry => (entry.1, ⟨entry.2.returnValue, []⟩)

/-! ## Annotations -/

theorem foldl_storeEvaluation (addressable : tree.Addressable) :
    (Response.ofEvaluationTree tree).evaluation.foldl Response.storeEvaluation ∅ =
      Keyed.ofList tree.values := by
  rw [Response.ofEvaluationTree, values, Keyed.ofList, List.foldl_map, List.foldl_map]
  refine List.foldl_ext _ _ _ fun stored entry mem => ?_
  rw [Response.storeEvaluation, entryPath?_text addressable mem]

/-- The evaluations come without errors and join none with those that are there. -/
theorem foldl_joinEvaluation (tree : EvaluationTree) (errors : PathErrors) :
    (Response.ofEvaluationTree tree).evaluation.foldl Response.joinEvaluation errors = errors := by
  have kept (errors : PathErrors) (entry : Path × NodeEvaluation) : Response.joinEvaluation errors
      ⟨entry.1.text, ⟨entry.2.returnValue, []⟩⟩ = errors := by
    rw [Response.joinEvaluation]
    split <;> rfl
  rw [Response.ofEvaluationTree, List.foldl_map]
  induction tree.flatten.entries with
  | nil => rfl
  | cons entry rest ih => rw [List.foldl_cons, kept, ih]

theorem foldl_addError (addressable : tree.Addressable) :
    (Response.ofEvaluationTree tree).errors.foldl Response.addError ∅ =
      PathErrors.addAll ∅ tree.findings := by
  have texts : (Response.ofEvaluationTree tree).errors =
      tree.findings.map fun finding => ⟨finding.1.text, finding.2⟩ := by
    simp [Response.ofEvaluationTree, findings, List.map_flatMap, Function.comp_def]
  rw [texts, List.foldl_map, PathErrors.addAll]
  refine List.foldl_ext _ _ _ fun errors finding found => ?_
  obtain ⟨entry, mem, found⟩ := List.mem_flatMap.1 found
  obtain ⟨error, -, rfl⟩ := List.mem_map.1 found
  rw [Response.addError, entryPath?_text addressable mem]

theorem annotations_eq (addressable : tree.Addressable) :
    (Response.ofEvaluationTree tree).annotations =
      ⟨PathErrors.addAll ∅ tree.findings, Keyed.ofList tree.values⟩ := by
  rw [Response.annotations, foldl_joinEvaluation, foldl_addError addressable,
    foldl_storeEvaluation addressable]

/-- What the nodes of a list say of a path is what its one node says. -/
theorem about_flatMap_errors {entries : List (Path × NodeEvaluation)}
    (distinct : (entries.map Prod.fst).Nodup) (path : Path) :
    ((entries.flatMap fun entry => entry.2.errors.map (entry.1, ·)).filter (·.1 = path)).map
      Prod.snd = ((Entries.get? path entries).map NodeEvaluation.errors).getD [] := by
  induction entries with
  | nil => rfl
  | cons entry rest ih =>
    obtain ⟨other, evaluation⟩ := entry
    obtain ⟨new, distinct⟩ := List.nodup_cons.1 distinct
    rw [List.flatMap_cons, List.filter_append, List.map_append, ih distinct, Entries.get?]
    by_cases same : other = path
    · have unseen : Entries.get? path rest = none := by
        cases found : Entries.get? path rest with
        | none => rfl
        | some _ => exact absurd (List.mem_map_of_mem (Entries.mem_of_get? found)) (same ▸ new)
      simp [same, unseen, List.filter_map, Function.comp_def]
    · simp [same]

theorem get?_findings (addressable : tree.Addressable) (path : Path) :
    (PathErrors.addAll ∅ tree.findings).get? path =
      (at? tree path).bind fun node => if node.errors = [] then none else some node.errors := by
  have own : (PathErrors.addAll ∅ tree.findings).errorsAt path =
      ((tree.flatten.get? path).map NodeEvaluation.errors).getD [] := by
    rw [PathErrors.errorsAt_addAll]
    exact about_flatMap_errors tree.flatten.distinct path
  rw [PathErrors.get?_addAll, own, get?_flatten addressable]
  cases at? tree path <;> rfl

theorem length_findings (addressable : tree.Addressable) :
    tree.findings.length = tree.total (·.errors.length) := by
  rw [findings, List.length_flatMap, flatten_entries addressable, ← sum_walkFrom]
  simp

theorem entries_values (tree : EvaluationTree) :
    (Keyed.ofList tree.values).entries = tree.values := by
  refine Keyed.entries_ofList_of_nodup ?_
  have keys : tree.values.map Prod.fst = tree.flatten.keys := List.map_map
  exact keys ▸ tree.flatten.distinct

theorem get?_values (addressable : tree.Addressable) (path : Path) :
    (Keyed.ofList tree.values).get? path =
      (at? tree path).map fun node => ⟨node.returnValue, []⟩ := by
  ext evaluation
  rw [Keyed.get?_eq_some_iff, entries_values tree, values, List.mem_map]
  constructor
  · rintro ⟨entry, mem, same⟩
    obtain ⟨found, there, own⟩ := (mem_flatten_iff addressable).1 mem
    cases same
    rw [there, ← own]
    rfl
  · intro here
    obtain ⟨found, there, rfl⟩ := Option.map_eq_some_iff.1 here
    exact ⟨(path, found.evaluation), (mem_flatten_iff addressable).2 ⟨found, there, rfl⟩, rfl⟩

theorem keys_values (addressable : tree.Addressable) :
    (Keyed.ofList tree.values).keys = (walkFrom Path.root tree).map Prod.fst := by
  rw [Keyed.keys, entries_values tree, values, flatten_entries addressable, List.map_map]
  rfl

/-- **An evaluation tree becomes annotations without loss.** There is an evaluation for every node
and for nothing else, at the path of the node and in pre-order, with its value and without errors.
The errors at a path are those of the node there, in their order, so that there are as many errors
as the nodes have. -/
theorem annotations_ofEvaluationTree (addressable : tree.Addressable) :
    let annotations := (Response.ofEvaluationTree tree).annotations
    (∀ path, annotations.evaluations.get? path =
      (at? tree path).map fun node => ⟨node.returnValue, []⟩) ∧
    annotations.evaluations.keys.Pairwise (Before tree) ∧
    annotations.evaluations.size = tree.total (fun _ => 1) ∧
    (∀ path, annotations.errors.get? path =
      (at? tree path).bind fun node => if node.errors = [] then none else some node.errors) ∧
    annotations.errorCount = tree.total (·.errors.length) := by
  intro annotations
  have parts : annotations = _ := annotations_eq addressable
  rw [parts]
  refine ⟨get?_values addressable, ?_, ?_, get?_findings addressable, ?_⟩
  · rw [keys_values addressable, List.pairwise_map]
    refine (lists_walkFrom.pairwise_before addressable.distinct).imp ?_
    rintro entry other ⟨first, second, one, two, before⟩
    rw [one, two]
    exact before
  · have listed := congrArg List.length (keys_values addressable)
    rw [Keyed.keys, List.length_map, List.length_map] at listed
    rw [Keyed.size, listed, ← sum_walkFrom]
    simp
  · have counted := PathErrors.count_addAll ∅ tree.findings
    rw [length_findings addressable] at counted
    exact counted.trans (Nat.zero_add _)

/-- A node that has an error twice, above one that has it too and a named one without errors. -/
theorem annotations_ofEvaluationTree_repeated :
    let error : EvaluationError := .ofCode .argumentRequired
    let operand : EvaluationTree := ⟨none, [error], [], []⟩
    let slot : EvaluationTree := ⟨some (.bool true), [], [], []⟩
    let tree : EvaluationTree := ⟨some .null, [error, error], [operand], [("filter", slot)]⟩
    let annotations := (Response.ofEvaluationTree tree).annotations
    tree.Addressable ∧ annotations.errorCount = 3 ∧ annotations.evaluations.size = 3 ∧
      annotations.errors.get? Path.root = some [error, error] ∧
      annotations.errors.get? [.named "filter"] = none ∧
      annotations.evaluations.get? [.named "filter"] = some ⟨some (.bool true), []⟩ := by
  intro error operand slot tree annotations
  have leaf (returnValue : Option Json) (errors : List EvaluationError) :
      Addressable ⟨returnValue, errors, [], []⟩ :=
    everywhere_of_operands ⟨Nat.zero_le _, nofun, List.nodup_nil⟩ nofun nofun
  have own : tree.OwnAddressable := ⟨by decide, by decide +kernel, by decide +kernel⟩
  have addressable : tree.Addressable :=
    everywhere_of_operands own (List.forall_mem_singleton.2 (leaf none [error]))
      (List.forall_mem_singleton.2 (leaf (some (.bool true)) []))
  obtain ⟨evaluations, -, size, errors, count⟩ := annotations_ofEvaluationTree addressable
  exact ⟨addressable, count, size, errors _, (errors _).trans (by rfl), (evaluations _).trans rfl⟩

end EvaluationTree

end RuleEditor

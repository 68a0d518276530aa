import RuleEditor.Proofs.Node.Equal
import RuleEditor.Proofs.Validation.Locality

/-!
# Local validation of trees that say the same

**One path.** The errors of a path are found by the root check, by the node above the path and by
the node at the path, in this order (`Node.about_walkFindings_cons`). In a tree without repeated
keys no other node finds any, so the order in which the walk meets the named operands of a node does
not matter: what it finds about a path it finds on the way to it.

**Equality** (`Node.get?_validateLocal_of_equal`). Trees that say the same agree on every segment of
the way, and the checks tell no literal from one that is equal to it.
-/

namespace RuleEditor

/-! ## Tables -/

namespace PathErrors

/-- A table that findings are added to keeps no path without errors. -/
theorem ne_nil_of_get?_addAll {findings : List (Path × EvaluationError)} {errors : PathErrors}
    (full : ∀ path list, errors.get? path = some list → list ≠ []) :
    ∀ path list, (errors.addAll findings).get? path = some list → list ≠ [] := by
  induction findings generalizing errors with
  | nil => exact full
  | cons finding rest ih =>
    obtain ⟨other, error⟩ := finding
    show ∀ path list, (addAll (errors.append other [error]) rest).get? path = some list → list ≠ []
    refine ih fun path list stored => ?_
    rw [append, Keyed.get?_insert] at stored
    split at stored
    · cases stored
      exact List.append_ne_nil_of_right_ne_nil _ (List.cons_ne_nil error [])
    · exact full path list stored

/-- A path is in the table of some findings exactly if it has errors. -/
theorem get?_addAll (findings : List (Path × EvaluationError)) (path : Path) :
    (addAll ∅ findings).get? path =
      if (addAll ∅ findings).errorsAt path = [] then none
      else some ((addAll ∅ findings).errorsAt path) := by
  rw [errorsAt]
  cases stored : (addAll ∅ findings).get? path with
  | none => rfl
  | some list =>
    have empty (path : Path) (list : List EvaluationError)
        (stored : (∅ : PathErrors).get? path = some list) : list ≠ [] := by cases stored
    have full : list ≠ [] := ne_nil_of_get?_addAll empty path list stored
    exact (if_neg full).symm

end PathErrors

/-! ## What is found on the way to a path -/

namespace Node

variable {node other operand : Node} {context : Option Context} {base below place : Path}
  {segment : Segment}

theorem about_flatMap_of_apart {operands : List (Segment × Node)}
    (apart : ∀ entry ∈ operands, ¬ base ++ [entry.1] <+: place) :
    about place (operands.flatMap fun entry => entry.2.walkFindings context (base ++ [entry.1])) =
      [] := by
  refine about_eq_nil fun finding found same => ?_
  obtain ⟨entry, mem, found⟩ := List.mem_flatMap.1 found
  exact apart entry mem (same ▸ prefix_of_mem_walkFindings found)

/-- Only the node itself finds errors about its own path. -/
theorem about_walkFindings_self (context : Option Context) (base : Path) (node : Node) :
    about base (node.walkFindings context base) = about base (node.nodeFindings context base) := by
  have apart : ∀ entry ∈ node.operands, ¬ base ++ [entry.1] <+: base := by
    intro entry mem within
    have longer := within.length_le
    simp at longer
  rw [walkFindings_eq, about_append, about_flatMap_of_apart apart, List.append_nil]

/-- **About a path below it, a node finds errors first, and then the operand that the path leads
through does.** -/
theorem about_walkFindings_cons (distinct : node.OwnDistinctKeys) (context : Option Context)
    (base below : Path) (segment : Segment) :
    about (base ++ segment :: below) (node.walkFindings context base) =
      about (base ++ segment :: below) (node.nodeFindings context base) ++
        ((node.step? segment).map fun operand =>
          about (base ++ segment :: below)
            (operand.walkFindings context (base ++ [segment]))).getD [] := by
  have apart {entry : Segment × Node} (differs : entry.1 ≠ segment) :
      ¬ base ++ [entry.1] <+: base ++ segment :: below := by
    rw [List.prefix_append_right_inj]
    exact fun within => differs (List.cons_prefix_cons.1 within).1
  rw [walkFindings_eq, about_append]
  congr 1
  cases step : node.step? segment with
  | none =>
    refine about_flatMap_of_apart fun entry mem => apart fun same => ?_
    have there := (mem_operands_iff distinct).1 mem
    rw [same, step] at there
    cases there
  | some operand =>
    obtain ⟨before, after, split, -⟩ := exists_operands_setStep step
    have nodup := nodup_operands distinct
    rw [split, List.map_append, List.map_cons, List.nodup_middle, List.nodup_cons,
      ← List.map_append] at nodup
    have others : ∀ entry ∈ before ++ after, entry.1 ≠ segment := fun entry mem same =>
      nodup.1 (List.mem_map.2 ⟨entry, mem, same⟩)
    have first : ∀ entry ∈ before, ¬ base ++ [entry.1] <+: base ++ segment :: below :=
      fun entry mem => apart (others entry (List.mem_append_left after mem))
    have last : ∀ entry ∈ after, ¬ base ++ [entry.1] <+: base ++ segment :: below :=
      fun entry mem => apart (others entry (List.mem_append_right before mem))
    rw [split, List.flatMap_append, List.flatMap_cons, about_append, about_append,
      about_flatMap_of_apart first, about_flatMap_of_apart last, List.append_nil]
    rfl

/-! ## Trees that say the same -/

theorem strings_of_equal (same : operand.equal other = true) : operand.strings = other.strings := by
  have related := Constant.rel_of_equalOptional (name_of_equal same).2
  rw [strings, strings]
  generalize operand.constant = literal at related
  generalize other.constant = literal' at related
  cases related with
  | none => rfl
  | @some value value' equal =>
    cases value with
    | list items =>
      cases value' with
      | list others => exact Constant.filterMap_string?_of_equalAll equal
      | _ => cases equal
    | _ =>
      cases value' with
      | list others => cases equal
      | _ => rfl

/-- The checks tell no operand from one that says the same. -/
theorem LooksLike.of_equal (same : operand.equal other = true) : operand.LooksLike other where
  name := (name_of_equal same).1
  string := Option.Rel.bind_eq (Constant.rel_of_equalOptional (name_of_equal same).2)
    fun _ _ => Constant.string?_of_equal
  strings := strings_of_equal same

theorem resembles_of_equal (same : node.equal other = true) (distinct : node.OwnDistinctKeys) :
    node.Resembles other where
  name := (name_of_equal same).1
  operands := by
    intro segment
    have related := step?_of_equal same distinct segment
    generalize node.step? segment = operand at related
    generalize other.step? segment = operand' at related
    cases related with
    | some equal => exact .some (.of_equal equal)
    | none => exact .none

/-- **Trees that say the same get the same findings at every path**, whatever the order in which
their named operands stand. -/
theorem about_walkFindings_of_equal (same : node.equal other = true)
    (distinct : node.Everywhere OwnDistinctKeys) (distinct' : other.Everywhere OwnDistinctKeys)
    (base below : Path) :
    about (base ++ below) (node.walkFindings context base) =
      about (base ++ below) (other.walkFindings context base) := by
  induction below generalizing node other base with
  | nil =>
    have own := (everywhere_iff.1 distinct).1
    rw [List.append_nil, about_walkFindings_self, about_walkFindings_self,
      (resembles_of_equal same own).nodeFindings_eq]
  | cons segment below ih =>
    have own := (everywhere_iff.1 distinct).1
    have own' := (everywhere_iff.1 distinct').1
    rw [about_walkFindings_cons own, about_walkFindings_cons own',
      (resembles_of_equal same own).nodeFindings_eq]
    congr 1
    have related := step?_of_equal same own segment
    have everywhere (operand : Node) (step : node.step? segment = some operand) :
        operand.Everywhere OwnDistinctKeys := distinct.step? step
    have everywhere' (operand : Node) (step : other.step? segment = some operand) :
        operand.Everywhere OwnDistinctKeys := distinct'.step? step
    generalize node.step? segment = operand at related everywhere
    generalize other.step? segment = operand' at related everywhere'
    cases related with
    | none => rfl
    | @some operand operand' equal =>
      have later := ih equal (everywhere operand rfl) (everywhere' operand' rfl) (base ++ [segment])
      rw [List.append_assoc] at later
      exact later

/-- **Local validation sees no more of a tree than what it says.** -/
theorem get?_validateLocal_of_equal (node other : Node) (kind : RootKind)
    (context : Option Context) (distinct : node.DistinctKeys) (distinct' : other.DistinctKeys)
    (same : node.equal other = true) (path : Path) :
    (node.validateLocal kind context).get? path = (other.validateLocal kind context).get? path := by
  rw [distinctKeys_iff] at distinct distinct'
  have own := (everywhere_iff.1 distinct).1
  have errors : (node.validateLocal kind context).errorsAt path =
      (other.validateLocal kind context).errorsAt path := by
    rw [errorsAt_validateLocal, errorsAt_validateLocal,
      (resembles_of_equal same own).rootFindings_eq]
    have below : about path (node.walkFindings context []) =
        about path (other.walkFindings context []) :=
      about_walkFindings_of_equal same distinct distinct' [] path
    rw [below]
  rw [validateLocal, validateLocal, PathErrors.get?_addAll, PathErrors.get?_addAll]
  rw [validateLocal, validateLocal] at errors
  rw [errors]

/-- The same filter, with its table and its value written in either order and its zero with either
sign. Its two errors are found in different orders. -/
theorem get?_validateLocal_of_equal_filter :
    let compared (id : Nat) (negative : Bool) : Node :=
      ⟨id, .function Name.equal, none,
        [⟨id + 1, .undefined, none, [], []⟩,
          ⟨id + 2, .constant, some (.float ⟨negative, 0⟩), [], []⟩], []⟩
    let text (id : Nat) (value : String) : Node := ⟨id, .constant, some (.string value), [], []⟩
    let one : Node := ⟨0, .function Name.filter, none, [],
      [(Slot.tableName, compared 1 false), (Slot.operator, text 4 Name.equal),
        (Slot.fieldName, text 5 "owner"), (Slot.value, compared 6 true)]⟩
    let other : Node := ⟨9, .function Name.filter, none, [],
      [(Slot.value, compared 10 false), (Slot.fieldName, text 13 "owner"),
        (Slot.operator, text 14 Name.equal), (Slot.tableName, compared 15 false)]⟩
    let inTable : Path := [.named Slot.tableName, .child 0]
    let inValue : Path := [.named Slot.value, .child 0]
    one.equal other = true ∧ one.DistinctKeys ∧ other.DistinctKeys ∧
      (one.validateLocal .rule none).keys = [inTable, inValue] ∧
      (other.validateLocal .rule none).keys = [inValue, inTable] ∧
      ∀ path, (one.validateLocal .rule none).get? path =
        (other.validateLocal .rule none).get? path := by
  intro compared text one other inTable inValue
  have same : one.equal other = true := by decide +kernel
  have distinct : one.DistinctKeys := by
    simp [one, compared, text, DistinctKeys, DistinctKeysAll, DistinctKeysNamed, Slot.tableName,
      Slot.operator, Slot.fieldName, Slot.value]
  have distinct' : other.DistinctKeys := by
    simp [other, compared, text, DistinctKeys, DistinctKeysAll, DistinctKeysNamed, Slot.tableName,
      Slot.operator, Slot.fieldName, Slot.value]
  exact ⟨same, distinct, distinct', by decide +kernel, by decide +kernel,
    get?_validateLocal_of_equal one other .rule none distinct distinct' same⟩

end Node

end RuleEditor

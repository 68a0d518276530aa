import RuleEditor.Proofs.Validation.Annotations
import RuleEditor.Validation.Local

/-!
# What local validation finds

**Tables.** The errors that a table shows at a path are the findings about that path.

**Checks.** For each check there is one lemma that says where its findings are, what is wrong there,
and with which codes. Each check has codes of its own, so that the code of a finding tells which
check made it.
-/

namespace RuleEditor

/-! ## Tables -/

namespace PathErrors

theorem errorsAt_append (errors : PathErrors) (path other : Path) (more : List EvaluationError) :
    (errors.append path more).errorsAt other =
      errors.errorsAt other ++ if path = other then more else [] := by
  rw [append, errorsAt_insert]
  split
  · next same => rw [same]
  · exact (List.append_nil _).symm

/-- **A path has the errors that were added for it, in the order in which they were added.** -/
theorem errorsAt_addAll (errors : PathErrors) (findings : List (Path × EvaluationError))
    (path : Path) :
    (errors.addAll findings).errorsAt path =
      errors.errorsAt path ++ (findings.filter (·.1 = path)).map Prod.snd := by
  induction findings generalizing errors with
  | nil => exact (List.append_nil _).symm
  | cons finding rest ih =>
    obtain ⟨other, error⟩ := finding
    show (addAll (errors.append other [error]) rest).errorsAt path = _
    rw [ih, errorsAt_append, List.append_assoc]
    congr 1
    by_cases same : other = path <;> simp [same]

end PathErrors

namespace Node

variable {node root : Node} {context : Option Context} {path : Path} {name : String}
  {finding : Finding}

/-- **Every error in the table of local errors was found, and all that is found is in it.** -/
theorem mem_errorsAt_validateLocal {kind : RootKind} {error : EvaluationError} :
    error ∈ (root.validateLocal kind context).errorsAt path ↔
      (path, error) ∈ root.findings kind context := by
  rw [validateLocal, PathErrors.errorsAt_addAll]
  simp [PathErrors.errorsAt, List.mem_filter]

/-! ## Checks -/

theorem of_mem_rootFindings {kind : RootKind} (found : finding ∈ root.rootFindings kind) :
    finding.1 = Path.root ∧
      (finding.2.code = .rootShapeUnresolved ∨ finding.2.code = .argumentRequired) := by
  cases kind with
  | trigger =>
    rw [rootFindings] at found
    split at found
    · cases found
    · cases List.mem_singleton.1 found
      exact ⟨rfl, Or.inl rfl⟩
  | rule =>
    rw [rootFindings] at found
    split at found
    · cases List.mem_singleton.1 found
      exact ⟨rfl, Or.inr rfl⟩
    · cases found

theorem of_mem_arityFindings (found : finding ∈ node.arityFindings path name) :
    finding.1 = path ∧ finding.2.code = .wrongNumberOfArguments := by
  rw [arityFindings] at found
  split at found
  · split at found
    · cases found
    · cases List.mem_singleton.1 found
      exact ⟨rfl, rfl⟩
  · cases found

theorem of_mem_operandFindings {index : Nat} {operands : List Node}
    (found : finding ∈ operandFindings path index operands) :
    ∃ position operand, operands[position]? = some operand ∧ operand.isUndefined = true ∧
      finding.1 = path.child (index + position) ∧ finding.2.code = .argumentRequired := by
  induction operands generalizing index with
  | nil => cases found
  | cons operand rest ih =>
    rw [operandFindings, List.mem_append] at found
    rcases found with here | later
    · split at here
      · next undefined =>
        cases List.mem_singleton.1 here
        exact ⟨0, operand, rfl, undefined, rfl, rfl⟩
      · cases here
    · obtain ⟨position, other, there, undefined, place, code⟩ := ih later
      refine ⟨position + 1, other, there, undefined, ?_, code⟩
      rw [place, Nat.add_right_comm, Nat.add_assoc]

theorem of_mem_slotFindings {slot : String} (found : finding ∈ node.slotFindings path name slot) :
    (node.slot? slot = none ∧ finding.1 = path ∧ finding.2.code = .missingNamedArgument) ∨
      ∃ operand, node.slot? slot = some operand ∧ operand.isUndefined = true ∧
        finding.1 = path.named slot ∧ finding.2.code = .argumentRequired := by
  rw [slotFindings] at found
  split at found
  · cases found
  split at found
  · next missing =>
    cases List.mem_singleton.1 found
    exact Or.inl ⟨missing, rfl, rfl⟩
  · next operand there =>
    split at found
    · next undefined =>
      cases List.mem_singleton.1 found
      exact Or.inr ⟨operand, there, undefined, rfl, rfl⟩
    · cases found

theorem of_mem_aggregatorFindings (found : finding ∈ node.aggregatorFindings path name) :
    name = Name.aggregation ∧
      ∃ operand, node.slot? Slot.aggregator = some operand ∧ operand.string?.isSome = true ∧
        finding.1 = path.named Slot.aggregator ∧ finding.2.code = .argumentInvalidType := by
  rw [aggregatorFindings] at found
  split at found
  · next aggregation =>
    split at found
    · next aggregator chosen =>
      split at found
      · cases found
      · cases List.mem_singleton.1 found
        obtain ⟨operand, there, string⟩ := Option.bind_eq_some_iff.1 chosen
        exact ⟨aggregation, operand, there, Option.isSome_of_eq_some string, rfl, rfl⟩
    · cases found
  · cases found

/-- A reference that is not known is found at the node that has it. -/
theorem of_mem_referenceFindings {known : Context}
    (found : finding ∈ node.referenceFindings known path name) :
    finding.1 = path ∧ (finding.2.code = .payloadFieldNotFound ∨
      finding.2.code = .databaseAccessNotFound ∨ finding.2.code = .listNotFound) := by
  simp only [referenceFindings] at found
  split at found
  · split at found
    · split at found
      · cases found
      · cases List.mem_singleton.1 found
        exact ⟨rfl, Or.inl rfl⟩
    · cases found
  split at found
  · split at found
    · split at found
      · cases found
      · cases List.mem_singleton.1 found
        exact ⟨rfl, Or.inr (Or.inl rfl)⟩
    · cases found
  split at found
  · split at found
    · split at found
      · cases found
      · cases List.mem_singleton.1 found
        exact ⟨rfl, Or.inr (Or.inr rfl)⟩
    · cases found
  · cases found

/-- **Which checks a node is given.** Only operators and functions are checked, and what they refer
to only in a context that is not empty. -/
theorem mem_nodeFindings_iff :
    finding ∈ node.nodeFindings context path ↔ ∃ name, node.function? = some name ∧
      (finding ∈ node.arityFindings path name ∨
        finding ∈ operandFindings path 0 node.children ∨
        (∃ slot ∈ Name.requiredSlots name, finding ∈ node.slotFindings path name slot) ∨
        finding ∈ node.aggregatorFindings path name ∨
        ∃ known, context = some known ∧ known.isEmpty = false ∧
          finding ∈ node.referenceFindings known path name) := by
  rw [nodeFindings]
  cases node.function? with
  | none => simp
  | some name =>
    simp only [List.mem_append, List.mem_flatMap, or_assoc, Option.some.injEq, exists_eq_left']
    refine or_congr_right (or_congr_right (or_congr_right (or_congr_right ?_)))
    cases context with
    | none => simp
    | some known => cases empty : known.isEmpty <;> simp [Option.filter, empty]

/-- What the checks of the node at `path` find, where, and with which code. -/
inductive Complaint (node : Node) (path : Path) (name : String) (finding : Finding) : Prop
  | arity (found : finding ∈ node.arityFindings path name) (place : finding.1 = path)
      (code : finding.2.code = .wrongNumberOfArguments)
  | operand {index : Nat} {operand : Node} (there : node.children[index]? = some operand)
      (undefined : operand.isUndefined = true) (place : finding.1 = path.child index)
      (code : finding.2.code = .argumentRequired)
  | missing {slot : String} (none : node.slot? slot = none) (place : finding.1 = path)
      (code : finding.2.code = .missingNamedArgument)
  | slot {slot : String} {operand : Node} (there : node.slot? slot = some operand)
      (undefined : operand.isUndefined = true) (place : finding.1 = path.named slot)
      (code : finding.2.code = .argumentRequired)
  | aggregator {operand : Node} (there : node.slot? Slot.aggregator = some operand)
      (string : operand.string?.isSome = true) (place : finding.1 = path.named Slot.aggregator)
      (code : finding.2.code = .argumentInvalidType)
  | reference (place : finding.1 = path) (code : finding.2.code = .payloadFieldNotFound ∨
      finding.2.code = .databaseAccessNotFound ∨ finding.2.code = .listNotFound)

theorem exists_complaint (found : finding ∈ node.nodeFindings context path) :
    ∃ name, node.function? = some name ∧ node.Complaint path name finding := by
  obtain ⟨name, function, found⟩ := mem_nodeFindings_iff.1 found
  refine ⟨name, function, ?_⟩
  rcases found with arity | operand | ⟨slot, -, missing⟩ | aggregator | ⟨known, -, -, reference⟩
  · obtain ⟨place, code⟩ := of_mem_arityFindings arity
    exact .arity arity place code
  · obtain ⟨index, operand, there, undefined, place, code⟩ := of_mem_operandFindings operand
    rw [Nat.zero_add] at place
    exact .operand there undefined place code
  · rcases of_mem_slotFindings missing with ⟨none, place, code⟩ | ⟨_, there, undefined, place, code⟩
    · exact .missing none place code
    · exact .slot there undefined place code
  · obtain ⟨-, operand, there, string, place, code⟩ := of_mem_aggregatorFindings aggregator
    exact .aggregator there string place code
  · obtain ⟨place, code⟩ := of_mem_referenceFindings reference
    exact .reference place code

/-- A wrong number of operands is found by the check of that number and by no other one. -/
theorem mem_nodeFindings_wrongNumber_iff (code : finding.2.code = .wrongNumberOfArguments) :
    finding ∈ node.nodeFindings context path ↔
      ∃ name, node.function? = some name ∧ finding ∈ node.arityFindings path name := by
  constructor
  · intro found
    obtain ⟨name, function, complaint⟩ := exists_complaint found
    cases complaint with
    | arity found => exact ⟨name, function, found⟩
    | _ => simp_all
  · rintro ⟨name, function, found⟩
    exact mem_nodeFindings_iff.2 ⟨name, function, Or.inl found⟩

end Node

end RuleEditor

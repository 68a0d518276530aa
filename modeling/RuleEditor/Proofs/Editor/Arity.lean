import RuleEditor.Proofs.Aggregation.Reading
import RuleEditor.Proofs.Editor.Merging
import RuleEditor.Proofs.Editor.Reduction
import RuleEditor.Proofs.Node.Everywhere
import RuleEditor.Proofs.Validation.Findings

/-!
# Numbers of operands

**Legal trees.** A tree is legal (`Node.ArityLegal`) if each operator and function in it has as many
positional operands as its name fixes. These are the trees in which local validation finds no wrong
number of operands (`Node.arityLegal_iff`).

**The invariant.** An edit replaces one node of the tree. The number of operands of the nodes above
stays what it is, so all that has to be checked is the node that is put in: it comes with the edit,
or it is made of a node of the tree in a way that respects the number that its name fixes.
-/

namespace RuleEditor

namespace Node

variable {node operand root updated : Node} {path : Path} {name : String} {next rest : Nat}

/-! ## Legal trees -/

/-- The node has as many positional operands as its name fixes. -/
def HasArity (node : Node) : Prop :=
  ∀ name count, node.function? = some name → Name.arity name = .fixed count →
    node.children.length = count

/-- Every node of the tree has as many positional operands as its name fixes. -/
def ArityLegal (root : Node) : Prop := root.Everywhere HasArity

theorem arityFindings_eq_nil_iff :
    node.arityFindings path name = [] ↔
      ∀ count, Name.arity name = .fixed count → node.children.length = count := by
  rw [arityFindings]
  split
  · next count fixed => simp [fixed]
  · next other => exact iff_of_true rfl fun count fixed => absurd fixed (other count)

/-- **Legal trees are those in which no wrong number of operands is found.** -/
theorem arityLegal_iff (kind : RootKind) (context : Option Context) :
    root.ArityLegal ↔ ∀ path, ∀ error ∈ (root.validateLocal kind context).errorsAt path,
      error.code ≠ .wrongNumberOfArguments := by
  rw [ArityLegal, everywhere_iff_walk]
  simp only [mem_errorsAt_validateLocal, findings, List.mem_append, List.mem_flatMap]
  constructor
  · rintro legal path error (shape | ⟨entry, listed, found⟩) code
    · rcases (of_mem_rootFindings shape).2 with other | other <;> cases code.symm.trans other
    · obtain ⟨name, function, found⟩ := (mem_nodeFindings_wrongNumber_iff code).1 found
      rw [arityFindings_eq_nil_iff.2 fun count => legal entry listed name count function] at found
      cases found
  · intro silent entry listed name count function fixed
    have none : entry.2.arityFindings entry.1 name = [] := by
      refine List.eq_nil_iff_forall_not_mem.2 fun finding found => ?_
      have code := (of_mem_arityFindings found).2
      refine silent finding.1 finding.2 (Or.inr ⟨entry, listed, ?_⟩) code
      exact (mem_nodeFindings_wrongNumber_iff code).2 ⟨name, function, found⟩
    exact arityFindings_eq_nil_iff.1 none count fixed

/-! ## New nodes -/

theorem hasArity_of_variadic (variadic : node.isVariadic = true) : node.HasArity := by
  intro name count function fixed
  rw [isVariadic, function] at variadic
  cases fixed.symm.trans (of_decide_eq_true variadic)

theorem hasArity_of_fixed {count : Nat} (function : node.name = .function name)
    (known : Name.arity name = .fixed count) (length : node.children.length = count) :
    node.HasArity := by
  intro other count' function' fixed
  rw [function?, function] at function'
  cases function'
  cases known.symm.trans fixed
  exact length

/-- A name that fixes no number of operands. -/
theorem hasArity_of_arity {arity : Arity} (function : node.name = .function name)
    (known : Name.arity name = arity) (free : ∀ count, arity ≠ .fixed count) : node.HasArity := by
  intro other count function' fixed
  rw [function?, function] at function'
  cases function'
  exact absurd (known.symm.trans fixed) (free count)

/-- Replacing an operand leaves the number of operands as it is. -/
theorem HasArity.setStep (legal : node.HasArity) (operand : Node) (segment : Segment) :
    (node.setStep operand segment).HasArity := by
  intro name count function fixed
  cases segment with
  | child index =>
    show (node.children.set index operand).length = count
    rw [List.length_set]
    exact legal name count function fixed
  | named key => exact legal name count function fixed

theorem ArityLegal.put? {new : Node} (legal : root.ArityLegal) (newLegal : new.ArityLegal)
    (put : root.put? new path = some updated) : updated.ArityLegal :=
  Everywhere.put? (fun _ operand segment own => own.setStep operand segment) legal newLegal put

theorem ArityLegal.children (legal : node.ArityLegal) : ∀ child ∈ node.children, child.ArityLegal :=
  (everywhere_iff.1 legal).2.1

theorem yields_undefined_arityLegal : undefined.Yields ArityLegal := yields_undefined nofun

/-- Placeholders for missing operands: as many as are asked for. -/
theorem yields_blanks (count : Nat) :
    (blanks count).Yields fun missing =>
      missing.length = count ∧ ∀ blank ∈ missing, blank.ArityLegal := by
  induction count with
  | zero => exact Fresh.yields_pure ⟨rfl, nofun⟩
  | succ count ih =>
    refine yields_undefined_arityLegal.bind fun blank legal => ih.bind fun rest known => ?_
    refine Fresh.yields_pure ⟨congrArg (· + 1) known.1, ?_⟩
    exact List.forall_mem_cons.2 ⟨legal, known.2⟩

theorem arity_of_isBinary (binary : Name.isBinary name = true) : Name.arity name = .fixed 2 :=
  if_pos binary

theorem yields_binary {left right : Node} (operator : Name.isBinary name = true)
    (leftLegal : left.ArityLegal) (rightLegal : right.ArityLegal) :
    (binary name left right).Yields ArityLegal := by
  refine yields_apply (fun id => hasArity_of_fixed rfl (arity_of_isBinary operator) rfl) ?_
  exact List.forall_mem_cons.2 ⟨leftLegal, List.forall_mem_singleton.2 rightLegal⟩

theorem yields_emptyCondition : emptyCondition.Yields ArityLegal :=
  yields_undefined_arityLegal.bind fun _ leftLegal =>
    yields_undefined_arityLegal.bind fun _ rightLegal =>
      yields_binary (by decide) leftLegal rightLegal

/-! ## Changed nodes -/

theorem yields_withOperator (legal : node.ArityLegal) (name : String) :
    (node.withOperator name).Yields ArityLegal := by
  rw [withOperator]
  split
  · next count fixed =>
    refine (yields_blanks _).bind fun missing known => Fresh.yields_pure ?_
    refine everywhere_iff.2 ⟨hasArity_of_fixed rfl fixed ?_, ?_, (everywhere_iff.1 legal).2.2⟩
    · show (node.children.take count ++ missing).length = count
      rw [List.length_append, List.length_take, known.1]
      omega
    · refine List.forall_mem_append.2 ⟨fun child mem => ?_, known.2⟩
      exact legal.children child (List.mem_of_mem_take mem)
  · next other =>
    have own : (node.renamed name).HasArity := hasArity_of_arity rfl rfl other
    exact Fresh.yields_pure (everywhere_iff.2 ⟨own, (everywhere_iff.1 legal).2⟩)

/-- A node with any number of operands may get and lose some. -/
theorem ArityLegal.withAny {children : List Node} (legal : node.ArityLegal)
    (variadic : node.isVariadic = true) (below : ∀ child ∈ children, child.ArityLegal) :
    ArityLegal { node with children := children } :=
  everywhere_iff.2 ⟨hasArity_of_variadic variadic, below, (everywhere_iff.1 legal).2.2⟩

theorem ArityLegal.push (legal : node.ArityLegal) (variadic : node.isVariadic = true)
    (operandLegal : operand.ArityLegal) : (node.push operand).ArityLegal :=
  legal.withAny variadic
    (List.forall_mem_append.2 ⟨legal.children, List.forall_mem_singleton.2 operandLegal⟩)

/-- Any node may get another operand in the place of one. -/
theorem ArityLegal.set (legal : node.ArityLegal) (operandLegal : operand.ArityLegal) (index : Nat) :
    ArityLegal { node with children := node.children.set index operand } :=
  have own := HasArity.setStep (everywhere_iff.1 legal).1 operand (.child index)
  Everywhere.setStep own legal operandLegal

theorem isBinary_of_isBinaryLine (line : node.isBinaryLine = true)
    (function : node.function? = some name) : Name.isBinary name = true := by
  rw [isBinaryLine, function] at line
  simp only [Option.any_some, Bool.and_eq_true] at line
  exact line.1.1

theorem yields_nest? (legal : node.ArityLegal) :
    node.nest?.Yields fun nested? => ∀ nested, nested? = some nested → nested.ArityLegal := by
  rw [nest?]
  split
  · next operator right line function found =>
    refine yields_undefined_arityLegal.bind fun blank blankLegal => ?_
    have operator := isBinary_of_isBinaryLine line function
    have rightLegal := legal.children right (List.mem_of_getElem? found)
    refine (yields_binary operator rightLegal blankLegal).bind fun group groupLegal => ?_
    refine Fresh.yields_pure fun nested eq => ?_
    cases eq
    exact legal.set groupLegal 1
  · exact Fresh.yields_none

theorem ArityLegal.unnest? {unnested : Node} (legal : node.ArityLegal)
    (unnest : node.unnest? = some unnested) : unnested.ArityLegal := by
  obtain ⟨right, found, unnest⟩ := Option.bind_eq_some_iff.1 unnest
  obtain ⟨inner, below, unnest⟩ := Option.bind_eq_some_iff.1 unnest
  split at unnest
  · cases unnest
    have rightLegal := legal.children right (List.mem_of_getElem? found)
    exact legal.set (rightLegal.children inner (List.mem_of_getElem? below)) 1
  · cases unnest

/-! ## Branches -/

theorem isVariadic_of_applies (applies : node.applies name = true)
    (variadic : Name.arity name = .variadic) : node.isVariadic = true := by
  have function : node.name = .function name := of_decide_eq_true applies
  rw [isVariadic, function?, function]
  exact decide_eq_true variadic

theorem isVariadic_of_isOrOfAnd (shape : root.isOrOfAnd = true) :
    root.isVariadic = true ∧ ∀ branch ∈ root.children, branch.isVariadic = true := by
  rw [isOrOfAnd, Bool.and_eq_true, List.all_eq_true] at shape
  exact ⟨isVariadic_of_applies shape.1 (by decide),
    fun branch mem => isVariadic_of_applies (shape.2 branch mem) (by decide)⟩

theorem yields_addOrBranch? (legal : root.ArityLegal) :
    root.addOrBranch?.Yields fun added => ∀ updated, added = some updated → updated.ArityLegal := by
  rw [addOrBranch?]
  split
  · next shape =>
    refine yields_emptyCondition.bind fun condition conditionLegal => ?_
    have branchLegal : (apply Name.and [condition]).Yields ArityLegal :=
      yields_apply
        (fun _ => hasArity_of_arity rfl (by decide : Name.arity Name.and = .variadic) nofun)
        (List.forall_mem_singleton.2 conditionLegal)
    refine branchLegal.bind fun branch branchLegal => Fresh.yields_pure fun updated eq => ?_
    cases eq
    exact legal.push (isVariadic_of_isOrOfAnd shape).1 branchLegal
  · exact Fresh.yields_none

theorem yields_addAndCondition? (legal : root.ArityLegal) (index : Nat) :
    (root.addAndCondition? index).Yields fun added =>
      ∀ updated, added = some updated → updated.ArityLegal := by
  rw [addAndCondition?]
  split
  · next branch shape found =>
    refine yields_emptyCondition.bind fun condition conditionLegal => ?_
    refine Fresh.yields_pure fun updated eq => ?_
    cases eq
    have mem : branch ∈ root.children := List.mem_of_getElem? found
    have variadic := (isVariadic_of_isOrOfAnd shape).2 branch mem
    exact legal.set ((legal.children branch mem).push variadic conditionLegal) index
  · exact Fresh.yields_none

end Node

/-! ## Aggregations -/

theorem Node.hasArity_part (id : Nat) (part : Option String) : (Node.part id part).HasArity := by
  intro name count function
  cases part <;> cases function

open Node in
/-- The node of an aggregation is legal if the values of its filters are. -/
theorem Aggregation.yields_toNode {aggregation : Aggregation}
    (legal : ∀ row ∈ aggregation.filters, row.value.ArityLegal) :
    aggregation.toNode.Yields ArityLegal := by
  intro next
  have written := aggregation.yields_written next
  have own : HasArity (aggregation.toNode next).1 :=
    hasArity_of_arity written.name (by decide : Name.arity Name.aggregation = .unchecked) nofun
  have list (id : Nat) (nodes : List Node) : HasArity ⟨id, .function Name.list, none, nodes, []⟩ :=
    hasArity_of_arity rfl (by decide : Name.arity Name.list = .variadic) nofun
  have form (row : FilterRow) (node : Node) (written : row.Written node) : node.HasArity :=
    hasArity_of_arity written.name (by decide : Name.arity Name.filter = .unchecked) nofun
  have everywhere := written.everywhere_iff hasArity_part (fun id nodes _ => list id nodes)
    fun row node written => iff_true_intro (form row node written)
  exact everywhere.2 ⟨own, fun row mem => ⟨trivial, legal row mem⟩⟩

/-! ## Edits -/

/-- The nodes that come with the edit are legal. -/
def Intent.ArityLegal : Intent → Prop
  | .setOperand _ node => node.ArityLegal
  | .appendChild _ node => node.ArityLegal
  | .commitAggregation _ draft => ∀ row ∈ draft.current.filters, row.value.ArityLegal
  | _ => True

namespace Node

variable {root updated : Node} {path : Path} {next rest : Nat}

theorem Removed.arityLegal (h : Removed root next path updated rest) (legal : root.ArityLegal) :
    updated.ArityLegal := by
  have blankLegal : (undefined next).1.ArityLegal := yields_undefined_arityLegal next
  cases h with
  | root => exact blankLegal
  | @erased path index parent updated found bound variadic put =>
    have parentLegal : parent.ArityLegal := legal.at? found
    refine legal.put? (parentLegal.withAny variadic fun child mem => ?_) put
    exact parentLegal.children child (List.mem_of_mem_eraseIdx mem)
  | @blanked path index parent updated found bound fixed put =>
    have parentLegal : parent.ArityLegal := legal.at? found
    exact legal.put? (parentLegal.set blankLegal index) put
  | slot put => exact legal.put? blankLegal put

theorem Pruned.arityLegal (h : Pruned root next path updated rest) (legal : root.ArityLegal) :
    updated.ArityLegal := by
  cases h with
  | kept removed => exact removed.arityLegal legal
  | emptied shape before removed after empty branch =>
    exact branch.arityLegal (removed.arityLegal legal)

/-- **An edit keeps a tree legal**, if the nodes that come with it are. -/
theorem Reduced.arityLegal {intent : Intent} (h : Reduced root next intent updated rest)
    (legal : root.ArityLegal) (intentLegal : intent.ArityLegal) : updated.ArityLegal := by
  cases h with
  | setOperand put => exact legal.put? intentLegal put
  | @setOperator path name old node renamed updated rest found function rename put =>
    have nodeLegal : node.ArityLegal := legal.at? found
    have renamedLegal := yields_withOperator nodeLegal name next
    rw [rename] at renamedLegal
    exact legal.put? renamedLegal put
  | @appendChild path operand parent updated found variadic put =>
    have parentLegal : parent.ArityLegal := legal.at? found
    exact legal.put? (parentLegal.push variadic intentLegal) put
  | removed shape removed => exact removed.arityLegal legal
  | pruned shape pruned => exact pruned.arityLegal legal
  | @nest path node nested updated rest found nest put =>
    have nestedLegal := yields_nest? (legal.at? found) next
    rw [nest] at nestedLegal
    exact legal.put? (nestedLegal nested rfl) put
  | @unnest path node unnested updated found unnest put =>
    have nodeLegal : node.ArityLegal := legal.at? found
    exact legal.put? (nodeLegal.unnest? unnest) put
  | addOrBranch added =>
    have updatedLegal := yields_addOrBranch? legal next
    rw [added] at updatedLegal
    exact updatedLegal updated rfl
  | @addAndCondition branch updated rest added =>
    have updatedLegal := yields_addAndCondition? legal branch next
    rw [added] at updatedLegal
    exact updatedLegal updated rfl
  | @commitAggregation path draft node updated rest valid build put =>
    have nodeLegal := Aggregation.yields_toNode intentLegal next
    rw [build] at nodeLegal
    exact legal.put? nodeLegal put

end Node

/-! ## Runs -/

/-- The nodes that are handed in with the operation are legal. -/
def Operation.ArityLegal : Operation → Prop
  | .apply intent _ => intent.ArityLegal
  | .load root => root.ArityLegal
  | _ => True

namespace Run

/-- **Numbers of operands are kept by every run.** If a run starts with a legal tree and all nodes
that are handed in are legal, every tree that it reaches is legal. Local validation then finds no
wrong number of operands in it, whatever kind of root and whatever context the tree is validated
with, and none is shown by the editor. -/
theorem arityLegal_of_run (root : Node) (config : EditorConfig) (operations : List Operation)
    (legal : root.ArityLegal) (handed : ∀ operation ∈ operations, operation.ArityLegal) :
    let editor := (Run.of root config operations).editor
    editor.root.ArityLegal ∧
    (∀ kind context path, ∀ error ∈ (editor.root.validateLocal kind context).errorsAt path,
      error.code ≠ .wrongNumberOfArguments) ∧
    ∀ path, ∀ error ∈ editor.validation.localErrors.errorsAt path,
      error.code ≠ .wrongNumberOfArguments := by
  intro editor
  have reached : editor.root.ArityLegal :=
    steps_keep (P := Node.ArityLegal)
      (fun legal handed reduced => (Node.reduce_spec reduced).arityLegal legal handed) id
      legal handed
  refine ⟨reached, fun kind context => (Node.arityLegal_iff kind context).1 reached, ?_⟩
  rw [(Sound.of root config operations).localErrors]
  exact (Node.arityLegal_iff _ _).1 reached

/-- A line is grouped, the group becomes a unary operator, an operand of the line is taken out, a
line is put into the group, and the group becomes binary again. Each of the five edits succeeds. -/
theorem arityLegal_of_run_of_line :
    let field : Node := ⟨1, .constant, some (.string "amount"), [], []⟩
    let line : Node := ⟨0, .function Name.greater, none, [field, field], []⟩
    let operations : List Operation :=
      [.apply (.nest []) 2, .apply (.setOperator [.child 1] Name.isEmpty) 4,
        .apply (.remove [.child 0]) 5, .apply (.setOperand [.child 1, .child 0] line) 6,
        .apply (.setOperator [.child 1] Name.less) 6]
    line.ArityLegal ∧ (∀ operation ∈ operations, operation.ArityLegal) ∧
      (Run.of line .default operations).trees.length = 6 ∧
      ∀ path,
        ∀ error ∈ (Run.of line .default operations).editor.validation.localErrors.errorsAt path,
          error.code ≠ .wrongNumberOfArguments := by
  intro field line operations
  have fieldLegal : field.ArityLegal := Node.yields_literal (fun _ _ _ other => nomatch other) 1
  have lineLegal : line.ArityLegal := Node.yields_binary (by decide) fieldLegal fieldLegal 0
  have handed : ∀ operation ∈ operations, operation.ArityLegal := by
    simp [operations, Operation.ArityLegal, Intent.ArityLegal, lineLegal]
  exact ⟨lineLegal, handed, by decide +kernel, fun path error shown =>
    (arityLegal_of_run line .default operations lineLegal handed).2.2 path error shown⟩

end Run

end RuleEditor

import RuleEditor.Proofs.Aggregation.Reading
import RuleEditor.Proofs.Editor.Merging
import RuleEditor.Proofs.Editor.Reduction
import RuleEditor.Proofs.Wire.Depth

/-!
# Distinct keys

**The invariant.** No edit gives a node two operands of one name, if the nodes that come with it
have none. An edit changes the named operands of a node in one way only: it replaces an operand that
is there. The only new nodes with named operands are the forms of aggregations and of their rows, and
these have each of their slots once.
-/

namespace RuleEditor

namespace Node

variable {node operand new root updated : Node} {path : Path} {next rest : Nat}

/-- Positional operands and the name of a node have nothing to do with its keys. -/
theorem distinct_of_named {other : Node} (distinct : node.Everywhere OwnDistinctKeys)
    (named : other.named = node.named)
    (children : ∀ child ∈ other.children, child.Everywhere OwnDistinctKeys) :
    other.Everywhere OwnDistinctKeys := by
  obtain ⟨own, -, slots⟩ := everywhere_iff.1 distinct
  rw [everywhere_iff, OwnDistinctKeys, named]
  exact ⟨own, children, slots⟩

theorem OwnDistinctKeys.setStep (own : node.OwnDistinctKeys) (operand : Node)
    (segment : Segment) : (node.setStep operand segment).OwnDistinctKeys := by
  cases segment with
  | child index => exact own
  | named key => exact Entries.nodup_store key operand own

theorem distinct_put? (distinct : root.Everywhere OwnDistinctKeys)
    (newDistinct : new.Everywhere OwnDistinctKeys) (put : root.put? new path = some updated) :
    updated.Everywhere OwnDistinctKeys :=
  distinct.put? (fun _ operand segment own => own.setStep operand segment) newDistinct put

theorem distinct_children (distinct : node.Everywhere OwnDistinctKeys) :
    ∀ child ∈ node.children, child.Everywhere OwnDistinctKeys :=
  (everywhere_iff.1 distinct).2.1

/-! ## New nodes -/

theorem yields_undefined_distinct : undefined.Yields (Everywhere OwnDistinctKeys) :=
  yields_undefined fun _ => List.nodup_nil

theorem yields_apply_distinct {name : String} {children : List Node}
    (below : ∀ child ∈ children, child.Everywhere OwnDistinctKeys) :
    (apply name children).Yields (Everywhere OwnDistinctKeys) :=
  yields_apply (fun _ => List.nodup_nil) below

theorem yields_blanks_distinct (count : Nat) :
    (blanks count).Yields fun missing =>
      ∀ blank ∈ missing, blank.Everywhere OwnDistinctKeys := by
  induction count with
  | zero => exact Fresh.yields_pure nofun
  | succ count ih =>
    exact yields_undefined_distinct.bind fun blank first => ih.bind fun rest later =>
      Fresh.yields_pure (List.forall_mem_cons.2 ⟨first, later⟩)

theorem yields_binary_distinct {name : String} {left right : Node}
    (leftDistinct : left.Everywhere OwnDistinctKeys)
    (rightDistinct : right.Everywhere OwnDistinctKeys) :
    (binary name left right).Yields (Everywhere OwnDistinctKeys) :=
  yields_apply_distinct
    (List.forall_mem_cons.2 ⟨leftDistinct, List.forall_mem_singleton.2 rightDistinct⟩)

theorem yields_emptyCondition_distinct : emptyCondition.Yields (Everywhere OwnDistinctKeys) :=
  yields_undefined_distinct.bind fun _ left =>
    yields_undefined_distinct.bind fun _ right => yields_binary_distinct left right

/-! ## Changed nodes -/

theorem distinct_push (distinct : node.Everywhere OwnDistinctKeys)
    (operandDistinct : operand.Everywhere OwnDistinctKeys) :
    (node.push operand).Everywhere OwnDistinctKeys :=
  distinct_of_named distinct rfl
    (List.forall_mem_append.2
      ⟨distinct_children distinct, List.forall_mem_singleton.2 operandDistinct⟩)

theorem distinct_set (distinct : node.Everywhere OwnDistinctKeys)
    (operandDistinct : operand.Everywhere OwnDistinctKeys) (index : Nat) :
    Everywhere OwnDistinctKeys { node with children := node.children.set index operand } :=
  distinct.setStep ((everywhere_iff.1 distinct).1.setStep operand (.child index)) operandDistinct

theorem yields_withOperator_distinct (distinct : node.Everywhere OwnDistinctKeys)
    (name : String) : (node.withOperator name).Yields (Everywhere OwnDistinctKeys) := by
  rw [withOperator]
  split
  · refine (yields_blanks_distinct _).bind fun missing blank => Fresh.yields_pure ?_
    refine distinct_of_named distinct rfl (List.forall_mem_append.2 ⟨fun child mem => ?_, blank⟩)
    exact distinct_children distinct child (List.mem_of_mem_take mem)
  · have renamed : (node.renamed name).Everywhere OwnDistinctKeys :=
      distinct_of_named distinct rfl fun child mem => distinct_children distinct child mem
    exact Fresh.yields_pure renamed

theorem yields_nest?_distinct (distinct : node.Everywhere OwnDistinctKeys) :
    node.nest?.Yields fun nested? =>
      ∀ nested, nested? = some nested → nested.Everywhere OwnDistinctKeys := by
  rw [nest?]
  split
  · next operator right line function found =>
    refine yields_undefined_distinct.bind fun blank blankDistinct => ?_
    have rightDistinct := distinct_children distinct right (List.mem_of_getElem? found)
    refine (yields_binary_distinct rightDistinct blankDistinct).bind fun group groupDistinct => ?_
    refine Fresh.yields_pure fun nested eq => ?_
    cases eq
    exact distinct_set distinct groupDistinct 1
  · exact Fresh.yields_none

theorem distinct_unnest? {unnested : Node} (distinct : node.Everywhere OwnDistinctKeys)
    (unnest : node.unnest? = some unnested) : unnested.Everywhere OwnDistinctKeys := by
  obtain ⟨right, found, unnest⟩ := Option.bind_eq_some_iff.1 unnest
  obtain ⟨inner, below, unnest⟩ := Option.bind_eq_some_iff.1 unnest
  split at unnest
  · cases unnest
    have rightDistinct := distinct_children distinct right (List.mem_of_getElem? found)
    have innerDistinct := distinct_children rightDistinct inner (List.mem_of_getElem? below)
    exact distinct_set distinct innerDistinct 1
  · cases unnest

theorem yields_addOrBranch?_distinct (distinct : root.Everywhere OwnDistinctKeys) :
    root.addOrBranch?.Yields fun added =>
      ∀ updated, added = some updated → updated.Everywhere OwnDistinctKeys := by
  rw [addOrBranch?]
  split
  · refine yields_emptyCondition_distinct.bind fun condition conditionDistinct => ?_
    have branches : (apply Name.and [condition]).Yields (Everywhere OwnDistinctKeys) :=
      yields_apply_distinct (List.forall_mem_singleton.2 conditionDistinct)
    refine branches.bind fun branch branchDistinct => Fresh.yields_pure fun updated eq => ?_
    cases eq
    exact distinct_push distinct branchDistinct
  · exact Fresh.yields_none

theorem yields_addAndCondition?_distinct (distinct : root.Everywhere OwnDistinctKeys)
    (index : Nat) :
    (root.addAndCondition? index).Yields fun added =>
      ∀ updated, added = some updated → updated.Everywhere OwnDistinctKeys := by
  rw [addAndCondition?]
  split
  · next branch shape found =>
    refine yields_emptyCondition_distinct.bind fun condition conditionDistinct => ?_
    refine Fresh.yields_pure fun updated eq => ?_
    cases eq
    have branchDistinct := distinct_children distinct branch (List.mem_of_getElem? found)
    exact distinct_set distinct (distinct_push branchDistinct conditionDistinct) index
  · exact Fresh.yields_none

end Node

/-! ## Aggregations -/

theorem FilterRow.Written.ownDistinctKeys {row : FilterRow} {node : Node}
    (written : row.Written node) : node.OwnDistinctKeys := by
  cases written
  exact (by decide : [Slot.operator, Slot.tableName, Slot.fieldName, Slot.value].Nodup)

theorem Aggregation.Written.ownDistinctKeys {aggregation : Aggregation} {node : Node}
    (written : aggregation.Written node) : node.OwnDistinctKeys := by
  let slots := [Slot.aggregator, Slot.tableName, Slot.fieldName, Slot.filters]
  cases written
  cases aggregation.label with
  | none => exact (by decide : slots.Nodup)
  | some text => exact (by decide : (slots ++ [Slot.label]).Nodup)

open Node in
/-- The node of an aggregation repeats no key if the values of its filters do not. -/
theorem Aggregation.yields_toNode_distinct {aggregation : Aggregation}
    (distinct : ∀ row ∈ aggregation.filters, row.value.Everywhere OwnDistinctKeys) :
    aggregation.toNode.Yields (Everywhere OwnDistinctKeys) := by
  intro next
  have part (id : Nat) (part : Option String) : (Node.part id part).OwnDistinctKeys := by
    cases part <;> exact List.nodup_nil
  have written := aggregation.yields_written next
  have everywhere := written.everywhere_iff part (fun _ _ _ => List.nodup_nil)
    fun row node written => iff_true_intro written.ownDistinctKeys
  exact everywhere.2 ⟨written.ownDistinctKeys, fun row mem => ⟨trivial, distinct row mem⟩⟩

/-! ## Edits -/

/-- The nodes that come with the edit repeat no key. -/
def Intent.DistinctKeys : Intent → Prop
  | .setOperand _ node => node.DistinctKeys
  | .appendChild _ node => node.DistinctKeys
  | .commitAggregation _ draft => ∀ row ∈ draft.current.filters, row.value.DistinctKeys
  | _ => True

namespace Node

variable {root updated : Node} {path : Path} {next rest : Nat}

theorem Removed.distinct (h : Removed root next path updated rest)
    (distinct : root.Everywhere OwnDistinctKeys) : updated.Everywhere OwnDistinctKeys := by
  have blank : (undefined next).1.Everywhere OwnDistinctKeys := yields_undefined_distinct next
  cases h with
  | root => exact blank
  | @erased path index parent updated found bound variadic put =>
    have parentDistinct := distinct.at? found
    have erased : Everywhere OwnDistinctKeys
        { parent with children := parent.children.eraseIdx index } :=
      distinct_of_named parentDistinct rfl fun child mem =>
        distinct_children parentDistinct child (List.mem_of_mem_eraseIdx mem)
    exact distinct_put? distinct erased put
  | @blanked path index parent updated found bound fixed put =>
    exact distinct_put? distinct (distinct_set (distinct.at? found) blank index) put
  | slot put => exact distinct_put? distinct blank put

theorem Pruned.distinct (h : Pruned root next path updated rest)
    (distinct : root.Everywhere OwnDistinctKeys) : updated.Everywhere OwnDistinctKeys := by
  cases h with
  | kept removed => exact removed.distinct distinct
  | emptied shape before removed after empty branch =>
    exact branch.distinct (removed.distinct distinct)

/-- **An edit repeats no key**, if the nodes that come with it do not. -/
theorem Reduced.distinct {intent : Intent} (h : Reduced root next intent updated rest)
    (distinct : root.DistinctKeys) (handed : intent.DistinctKeys) : updated.DistinctKeys := by
  rw [distinctKeys_iff] at distinct ⊢
  cases h with
  | setOperand put => exact distinct_put? distinct ((distinctKeys_iff _).1 handed) put
  | @setOperator path name old node renamed updated rest found function rename put =>
    have renamedDistinct := yields_withOperator_distinct (distinct.at? found) name next
    rw [rename] at renamedDistinct
    exact distinct_put? distinct renamedDistinct put
  | appendChild found variadic put =>
    have pushed := distinct_push (distinct.at? found) ((distinctKeys_iff _).1 handed)
    exact distinct_put? distinct pushed put
  | removed shape removed => exact removed.distinct distinct
  | pruned shape pruned => exact pruned.distinct distinct
  | @nest path node nested updated rest found nest put =>
    have nestedDistinct := yields_nest?_distinct (distinct.at? found) next
    rw [nest] at nestedDistinct
    exact distinct_put? distinct (nestedDistinct nested rfl) put
  | unnest found unnest put =>
    exact distinct_put? distinct (distinct_unnest? (distinct.at? found) unnest) put
  | addOrBranch added =>
    have updatedDistinct := yields_addOrBranch?_distinct distinct next
    rw [added] at updatedDistinct
    exact updatedDistinct updated rfl
  | @addAndCondition branch updated rest added =>
    have updatedDistinct := yields_addAndCondition?_distinct distinct branch next
    rw [added] at updatedDistinct
    exact updatedDistinct updated rfl
  | commitAggregation valid build put =>
    have built := Aggregation.yields_toNode_distinct
      (fun row mem => (distinctKeys_iff _).1 (handed row mem)) next
    rw [build] at built
    exact distinct_put? distinct built put

end Node

/-! ## Runs -/

/-- The nodes that are handed in with the operation repeat no key. -/
def Operation.DistinctKeys : Operation → Prop
  | .apply intent _ => intent.DistinctKeys
  | .load root => root.DistinctKeys
  | _ => True

/-- **No run repeats a key**, if no tree that is handed in does. -/
theorem Run.distinctKeys_of_run {root : Node} {config : EditorConfig}
    {operations : List Operation} (distinct : root.DistinctKeys)
    (handed : ∀ operation ∈ operations, operation.DistinctKeys) :
    (Run.of root config operations).editor.root.DistinctKeys :=
  steps_keep (P := Node.DistinctKeys)
    (fun distinct handed reduced => (Node.reduce_spec reduced).distinct distinct handed) id
    distinct handed

end RuleEditor

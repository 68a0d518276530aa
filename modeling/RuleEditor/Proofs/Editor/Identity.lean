import RuleEditor.Proofs.Editor.Distinct
import RuleEditor.Proofs.Editor.Places
import RuleEditor.Proofs.Node.Identity

/-!
# Identities over whole runs

**One supply.** New nodes take their identities from a supply that all editors share. A run finds it
at any point at which it finds what was issued before (`Run.Supplied`).

**The bound.** An edit keeps some nodes of the tree, brings nodes along (`Intent.handed`), and
builds new ones on both. The identities after it are among those of these three groups, none more
often (`Node.exists_taken_of_reduced`). The new ones have not been issued before, so the edit
repeats none if what it brings along repeats none and is nowhere else in the tree (`Intent.Fits`).

**Whole runs** (`Run.identities_of_run`). No run repeats an identity if no edit of it does, and
every node that is not where an edit changes the tree keeps its own.
-/

namespace RuleEditor

namespace Node

variable {node operand root new updated unnested : Node} {path : Path} {next rest index : Nat}

/-! ## What changed nodes take -/

theorem takes_blanks (count : Nat) : (blanks count).Takes idsAll 0 := by
  induction count with
  | zero => exact fun next => .refl next (le_of_eq rfl)
  | succ count ih => exact fun next => (takes_undefined next).add (ih _)

theorem takes_binary (name : String) (left right : Node) :
    (binary name left right).Takes ids (left.ids + right.ids) := by
  have taken := takes_apply name [left, right]
  rwa [idsAll_cons, idsAll_cons, idsAll_nil, add_zero] at taken

theorem takes_emptyCondition : emptyCondition.Takes ids 0 := by
  refine takes_undefined.bind (fun left => ?_) (add_zero 0).le
  refine takes_undefined.bind (fun right => ?_) (zero_add _).le
  rw [add_zero, add_comm]
  exact takes_binary Name.equal left right

theorem ids_push (node operand : Node) : (node.push operand).ids = node.ids + operand.ids := by
  rw [ids_eq, ids_eq node, push, idsAll_append, idsAll_cons, idsAll_nil, add_zero]
  abel

theorem ids_withoutOperand_le (node : Node) (index : Nat) :
    (node.withoutOperand index).ids ≤ node.ids := by
  have fewer : idsAll (node.children.eraseIdx index) ≤ idsAll node.children :=
    idsAll_le_of_sublist (List.eraseIdx_sublist _ _)
  rw [ids_eq, ids_eq node, withoutOperand]
  gcongr

theorem takes_withOperator (node : Node) (name : String) :
    (node.withOperator name).Takes ids node.ids := by
  rw [withOperator]
  split
  · next count _ =>
    refine (takes_blanks _).bind (fun missing => Fresh.takes_pure ?_) (zero_add node.ids).le
    have kept : idsAll (node.children.take count) ≤ idsAll node.children :=
      idsAll_le_of_sublist (List.take_sublist count node.children)
    rw [ids_eq, ids_eq node, idsAll_append]
    calc {node.id} + (idsAll (node.children.take count) + idsAll missing + idsNamed node.named)
        ≤ {node.id} + (idsAll node.children + idsAll missing + idsNamed node.named) := by gcongr
      _ = idsAll missing + ({node.id} + (idsAll node.children + idsNamed node.named)) := by abel
  · have renamed : (node.renamed name).ids = node.ids := by rw [ids_eq, ids_eq node, Node.renamed]
    exact Fresh.takes_pure renamed.le

/-- A node of the tree is replaced by one that takes no more than the old one and what is given. -/
theorem taken_put? {given : Multiset Nat} (distinct : root.Everywhere OwnDistinctKeys)
    (found : root.at? path = some node) (put : root.put? new path = some updated)
    (taken : Taken next rest (node.ids + given) new.ids) :
    Taken next rest (root.ids + given) updated.ids := by
  obtain ⟨others, sum, replaced, -⟩ := exists_ids_put? distinct found
  rw [sum, replaced new updated put, add_assoc]
  exact (Taken.refl next (le_refl others)).add taken

/-- An operand is replaced by a node that takes no more than the old one and what is given. -/
theorem taken_setStep {given : Multiset Nat} {segment : Segment}
    (distinct : node.Everywhere OwnDistinctKeys) (found : node.step? segment = some operand)
    (taken : Taken next rest (operand.ids + given) new.ids) :
    Taken next rest (node.ids + given) (node.setStep new segment).ids := by
  obtain ⟨others, sum, replaced, -⟩ := exists_ids_setStep distinct found
  rw [sum, replaced new, add_assoc]
  exact (Taken.refl next (le_refl others)).add taken

theorem takes_nest? (distinct : node.Everywhere OwnDistinctKeys) :
    node.nest?.Takes idsOptional node.ids := by
  rw [nest?]
  split
  · next operator right line function found =>
    have step : node.step? (.child 1) = some right := found
    obtain ⟨others, sum, replaced, -⟩ := exists_ids_setStep distinct step
    refine takes_undefined.bind (fun blank => ?_) (zero_add _).le
    have enough : right.ids + blank.ids + others ≤ blank.ids + node.ids := by
      rw [sum]
      exact le_of_eq (by abel)
    refine (takes_binary operator right blank).bind (fun group => Fresh.takes_pure ?_) enough
    exact ((replaced group).trans (add_comm _ _)).le
  · exact Fresh.takes_pure (Multiset.zero_le _)

theorem ids_unnest?_le (distinct : node.Everywhere OwnDistinctKeys)
    (unnest : node.unnest? = some unnested) : unnested.ids ≤ node.ids := by
  obtain ⟨right, found, unnest⟩ := Option.bind_eq_some_iff.1 unnest
  obtain ⟨inner, below, unnest⟩ := Option.bind_eq_some_iff.1 unnest
  split at unnest
  · cases unnest
    have within : inner.ids ≤ right.ids := by
      rw [ids_eq right]
      have mem := ids_le_idsAll (List.mem_of_getElem? below)
      exact mem.trans ((Multiset.le_add_right _ _).trans (Multiset.le_add_left _ _))
    have step : node.step? (.child 1) = some right := found
    obtain ⟨others, sum, replaced, -⟩ := exists_ids_setStep distinct step
    calc (node.withRight inner).ids = others + inner.ids := replaced inner
      _ ≤ others + right.ids := by gcongr
      _ = node.ids := sum.symm
  · cases unnest

theorem takes_addOrBranch? (root : Node) : root.addOrBranch?.Takes idsOptional root.ids := by
  rw [addOrBranch?]
  split
  · refine takes_emptyCondition.bind (fun condition => ?_) (zero_add _).le
    have enough : idsAll [condition] + root.ids ≤ condition.ids + root.ids := by
      rw [idsAll_cons, idsAll_nil, add_zero]
    refine (takes_apply Name.and [condition]).bind (fun branch => Fresh.takes_pure ?_) enough
    exact ((ids_push root branch).trans (add_comm _ _)).le
  · exact Fresh.takes_pure (Multiset.zero_le _)

theorem takes_addAndCondition? (distinct : root.Everywhere OwnDistinctKeys) (index : Nat) :
    (root.addAndCondition? index).Takes idsOptional root.ids := by
  rw [addAndCondition?]
  split
  · next branch shape found =>
    have step : root.step? (.child index) = some branch := found
    obtain ⟨others, sum, replaced, -⟩ := exists_ids_setStep distinct step
    refine takes_emptyCondition.bind (fun condition => Fresh.takes_pure ?_) (zero_add _).le
    refine (replaced _).le.trans (le_of_eq ?_)
    rw [ids_push, sum]
    abel
  · exact Fresh.takes_pure (Multiset.zero_le _)

end Node

/-! ## Aggregations -/

theorem FilterRow.takes_partNode (part : Option String) : (partNode part).Takes Node.ids 0 := by
  cases part with
  | none => exact Node.takes_undefined
  | some text => exact Node.takes_literal _

theorem FilterRow.takes_toNode (row : FilterRow) : row.toNode.Takes Node.ids row.value.ids := by
  refine (takes_partNode _).bind (fun operator => ?_) (zero_add _).le
  refine (takes_partNode _).bind (fun table => ?_) (zero_add _).le
  refine (takes_partNode _).bind (fun field => ?_) (zero_add _).le
  refine (Node.takes_call Name.filter _).mono (le_of_eq ?_)
  simp only [Node.idsNamed_cons, Node.idsNamed_nil]
  abel

/-- The node of an aggregation has the identities that its filters compare with, and new ones. -/
theorem Aggregation.takes_toNode (aggregation : Aggregation) :
    aggregation.toNode.Takes Node.ids (Node.idsAll (aggregation.filters.map FilterRow.value)) := by
  refine (FilterRow.takes_partNode _).bind (fun aggregator => ?_) (zero_add _).le
  refine (FilterRow.takes_partNode _).bind (fun table => ?_) (zero_add _).le
  refine (FilterRow.takes_partNode _).bind (fun field => ?_) (zero_add _).le
  have rows := Fresh.takes_all FilterRow.takes_toNode aggregation.filters
  have parts (taken : Multiset Nat) : taken + (field.ids + (table.ids + aggregator.ids)) =
      field.ids + (table.ids + (aggregator.ids + taken)) := by abel
  refine rows.bind (fun rows => ?_) (parts _).le
  refine (Node.takes_apply Name.list rows).bind (fun filters => ?_) (le_refl _)
  split
  · refine (Node.takes_call Name.aggregation _).mono (le_of_eq ?_)
    simp only [Node.idsNamed_cons, Node.idsNamed_nil]
    abel
  · refine (Node.takes_literal _).bind (fun label => ?_) (zero_add _).le
    refine (Node.takes_call Name.aggregation _).mono (le_of_eq ?_)
    simp only [List.cons_append, List.nil_append, Node.idsNamed_cons, Node.idsNamed_nil]
    abel

/-! ## Edits -/

namespace Intent

/-- The identities of the nodes that come with the edit. -/
def handed : Intent → Multiset Nat
  | .setOperand _ node => node.ids
  | .appendChild _ node => node.ids
  | .commitAggregation _ draft => Node.idsAll (draft.current.filters.map FilterRow.value)
  | _ => 0

/-- The nodes that come with the edit have identities that are issued, none twice and none that a
node of the tree has, except where the tree is changed. -/
structure Fits (intent : Intent) (root : Node) (supply : Nat) : Prop where
  keys : intent.DistinctKeys
  distinct : intent.handed.Nodup
  issued : ∀ id ∈ intent.handed, id < supply
  apart : ∀ path node, root.at? path = some node → ¬ intent.place root <+: path →
    node.id ∉ intent.handed

end Intent

namespace Node

variable {root updated : Node} {path : Path} {next rest : Nat}

theorem taken_removed (distinct : root.Everywhere OwnDistinctKeys)
    (removed : Removed root next path updated rest) : Taken next rest root.ids updated.ids := by
  have blank := takes_undefined next
  cases removed with
  | root => exact blank.mono (Multiset.zero_le _) (le_refl _)
  | @erased path index parent updated found bound variadic put =>
    have fewer : Taken next next (parent.ids + 0) (parent.withoutOperand index).ids :=
      .refl next ((ids_withoutOperand_le parent index).trans (add_zero _).ge)
    exact (taken_put? distinct found put fewer).mono (add_zero _).le (le_refl _)
  | @blanked path index parent updated found bound fixed put =>
    have step : parent.step? (.child index) = some parent.children[index] :=
      List.getElem?_eq_getElem bound
    have set : Taken next _ (parent.ids + 0) _ := taken_setStep (distinct.at? found) step
      (blank.mono (Multiset.zero_le _) (le_refl _))
    exact (taken_put? distinct found put set).mono (add_zero _).le (le_refl _)
  | @slot path key updated put =>
    obtain ⟨node, found⟩ := exists_put?_iff.1 ⟨updated, put⟩
    have replaced : Taken next _ (root.ids + 0) _ := taken_put? distinct found put
      (blank.mono (Multiset.zero_le _) (le_refl _))
    exact replaced.mono (add_zero _).le (le_refl _)

theorem taken_pruned (distinct : root.Everywhere OwnDistinctKeys)
    (pruned : Pruned root next path updated rest) : Taken next rest root.ids updated.ids := by
  cases pruned with
  | kept removed => exact taken_removed distinct removed
  | emptied shape before removed after empty branch =>
    have first := taken_removed distinct removed
    have second := taken_removed (removed.distinct distinct) branch
    exact first.trans (second.mono (add_zero _).ge (le_refl _)) (add_zero _).le

/-- Nothing is at the place behind the operands of a node. -/
theorem elsewhere_endOf (distinct : root.Everywhere OwnDistinctKeys) (path : Path) :
    root.Elsewhere (root.endOf path) root.ids := by
  intro id mem
  obtain ⟨other, node, there, same⟩ := exists_at?_of_mem_ids distinct mem
  refine ⟨other, node, there, fun within => ?_, same⟩
  obtain ⟨below, rfl⟩ := within
  rw [endOf, Path.child, at?_append, at?_concat] at there
  cases found : root.at? path with
  | none => simp [found] at there
  | some parent => simp [found, step?, child?] at there

/-- **What an edit takes**: identities of its own, those that come with it, and those of nodes that
stay in the tree. If any come with it, the nodes that stay are not at its place. -/
theorem exists_taken_of_reduced {intent : Intent} (distinct : root.Everywhere OwnDistinctKeys)
    (reduced : Reduced root next intent updated rest) :
    ∃ kept, kept ≤ root.ids ∧ Taken next rest (kept + intent.handed) updated.ids ∧
      (intent.handed ≠ 0 → root.Elsewhere (intent.place root) kept) := by
  cases reduced with
  | @setOperand path node updated put =>
    obtain ⟨old, found⟩ := exists_put?_iff.1 ⟨updated, put⟩
    obtain ⟨others, sum, replaced, elsewhere⟩ := exists_ids_put? distinct found
    refine ⟨others, sum ▸ Multiset.le_add_right _ _, ?_, fun _ => elsewhere⟩
    exact .refl next (replaced node updated put).le
  | @setOperator path name old node renamed updated rest found function rename put =>
    have taken := takes_withOperator node name next
    rw [rename] at taken
    refine ⟨root.ids, le_refl _, ?_, fun some => absurd rfl some⟩
    exact taken_put? distinct found put (taken.mono (add_zero _).ge (le_refl _))
  | @appendChild path operand parent updated found variadic put =>
    refine ⟨root.ids, le_refl _, ?_, fun _ => elsewhere_endOf distinct path⟩
    exact taken_put? distinct found put (.refl next (ids_push parent operand).le)
  | removed shape removed =>
    refine ⟨root.ids, le_refl _, ?_, fun some => absurd rfl some⟩
    exact (taken_removed distinct removed).mono (add_zero _).ge (le_refl _)
  | pruned shape pruned =>
    refine ⟨root.ids, le_refl _, ?_, fun some => absurd rfl some⟩
    exact (taken_pruned distinct pruned).mono (add_zero _).ge (le_refl _)
  | @nest path node nested updated rest found nest put =>
    have taken := takes_nest? (distinct.at? found) next
    rw [nest] at taken
    refine ⟨root.ids, le_refl _, ?_, fun some => absurd rfl some⟩
    exact taken_put? distinct found put (taken.mono (add_zero _).ge (le_refl _))
  | unnest found unnest put =>
    have fewer := ids_unnest?_le (distinct.at? found) unnest
    refine ⟨root.ids, le_refl _, ?_, fun some => absurd rfl some⟩
    exact taken_put? distinct found put (.refl next (fewer.trans (add_zero _).ge))
  | addOrBranch added =>
    have taken := takes_addOrBranch? root next
    rw [added] at taken
    refine ⟨root.ids, le_refl _, ?_, fun some => absurd rfl some⟩
    exact taken.mono (add_zero _).ge (le_refl _)
  | @addAndCondition branch updated rest added =>
    have taken := takes_addAndCondition? distinct branch next
    rw [added] at taken
    refine ⟨root.ids, le_refl _, ?_, fun some => absurd rfl some⟩
    exact taken.mono (add_zero _).ge (le_refl _)
  | @commitAggregation path draft node updated rest valid build put =>
    obtain ⟨old, found⟩ := exists_put?_iff.1 ⟨updated, put⟩
    obtain ⟨others, sum, replaced, elsewhere⟩ := exists_ids_put? distinct found
    have taken := draft.current.takes_toNode next
    rw [build] at taken
    refine ⟨others, sum ▸ Multiset.le_add_right _ _, ?_, fun _ => elsewhere⟩
    rw [replaced node updated put]
    exact (Taken.refl next (le_refl others)).add taken

/-- Nodes whose identities the tree does not have fit everywhere. -/
theorem fits_of_disjoint {intent : Intent} {supply : Nat}
    (distinct : root.Everywhere OwnDistinctKeys) (keys : intent.DistinctKeys)
    (nodup : intent.handed.Nodup) (issued : ∀ id ∈ intent.handed, id < supply)
    (disjoint : ∀ id ∈ intent.handed, id ∉ root.ids) : intent.Fits root supply := by
  refine ⟨keys, nodup, issued, fun path node found _ mem => disjoint node.id mem ?_⟩
  obtain ⟨others, sum, -⟩ := exists_ids_put? distinct found
  rw [sum, ids_eq node]
  simp

/-- The tree has no identity twice, and all of its identities are issued. -/
structure Issued (root : Node) (next : Nat) : Prop where
  keys : root.DistinctKeys
  distinct : root.ids.Nodup
  issued : ∀ id ∈ root.ids, id < next

theorem Issued.mono {later : Nat} (issued : root.Issued next) (le : next ≤ later) :
    root.Issued later :=
  ⟨issued.keys, issued.distinct, fun id mem => (issued.issued id mem).trans_le le⟩

/-- **An edit repeats no identity**, if the nodes that come with it do not. -/
theorem Issued.reduced {intent : Intent} (issued : root.Issued next)
    (fits : intent.Fits root next) (reduced : Reduced root next intent updated rest) :
    updated.Issued rest := by
  obtain ⟨kept, among, taken, elsewhere⟩ :=
    exists_taken_of_reduced ((distinctKeys_iff _).1 issued.keys) reduced
  have old : ∀ id ∈ kept + intent.handed, id < next := by
    intro id mem
    rcases Multiset.mem_add.1 mem with mem | mem
    · exact issued.issued id (Multiset.mem_of_le among mem)
    · exact fits.issued id mem
  have apart : Disjoint kept intent.handed := by
    rw [Multiset.disjoint_left]
    intro id mem again
    obtain ⟨path, node, found, beside, rfl⟩ :=
      elsewhere (fun none => by simp [none] at again) id mem
    exact fits.apart path node found beside again
  have nodup : (Multiset.Ico next rest + (kept + intent.handed)).Nodup := by
    have inTree := Multiset.nodup_of_le among issued.distinct
    have held := Multiset.nodup_add.2 ⟨inTree, fits.distinct, apart⟩
    refine Multiset.nodup_add.2 ⟨Multiset.nodup_Ico, held, Multiset.disjoint_left.2 ?_⟩
    intro id new mem
    exact absurd (old id mem) (Nat.not_lt.2 (Multiset.mem_Ico.1 new).1)
  have keys := reduced.distinct issued.keys fits.keys
  refine ⟨keys, Multiset.nodup_of_le taken.ids_le nodup, fun id mem => ?_⟩
  rcases Multiset.mem_add.1 (Multiset.mem_of_le taken.ids_le mem) with new | mem
  · exact (Multiset.mem_Ico.1 new).2
  · exact (old id mem).trans_le taken.le

end Node

/-! ## Runs -/

namespace Run

/-- The operations take new identities from one supply, of which those below `next` are issued. What
comes with an edit that succeeds, and what is loaded, has been issued by then and repeats nothing.
Others may take identities in between, and an edit that fails may use some up. -/
def Supplied (run : Run) (next : Nat) : List Operation → Prop
  | [] => True
  | .apply intent supply :: later =>
    next ≤ supply ∧
      match run.editor.apply intent supply with
      | .ok (editor, rest) =>
        intent.Fits run.editor.root supply ∧ (run.edited editor).Supplied rest later
      | .error _ => run.Supplied supply later
  | .load root :: later =>
    ∃ supply, next ≤ supply ∧ root.Issued supply ∧ (run.step (.load root)).Supplied supply later
  | operation :: later => (run.step operation).Supplied next later

/-- No tree of the run has an identity twice, and those of the last tree are issued. -/
structure Unrepeated (run : Run) (next : Nat) : Prop where
  root : run.editor.root.Issued next
  trees : ∀ tree ∈ run.trees, tree.ids.Nodup

theorem Unrepeated.edited {run : Run} {next later : Nat} {root : Node} (held : run.Unrepeated next)
    (issued : root.Issued later) : (run.edited (run.editor.advance root)).Unrepeated later :=
  ⟨issued, List.forall_mem_append.2 ⟨held.trees, List.forall_mem_singleton.2 issued.distinct⟩⟩

theorem Unrepeated.steps {operations : List Operation} {run : Run} {next : Nat}
    (held : run.Unrepeated next) (supplied : run.Supplied next operations) :
    ∃ rest, (run.steps operations).Unrepeated rest := by
  induction operations generalizing run next with
  | nil => exact ⟨next, held⟩
  | cons operation later ih =>
    cases operation with
    | apply intent supply =>
      obtain ⟨le, supplied⟩ := supplied
      have held : run.Unrepeated supply := ⟨held.root.mono le, held.trees⟩
      show ∃ rest, ((run.step (.apply intent supply)).steps later).Unrepeated rest
      cases applied : run.editor.apply intent supply with
      | ok result =>
        obtain ⟨editor, rest⟩ := result
        obtain ⟨-, root, reduced, rfl⟩ := Editor.apply_eq_ok applied
        rw [applied] at supplied
        have issued := held.root.reduced supplied.1 (Node.reduce_spec reduced)
        rw [step, applied]
        exact ih (held.edited issued) supplied.2
      | error error =>
        rw [applied] at supplied
        rw [step, applied]
        exact ih held supplied
    | load root =>
      obtain ⟨supply, le, issued, supplied⟩ := supplied
      exact ih (held.edited issued) supplied
    | withContext context => exact ih ⟨held.root, held.trees⟩ supplied
    | setMode mode => exact ih ⟨held.root, held.trees⟩ supplied
    | beginValidation =>
      refine ih ?_ supplied
      rw [step, Editor.beginValidation]
      cases run.editor.root.toWire <;> exact ⟨held.root, held.trees⟩
    | acceptValidation revision response =>
      refine ih ?_ supplied
      rw [step, Editor.acceptValidation]
      cases run.editor.validation.accept? revision response <;> exact ⟨held.root, held.trees⟩
    | validationFailed revision => exact ih ⟨held.root, held.trees⟩ supplied

/-- **Identities stay unique.** A tree that is read and a copy consist of new nodes, and a copy says
what its original says, so that it equals it unless there is something that is not a number. Along a
run that starts with a tree without repetition, and in which what is handed in repeats nothing, no
tree has an identity twice. Every edit that succeeds leaves the identities of all nodes above its
place, and the nodes that are neither above nor below it. -/
theorem identities_of_run :
    (∀ (text : String) (next rest : Nat) (node : Node),
      Node.deserialize text next = .ok (node, rest) → node.IsNew next rest) ∧
    (∀ (node : Node) (next : Nat),
      let copy := (node.recreate next).1
      copy.IsNew next (node.recreate next).2 ∧ node.Alike copy ∧
        (node.DistinctKeys → (node.equal copy = true ↔ node.Everywhere Node.NumericConstant))) ∧
    (∀ (root : Node) (config : EditorConfig) (next : Nat) (operations : List Operation),
      root.Issued next → (Run.start root config).Supplied next operations →
        let run := Run.of root config operations
        run.editor.root ∈ run.trees ∧ ∀ tree ∈ run.trees, tree.ids.Nodup) ∧
    ∀ (editor edited : Editor) (intent : Intent) (supply rest : Nat),
      editor.apply intent supply = .ok (edited, rest) →
        editor.root.Spares edited.root (intent.place editor.root) (intent.closes editor.root) := by
  refine ⟨?_, ?_, ?_, ?_⟩
  · intro text next rest node read
    exact Node.isNew_of_deserialize read
  · intro node next
    have alike := Node.alike_recreate node next
    exact ⟨node.isNew_recreate next, alike, Node.equal_iff_of_alike alike⟩
  · intro root config next operations issued supplied
    have start : (Run.start root config).Unrepeated next :=
      ⟨issued, List.forall_mem_singleton.2 issued.distinct⟩
    obtain ⟨rest, held⟩ := start.steps supplied
    exact ⟨List.mem_of_getElem? (Sound.of root config operations).last, held.trees⟩
  · intro editor edited intent supply rest applied
    obtain ⟨-, root, reduced, rfl⟩ := Editor.apply_eq_ok applied
    exact Node.spares_of_reduce reduced

/-- A placeholder is replaced and a group is opened; between these edits one fails. -/
theorem identities_of_run_of_two_edits :
    let root : Node := ⟨1, .function Name.equal, none,
      [⟨2, .undefined, none, [], []⟩, ⟨3, .undefined, none, [], []⟩], []⟩
    let five : Node := ⟨4, .constant, some (.int 5), [], []⟩
    let operations : List Operation :=
      [.apply (.setOperand [.child 0] five) 5, .apply (.remove [.child 2]) 6, .apply (.nest []) 7]
    root.Issued 4 ∧ (Run.start root .default).Supplied 4 operations ∧
      (Run.of root .default operations).trees.map Node.ids =
        [{1, 2, 3}, {1, 4, 3}, {1, 4, 8, 3, 7}] ∧
      (∀ tree ∈ (Run.of root .default operations).trees, tree.ids.Nodup) ∧
      ∃ edited rest, (Run.start root .default).editor.apply (.nest []) 4 = .ok (edited, rest) ∧
        root.Spares edited.root [.child 1] false := by
  intro root five operations
  have keys : root.DistinctKeys := by
    simp [root, Node.DistinctKeys, Node.DistinctKeysAll, Node.DistinctKeysNamed]
  have issued : root.Issued 4 := ⟨keys, by decide, by decide⟩
  have fits : (Intent.setOperand [.child 0] five).Fits root 5 := by
    refine Node.fits_of_disjoint ((Node.distinctKeys_iff _).1 keys) ?_ ?_ ?_ ?_
    · simp [Intent.DistinctKeys, five, Node.DistinctKeys, Node.DistinctKeysAll,
        Node.DistinctKeysNamed]
    · decide
    · decide
    · decide
  have fitsNest (root : Node) : (Intent.nest []).Fits root 7 :=
    ⟨trivial, Multiset.nodup_zero, nofun, fun _ _ _ _ => Multiset.notMem_zero _⟩
  have supplied : (Run.start root .default).Supplied 4 operations :=
    ⟨by decide, fits, by decide, by decide, fitsNest _, trivial⟩
  obtain ⟨-, -, repeats, spares⟩ := identities_of_run
  have runs := repeats root .default 4 operations issued supplied
  have nested := spares (Run.start root .default).editor _ (.nest []) 4 _ rfl
  exact ⟨issued, supplied, by decide, runs.2, _, _, rfl, nested⟩

/-- What is not a number differs from its copy. A node that two filters of one draft compare with is
in the tree twice, though no identity occurs twice in the node. -/
theorem nan_copied_and_value_shared :
    let literal : Node := ⟨1, .constant, some (.float Binary64.nan), [], []⟩
    let value : Node := ⟨4, .constant, some (.int 5), [], []⟩
    let row : FilterRow := ⟨some Name.equal, some "orders", some "total", value⟩
    let draft := Draft.ofAggregation ⟨some .sum, some "orders", some "total", none, [row, row]⟩
    let root : Node := ⟨1, .function Name.equal, none,
      [⟨2, .undefined, none, [], []⟩, ⟨3, .undefined, none, [], []⟩], []⟩
    literal.equal (literal.recreate 2).1 = false ∧
      root.ids.Nodup ∧ value.ids.Nodup ∧ (∀ id ∈ value.ids, id ∉ root.ids) ∧
      ∃ edited rest, (Editor.ofTree root .default).apply (.commitAggregation [.child 0] draft) 5 =
        .ok (edited, rest) ∧ ¬ edited.root.ids.Nodup := by
  refine ⟨by decide, by decide, by decide, by decide, _, _, rfl, by decide⟩

end Run

end RuleEditor

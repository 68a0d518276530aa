import RuleEditor.Proofs.Editor.Offers
import RuleEditor.Proofs.Path.Replacement

/-!
# Edits of nodes that are not there

**When.** An edit that is addressed by a path is refused as stale exactly if its target is not a node
of the tree. What can still be wrong once the node is found is that the edit does not apply to it.
The property of being never refused as stale (`Edit.NeverStale`) is put together step by step, as
the edit is.

**Which path.** Most edits look up their target first, and name it in the error, however early the
look-up breaks off. Taking out a positional operand looks up the node above it. If even that one is
not there, the error names the path of the node above, and not the target.
-/

namespace RuleEditor

namespace Intent

/-- The edit looks up a path. An aggregation is written only if nothing is wrong with its draft,
whatever the path. -/
def Addressed : Intent → Prop
  | .addOrBranch => False
  | .addAndCondition _ => False
  | .commitAggregation _ draft => draft.isValid = true
  | _ => True

/-- The edit takes out a positional operand of the node at `above`, which is not there. -/
def BelowStale (root : Node) (above : Path) (intent : Intent) : Prop :=
  root.at? above = none ∧ ∃ index, intent = .remove (above ++ [.child index])

end Intent

/-! ## Steps that are never stale -/

namespace Edit

variable {α β : Type}

/-- The action is not refused for a stale path, whatever identities it takes. -/
def NeverStale (action : Edit α) : Prop := ∀ next stale, action next ≠ .error (.stale stale)

theorem NeverStale.bind {step : Edit α} {after : α → Edit β} (first : step.NeverStale)
    (later : ∀ value, (after value).NeverStale) : (step >>= after).NeverStale := by
  intro next stale refused
  change (step next >>= fun pair => after pair.1 pair.2) = _ at refused
  cases done : step next with
  | ok result =>
    rw [done] at refused
    exact later result.1 result.2 stale refused
  | error error =>
    rw [done] at refused
    cases refused
    exact first next stale done

theorem neverStale_fresh (action : Fresh α) : (fresh action).NeverStale := fun _ _ => nofun

theorem neverStale_applicable (kind : IntentKind) (path : Path) (found : Option α) :
    (applicable kind path found).NeverStale := by
  cases found <;> exact fun _ _ => nofun

theorem neverStale_commit (draft : Draft) : (commit draft).NeverStale := by
  intro next stale refused
  rw [commit] at refused
  split at refused <;> cases refused

theorem neverStale_located {found : Except StalePath α} (there : ∃ value, found = .ok value) :
    (located found).NeverStale := by
  obtain ⟨value, rfl⟩ := there
  exact fun _ _ => nofun

theorem neverStale_stale {action : StateT Nat (Except StalePath) α}
    (succeeds : ∀ next, ∃ result, action next = .ok result) : (stale action).NeverStale := by
  intro next path refused
  obtain ⟨result, done⟩ := succeeds next
  rw [stale, done] at refused
  cases refused

end Edit

namespace Node

variable {root node new : Node} {path above : Path} {next : Nat}

/-! ## Targets that are there -/

theorem neverStale_get (found : root.at? path = some node) :
    (Edit.located (root.get path)).NeverStale :=
  Edit.neverStale_located ⟨node, get_eq_ok.2 found⟩

theorem neverStale_put (found : root.at? path = some node) (new : Node) :
    (Edit.located (root.put path new)).NeverStale := by
  obtain ⟨updated, put⟩ := exists_put?_iff.2 ⟨node, found⟩
  exact Edit.neverStale_located ⟨updated, put_eq_ok.2 put⟩

/-- **Nothing is stale about an edit of a node that is there.** -/
theorem neverStale_reduce {intent : Intent} (found : root.at? intent.target = some node) :
    (root.reduce intent).NeverStale := by
  cases intent with
  | setOperand path operand => exact neverStale_put found operand
  | setOperator path name =>
    refine (neverStale_get found).bind fun old => ?_
    refine (Edit.neverStale_applicable _ _ _).bind fun _ => ?_
    exact (Edit.neverStale_fresh _).bind fun renamed => neverStale_put found renamed
  | appendChild path operand =>
    obtain ⟨updated, put⟩ := exists_put?_iff.2 ⟨node, found⟩
    have appended : root.append path operand = .ok updated :=
      Except.bind_eq_ok.2 ⟨node, get_eq_ok.2 found, put_eq_ok.2 put⟩
    refine (neverStale_get found).bind fun parent => ?_
    split
    · exact Edit.neverStale_located ⟨updated, appended⟩
    · exact fun _ _ => nofun
  | remove path =>
    rw [reduce]
    split
    · exact Edit.neverStale_stale fun _ => exists_removeCondition_iff.2 ⟨node, found⟩
    · exact Edit.neverStale_stale fun _ => exists_remove_iff.2 ⟨node, found⟩
  | nest path =>
    refine (neverStale_get found).bind fun line => ?_
    refine (Edit.neverStale_fresh _).bind fun made => ?_
    exact (Edit.neverStale_applicable _ _ made).bind fun nested => neverStale_put found nested
  | unnest path =>
    refine (neverStale_get found).bind fun line => ?_
    exact (Edit.neverStale_applicable _ _ _).bind fun unnested => neverStale_put found unnested
  | addOrBranch =>
    exact (Edit.neverStale_fresh _).bind fun made => Edit.neverStale_applicable _ _ made
  | addAndCondition branch =>
    exact (Edit.neverStale_fresh _).bind fun made => Edit.neverStale_applicable _ _ made
  | commitAggregation path draft =>
    exact (Edit.neverStale_commit draft).bind fun written => neverStale_put found written

/-! ## Targets that are not there -/

theorem get_of_stale (absent : root.at? path = none) : root.get path = .error ⟨path⟩ := by
  rw [get, absent]

theorem put_of_stale (absent : root.at? path = none) (new : Node) :
    root.put path new = .error ⟨path⟩ := by
  rw [put_eq_put?]
  cases put : root.put? new path with
  | none => rfl
  | some updated =>
    obtain ⟨node, found⟩ := exists_put?_iff.1 ⟨updated, put⟩
    cases absent.symm.trans found

theorem located_put_of_stale (absent : root.at? path = none) (new : Node) :
    Edit.located (root.put path new) next = .error (.stale path) := by
  rw [put_of_stale absent]
  rfl

/-- An operand is not looked for below a node that is not there. -/
theorem remove_below_stale (absent : root.at? above = none) (index : Nat) :
    root.remove (above ++ [.child index]) next = .error ⟨above⟩ := by
  simp only [remove, Path.parent?_concat, Path.last?_concat, get_of_stale absent]
  rfl

theorem remove_of_stale (absent : root.at? path = none)
    (there : ∀ above, ¬ (Intent.remove path).BelowStale root above) :
    root.remove path next = .error ⟨path⟩ := by
  rcases List.eq_nil_or_concat' path with rfl | ⟨above, segment, rfl⟩
  · cases absent
  · cases segment with
    | child index =>
      cases found : root.at? above with
      | none => exact absurd ⟨found, index, rfl⟩ (there above)
      | some parent =>
        have beyond : parent.children.length ≤ index := by
          rw [at?_concat, found] at absent
          exact List.getElem?_eq_none_iff.1 absent
        simp only [remove, Path.parent?_concat, Path.last?_concat, get_eq_ok.2 found]
        show (if _ then _ else _) = _
        rw [if_pos beyond]
        rfl
    | named key =>
      simp only [remove, Path.parent?_concat, Path.last?_concat, put_of_stale absent]
      rfl

/-- A condition is taken out like any node, and refused like any node. -/
theorem reduce_remove_of_error {stale : StalePath} (refused : root.remove path next = .error stale) :
    root.reduce (.remove path) next = .error (.stale stale.path) := by
  have condition : root.removeCondition path next = .error stale := by
    show (root.remove path next >>= _) = _
    rw [refused]
    rfl
  rw [reduce]
  split
  · rw [Edit.stale, condition]
  · rw [Edit.stale, refused]

/-- Below a node that is not there, the error names this node. -/
theorem reduce_below_stale {intent : Intent} (below : intent.BelowStale root above) :
    root.reduce intent next = .error (.stale above) := by
  obtain ⟨absent, index, rfl⟩ := below
  exact reduce_remove_of_error (remove_below_stale absent index)

/-- **An edit of a node that is not there is refused with the path of this node**, unless it takes
out an operand of a node that is not there either. -/
theorem reduce_of_stale {intent : Intent} (absent : root.at? intent.target = none)
    (addressed : intent.Addressed) (there : ∀ above, ¬ intent.BelowStale root above) :
    root.reduce intent next = .error (.stale intent.target) := by
  have unfound {after : Node → Edit Node} :
      (Edit.located (root.get intent.target) >>= after) next = .error (.stale intent.target) := by
    rw [get_of_stale absent]
    rfl
  cases intent with
  | setOperand path operand => exact located_put_of_stale absent operand
  | setOperator path name => exact unfound
  | appendChild path operand => exact unfound
  | remove path => exact reduce_remove_of_error (remove_of_stale absent there)
  | nest path => exact unfound
  | unnest path => exact unfound
  | addOrBranch => exact addressed.elim
  | addAndCondition branch => exact addressed.elim
  | commitAggregation path draft =>
    obtain ⟨⟨written, mid⟩, committed⟩ : ∃ result, Edit.commit draft next = .ok result :=
      ⟨_, Edit.commit_eq_ok.2 ⟨List.isEmpty_iff.1 addressed, rfl⟩⟩
    show (Edit.commit draft next >>= _) = _
    rw [committed]
    exact located_put_of_stale absent written

end Node

namespace Editor

/-- **Which edits are stale, and which path they name.** While a tree is edited, an edit that is
addressed by a path is refused as stale exactly if the path does not lead to a node. The error names
this path, unless the edit takes out a positional operand of a node that is not there either: then it
names the path of that node. -/
theorem stale_iff_absent (editor : Editor) (editing : editor.config.mode = .edit) (intent : Intent)
    (addressed : intent.Addressed) (supply : Nat) :
    ((∃ stale, editor.apply intent supply = .error (.stale stale)) ↔
      editor.root.at? intent.target = none) ∧
    ∀ stale, editor.apply intent supply = .error (.stale stale) →
      ((∀ above, ¬ intent.BelowStale editor.root above) → stale = intent.target) ∧
      ∀ above, intent.BelowStale editor.root above → stale = above := by
  have applied (stale : Path) : editor.apply intent supply = .error (.stale stale) ↔
      editor.root.reduce intent supply = .error (.stale stale) := by
    rw [apply_eq_of_edit editing]
    cases editor.root.reduce intent supply <;> simp [Except.map]
  simp only [applied]
  constructor
  · constructor
    · rintro ⟨stale, refused⟩
      cases found : editor.root.at? intent.target with
      | none => rfl
      | some node => exact absurd refused (Node.neverStale_reduce found supply stale)
    · intro absent
      by_cases below : ∃ above, intent.BelowStale editor.root above
      · obtain ⟨above, missing⟩ := below
        exact ⟨above, Node.reduce_below_stale missing⟩
      · exact ⟨_, Node.reduce_of_stale absent addressed (not_exists.1 below)⟩
  · intro stale refused
    constructor
    · intro there
      cases found : editor.root.at? intent.target with
      | none =>
        have named := refused.symm.trans (Node.reduce_of_stale found addressed there)
        exact EditError.stale.inj (Except.error.inj named)
      | some node => exact absurd refused (Node.neverStale_reduce found supply stale)
    · intro above missing
      have named := refused.symm.trans (Node.reduce_below_stale missing)
      exact EditError.stale.inj (Except.error.inj named)

/-- A named operand of a node that is not there: the error names the operand. -/
theorem stale_iff_absent_named :
    let editor := Editor.ofTree ⟨0, .undefined, none, [], []⟩ .default
    let intent := Intent.remove [.child 0, .named Slot.tableName]
    editor.config.mode = .edit ∧ intent.Addressed ∧
      editor.apply intent 1 = .error (.stale [.child 0, .named Slot.tableName]) := by
  intro editor intent
  have there (above : Path) : ¬ intent.BelowStale editor.root above := by
    rintro ⟨-, index, same⟩
    have last := congrArg List.getLast? (Intent.remove.inj same)
    rw [List.getLast?_concat] at last
    cases last
  have known := stale_iff_absent editor rfl intent trivial 1
  obtain ⟨stale, refused⟩ := known.1.2 rfl
  obtain rfl := (known.2 stale refused).1 there
  exact ⟨rfl, trivial, refused⟩

/-- A positional operand of a node that is not there: the error names the node above. -/
theorem stale_above_target :
    let editor := Editor.ofTree ⟨0, .undefined, none, [], []⟩ .default
    let intent := Intent.remove [.child 0, .child 1]
    editor.config.mode = .edit ∧ editor.root.at? intent.target = none ∧
      editor.apply intent 1 = .error (.stale [.child 0]) ∧ intent.target ≠ [.child 0] :=
  ⟨rfl, rfl, rfl, by decide⟩

end Editor

end RuleEditor

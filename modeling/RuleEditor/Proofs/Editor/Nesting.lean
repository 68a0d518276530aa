import RuleEditor.Proofs.Editor.Merging
import RuleEditor.Proofs.Editor.Offers
import RuleEditor.Proofs.Path.Replacement

/-!
# Opening a group and closing it again

**The tree.** Opening a group moves the right operand of a line into it, as the left one of the
group. Closing the group moves it back. Both are replacements of the line, of which the second takes
back the first (`Node.put?_put?`), so the tree is the old one with all its identities.

**The editor.** What an editor shows depends on its tree and on what has been merged, and not on the
edits that led to the tree. So whenever an edit is taken back, annotations that had lost their node
find it again (`Run.Sound.showsSame_of_back`). Only the revision tells, and so the tree has to be
validated again before it may be saved.
-/

namespace RuleEditor

namespace Node

variable {node nested : Node} {next rest : Nat}

theorem isBinaryLine_withRight (node right : Node) :
    (node.withRight right).isBinaryLine = node.isBinaryLine := by
  simp [isBinaryLine, withRight, function?]

/-- A new group is a line like the one around it. -/
theorem isBinaryLine_group {operator : String} (line : node.isBinaryLine = true)
    (function : node.function? = some operator) (left right : Node) (id : Nat) :
    isBinaryLine ⟨id, .function operator, none, [left, right], []⟩ = true := by
  simp only [isBinaryLine, function, Bool.and_eq_true] at line
  simpa [isBinaryLine, function?] using line.1.1

/-- **Closing a new group gives back the line**, with its identity and those of its operands. -/
theorem unnest?_of_nest? (opened : node.nest? next = (some nested, rest)) :
    nested.unnest? = some node := by
  have line : node.isBinaryLine = true := exists_nest?_iff.1 ⟨nested, congrArg Prod.fst opened⟩
  obtain ⟨⟨operator, function⟩, -, right, second⟩ := exists_of_isBinaryLine line
  rw [nest?, line, function, second] at opened
  cases opened
  have found : node.step? (.child 1) = some right := second
  let group : Node :=
    ⟨next + 1, .function operator, none, [right, ⟨next, .undefined, none, [], []⟩], []⟩
  have outer : (node.withRight group).isBinaryLine = true :=
    (isBinaryLine_withRight node group).trans line
  have inner : group.isBinaryLine = true := isBinaryLine_group line function _ _ _
  have there : (node.withRight group).child? 1 = some group := step?_setStep_self found group
  have back : (node.withRight group).withRight right = node :=
    (setStep_setStep node group right (.child 1)).trans (setStep_self found)
  show (node.withRight group).unnest? = some node
  rw [unnest?, there]
  show (if (node.withRight group).isBinaryLine && group.isBinaryLine then
    some ((node.withRight group).withRight right) else none) = some node
  rw [outer, inner, back]
  rfl

/-- **Closing a new group gives back the tree.** -/
theorem reduce_unnest_of_nest {root updated : Node} {path : Path}
    (opened : root.reduce (.nest path) next = .ok (updated, rest)) (supply : Nat) :
    (∃ line, updated.at? path = some line ∧ updated.Admits path line .unnest) ∧
      updated.reduce (.unnest path) supply = .ok (root, supply) := by
  cases reduce_spec opened with
  | @nest _ node nested _ _ found made put =>
    have there : updated.at? path = some nested := at?_put? put
    have closed := unnest?_of_nest? made
    have back : updated.put? node path = some root := (put?_put? put node).trans (put?_self found)
    refine ⟨⟨nested, there, exists_unnest?_iff.1 ⟨node, closed⟩⟩, ?_⟩
    refine StateT.bind_eq_ok.2 ⟨nested, supply, Edit.located_eq_ok.2 ⟨get_eq_ok.2 there, rfl⟩, ?_⟩
    refine StateT.bind_eq_ok.2 ⟨node, supply, Edit.applicable_eq_ok.2 ⟨closed, rfl⟩, ?_⟩
    exact Edit.located_eq_ok.2 ⟨put_eq_ok.2 back, rfl⟩

end Node

namespace Editor

/-- The editors show the same: the same nodes with the same errors and evaluations. -/
structure ShowsSame (editor other : Editor) : Prop where
  root : other.root = editor.root
  localErrors : other.validation.localErrors = editor.validation.localErrors
  visible : other.validation.visible = editor.validation.visible
  view : other.view = editor.view

theorem showsSame_of_annotations {editor other : Editor} (root : other.root = editor.root)
    (localErrors : other.validation.localErrors = editor.validation.localErrors)
    (visible : other.validation.visible = editor.validation.visible) :
    editor.ShowsSame other where
  root := root
  localErrors := localErrors
  visible := visible
  view := by
    rw [view, ValidationState.mergedErrors, ValidationState.evaluations, root, localErrors, visible]
    rfl

end Editor

namespace Run

variable {run : Run}

/-- **An editor whose tree has come back shows what it showed**, whatever tree it had in between. -/
theorem Sound.showsSame_of_back (sound : Sound run) (between : Node) :
    run.editor.ShowsSame ((run.editor.advance between).advance run.editor.root) := by
  refine Editor.showsSame_of_annotations rfl sound.localErrors.symm ?_
  rw [sound.visible, ValidationState.refresh, sound.root]
  rfl

theorem step_of_apply {intent : Intent} {supply rest : Nat} {editor : Editor}
    (applied : run.editor.apply intent supply = .ok (editor, rest)) :
    run.step (.apply intent supply) = run.edited editor := by
  rw [step, applied]

/-- Nothing that was logged is lost. -/
theorem exists_log_steps (run : Run) (later : List Operation) :
    ∃ newer, (run.steps later).log = newer ++ run.log := by
  refine steps_induction (P := fun next => ∃ newer, next.log = newer ++ run.log) ?_ ⟨[], rfl⟩ later
  rintro before after made ⟨newer, log⟩
  rcases made.log with same | ⟨event, more⟩
  · exact ⟨newer, same.trans log⟩
  · exact ⟨event :: newer, by rw [more, log, List.cons_append]⟩

/-- A tree that has just been edited may be saved once a response for its revision, or for the one
that later edits have led to, has been merged. -/
theorem exists_answered_of_canSave {root : Node} {config : EditorConfig}
    {operations later : List Operation} {tree : Node} {older : Log}
    (edited : (Run.of root config operations).log = .edited tree :: older) :
    let run := (Run.of root config operations).steps later
    run.editor.canSave = true → ∃ newer response,
      run.log = newer ++ .edited tree :: older ∧
        .answered run.editor.revision response true ∈ newer := by
  intro run saved
  have same : run = Run.of root config (operations ++ later) := (of_append ..).symm
  have sound : Sound run := same ▸ .of root config _
  have timely : Timely run := same ▸ .of root config _
  obtain ⟨newer, log⟩ := exists_log_steps (Run.of root config operations) later
  rw [edited] at log
  rw [Editor.canSave, canSave_eq_true_iff, sound.current] at saved
  obtain ⟨-, merged, there, now, -⟩ := saved
  obtain ⟨response, last, -⟩ := sound.server_of_revision there now
  exact ⟨newer, response, log, Log.mem_of_merged? (timely.merged_since last log)⟩

/-- **A group that is opened can be closed again, and nothing but the revision has changed.** In
every state of every run in which a group can be opened at a path, closing it is then on offer there
and gives back the tree, with all identities and named operands in their order. So the errors of the
structure, the visible annotations and the view are those from before. The revision is two further
on, and the tree may not be saved until a response for its new revision has been merged. -/
theorem unnest_restores (root : Node) (config : EditorConfig) (operations : List Operation)
    (path : Path) (supply : Nat) {nested : Editor} {rest : Nat}
    (opened : (Run.of root config operations).editor.apply (.nest path) supply =
      .ok (nested, rest)) (supply' : Nat) :
    let editor := (Run.of root config operations).editor
    let back := Run.of root config
      (operations ++ [.apply (.nest path) supply, .apply (.unnest path) supply'])
    .unnest ∈ nested.offered path ∧
      nested.apply (.unnest path) supply' = .ok (back.editor, supply') ∧
      editor.ShowsSame back.editor ∧
      back.editor.revision = editor.revision + 2 ∧
      ∀ later, let run := back.steps later
        run.editor.canSave = true → ∃ newer response, run.log = newer ++ back.log ∧
          .answered run.editor.revision response true ∈ newer := by
  intro editor back
  obtain ⟨viewless, between, reduced, rfl⟩ := Editor.apply_eq_ok opened
  have editing : editor.config.mode = .edit := by
    cases mode : editor.config.mode with
    | view => exact absurd mode viewless
    | edit => rfl
  obtain ⟨admits, closed⟩ := Node.reduce_unnest_of_nest reduced supply'
  have applied : (editor.advance between).apply (.unnest path) supply' =
      .ok ((editor.advance between).advance editor.root, supply') :=
    Editor.apply_of_reduce editing closed
  have made : back = ((Run.of root config operations).edited (editor.advance between)).edited
      ((editor.advance between).advance editor.root) := by
    show Run.of root config (operations ++ _) = _
    rw [of_append]
    show ((Run.of root config operations).step (.apply (.nest path) supply)).step
      (.apply (.unnest path) supply') = _
    rw [step_of_apply opened]
    exact step_of_apply applied
  have still : (editor.advance between).config.mode = .edit := editing
  refine ⟨(Editor.mem_offered_iff still).2 admits, by rw [applied, made]; rfl, ?_, ?_, ?_⟩
  · rw [made]
    exact (Sound.of root config operations).showsSame_of_back between
  · rw [made]
    rfl
  · intro later run saved
    have log : back.log = .edited editor.root :: .edited between :: _ := congrArg Run.log made
    rw [log]
    exact exists_answered_of_canSave log saved

/-- The right operand of a line is a line itself, and the server rejects it. Inside a new group it is
at another path and its error is not seen; once the group is closed, it is seen again. -/
theorem unnest_restores_rejected_operand :
    let one (id : Nat) : Node := ⟨id, .constant, some (.int 1), [], []⟩
    let inner : Node := ⟨2, .function Name.greater, none, [one 3, one 4], []⟩
    let line : Node := ⟨1, .function Name.greater, none, [one 5, inner], []⟩
    let root : Node := ⟨0, .function Name.and, none, [line], []⟩
    let rejected : EvaluationError := .ofCode .argumentInvalidType
    let response : Response := ⟨[⟨"root.children.0.children.1", rejected⟩], []⟩
    let operations : List Operation := [.beginValidation, .acceptValidation 0 response]
    let path : Path := [.child 0]
    let run := Run.of root .default operations
    let back := Run.of root .default (operations ++ [.apply (.nest path) 6, .apply (.unnest path) 8])
    (∃ nested rest, run.editor.apply (.nest path) 6 = .ok (nested, rest) ∧
      nested.validation.visible.errors.errorsAt [.child 0, .child 1] = [] ∧
      .unnest ∈ nested.offered path) ∧
    run.editor.validation.visible.errors.errorsAt [.child 0, .child 1] = [rejected] ∧
    back.editor.root = root ∧
    back.editor.validation.visible.errors.errorsAt [.child 0, .child 1] = [rejected] := by
  intro one inner line root rejected response operations path run back
  obtain ⟨nested, rest, opened, hidden⟩ : ∃ nested rest,
      run.editor.apply (.nest path) 6 = .ok (nested, rest) ∧
        nested.validation.visible.errors.errorsAt [.child 0, .child 1] = [] :=
    ⟨_, _, rfl, by decide +kernel⟩
  have seen : run.editor.validation.visible.errors.errorsAt [.child 0, .child 1] = [rejected] := by
    decide +kernel
  obtain ⟨offered, -, same, -, -⟩ := unnest_restores root .default operations path 6 opened 8
  exact ⟨⟨nested, rest, opened, hidden, offered⟩, seen, same.root, same.visible ▸ seen⟩

end Run

end RuleEditor

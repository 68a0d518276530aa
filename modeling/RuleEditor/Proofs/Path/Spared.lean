import RuleEditor.Proofs.Editor.Branches

/-!
# What a change leaves alone

**The place.** Every change has a place: the path of the subtree that it replaces, adds or takes
out. A node above the place is rebuilt and keeps its identity; a node that is neither above nor
below it stays the very node that it was (`Node.Spares`).

**Moving.** Nodes stay at their paths, with one exception: when an operand is taken out without a
trace, the operands behind it move up (`Path.close`).

**Composition.** What a change of an operand spares, the change of the whole tree spares too, one
step further down (`Node.Spares.setStep`), and so does the change at any path (`Node.Spares.put?`).
-/

namespace RuleEditor

namespace Path

/-- Where a path leads once the operand at `gap` is gone. -/
def close : Path → Path → Path
  | [.child gap], .child index :: below =>
    .child (if gap < index then index - 1 else index) :: below
  | segment :: gap, other :: below =>
    if segment = other then other :: close gap below else other :: below
  | _, path => path

theorem close_cons {gap path : Path} (deeper : gap ≠ []) (segment : Segment) :
    close (segment :: gap) (segment :: path) = segment :: close gap path := by
  cases gap with
  | nil => exact absurd rfl deeper
  | cons next gap => cases segment <;> simp [close]

theorem close_cons_of_ne {gap path : Path} {segment other : Segment} (deeper : gap ≠ [])
    (apart : segment ≠ other) : close (segment :: gap) (other :: path) = other :: path := by
  cases gap with
  | nil => exact absurd rfl deeper
  | cons next gap => cases segment <;> simp [close, apart]

/-- Where a path leads after a change at a place that may have closed a gap. -/
def moved (closes : Bool) (place path : Path) : Path := if closes then close place path else path

variable {closes : Bool} {place path : Path} {segment other : Segment}

theorem moved_cons (deeper : closes = false ∨ place ≠ []) :
    moved closes (segment :: place) (segment :: path) = segment :: moved closes place path := by
  cases closes with
  | false => rfl
  | true => exact close_cons (deeper.resolve_left Bool.false_ne_true.symm) segment

theorem moved_cons_of_ne (deeper : closes = false ∨ place ≠ []) (apart : segment ≠ other) :
    moved closes (segment :: place) (other :: path) = other :: path := by
  cases closes with
  | false => rfl
  | true => exact close_cons_of_ne (deeper.resolve_left Bool.false_ne_true.symm) apart

end Path

namespace Node

variable {root node operand new updated : Node} {path place : Path} {segment : Segment}
  {closes : Bool} {index : Nat}

/-- What a change at a place leaves alone. -/
structure Spares (root updated : Node) (place : Path) (closes : Bool) : Prop where
  /-- A node above the place keeps its identity and its path. -/
  above : ∀ {path node}, root.at? path = some node → path <+: place → path ≠ place →
    ∃ changed, updated.at? path = some changed ∧ changed.id = node.id
  /-- A node that is neither above nor below the place is the same node as before. -/
  outside : ∀ {path node}, root.at? path = some node → ¬ path <+: place → ¬ place <+: path →
    updated.at? (Path.moved closes place path) = some node

/-! ## One step -/

theorem id_setStep (node new : Node) (segment : Segment) :
    (node.setStep new segment).id = node.id := by
  cases segment <;> rfl

theorem step?_setStep_self (found : node.step? segment = some operand) (new : Node) :
    (node.setStep new segment).step? segment = some new := by
  cases segment with
  | child index => exact List.getElem?_set_self (List.getElem?_eq_some_iff.1 found).1
  | named key => exact (Entries.get?_store key key new node.named).trans (if_pos rfl)

theorem step?_setStep_of_ne {other : Segment} (apart : segment ≠ other) (node new : Node) :
    (node.setStep new segment).step? other = node.step? other := by
  cases segment with
  | child index =>
    cases other with
    | child position =>
      exact List.getElem?_set_ne fun same => apart (congrArg Segment.child same)
    | named key => rfl
  | named key =>
    cases other with
    | child position => rfl
    | named slot =>
      exact (Entries.get?_store key slot new node.named).trans
        (if_neg fun same => apart (congrArg Segment.named same))

/-- The new node is where the old one was. -/
theorem at?_put? (put : root.put? new path = some updated) : updated.at? path = some new := by
  induction path generalizing root updated with
  | nil =>
    cases put
    rfl
  | cons segment path ih =>
    obtain ⟨operand, step, put⟩ := Option.bind_eq_some_iff.1 put
    obtain ⟨changed, inner, same⟩ := Option.bind_eq_some_iff.1 put
    cases same
    rw [at?, step?_setStep_self step]
    exact ih inner

namespace Spares

/-- A change of the whole tree. -/
theorem whole (root updated : Node) : root.Spares updated [] false where
  above := fun _ within other => absurd (List.prefix_nil.1 within) other
  outside := fun _ _ apart => absurd List.nil_prefix apart

/-- An operand is changed. -/
theorem setStep (found : node.step? segment = some operand)
    (spares : operand.Spares new place closes) (deeper : closes = false ∨ place ≠ []) :
    node.Spares (node.setStep new segment) (segment :: place) closes where
  above := by
    intro path kept there within other
    cases path with
    | nil =>
      cases there
      exact ⟨_, rfl, id_setStep node new segment⟩
    | cons step path =>
      obtain ⟨rfl, below⟩ := List.cons_prefix_cons.1 within
      obtain ⟨_, again, there⟩ := Option.bind_eq_some_iff.1 there
      cases found.symm.trans again
      obtain ⟨changed, there, same⟩ := spares.above there below fun eq => other (eq ▸ rfl)
      refine ⟨changed, ?_, same⟩
      rw [at?, step?_setStep_self found]
      exact there
  outside := by
    intro path kept there beside apart
    cases path with
    | nil => exact absurd List.nil_prefix beside
    | cons step path =>
      by_cases same : segment = step
      · subst same
        obtain ⟨_, again, there⟩ := Option.bind_eq_some_iff.1 there
        cases found.symm.trans again
        rw [Path.moved_cons deeper, at?, step?_setStep_self found]
        exact spares.outside there (fun within => beside (List.cons_prefix_cons.2 ⟨rfl, within⟩))
          fun within => apart (List.cons_prefix_cons.2 ⟨rfl, within⟩)
      · rw [Path.moved_cons_of_ne deeper same, at?, step?_setStep_of_ne same]
        exact there

/-- **A node of the tree is changed.** -/
theorem put? (found : root.at? path = some node) (put : root.put? new path = some updated)
    (spares : node.Spares new place closes) (deeper : closes = false ∨ place ≠ []) :
    root.Spares updated (path ++ place) closes := by
  induction path generalizing root updated with
  | nil =>
    cases found
    cases put
    exact spares
  | cons segment path ih =>
    obtain ⟨operand, step, found⟩ := Option.bind_eq_some_iff.1 found
    obtain ⟨_, again, put⟩ := Option.bind_eq_some_iff.1 put
    cases step.symm.trans again
    obtain ⟨changed, inner, same⟩ := Option.bind_eq_some_iff.1 put
    cases same
    have further := deeper.imp_right (List.append_ne_nil_of_right_ne_nil path)
    exact setStep step (ih found inner) further

/-- A node of the tree is replaced. -/
theorem replaced (found : root.at? path = some node) (put : root.put? new path = some updated) :
    root.Spares updated path false := by
  have spares := Spares.put? found put (whole node new) (Or.inl rfl)
  rwa [List.append_nil] at spares

/-- An operand is added or taken out, and each of the others is found at some segment. -/
theorem of_operands (same : updated.id = node.id)
    (others : ∀ {segment operand}, node.step? segment = some operand → segment ≠ .child index →
      ∃ target, updated.step? target = some operand ∧
        ∀ below, Path.moved closes [.child index] (segment :: below) = target :: below) :
    node.Spares updated [.child index] closes where
  above := by
    intro path kept there within other
    cases path with
    | nil =>
      cases there
      exact ⟨updated, rfl, same⟩
    | cons segment path =>
      obtain ⟨rfl, below⟩ := List.cons_prefix_cons.1 within
      exact absurd (congrArg _ (List.prefix_nil.1 below)) other
  outside := by
    intro path kept there beside apart
    cases path with
    | nil => exact absurd List.nil_prefix beside
    | cons segment path =>
      obtain ⟨operand, found, there⟩ := Option.bind_eq_some_iff.1 there
      have other : segment ≠ .child index := by
        rintro rfl
        exact apart (List.cons_prefix_cons.2 ⟨rfl, List.nil_prefix⟩)
      obtain ⟨target, step, moved⟩ := others found other
      rw [moved, at?, step]
      exact there

/-- An operand is added behind the positional ones. -/
theorem push (node operand : Node) :
    node.Spares (node.push operand) [.child node.children.length] false := by
  refine Spares.of_operands rfl fun {segment operand} found other => ⟨segment, ?_, fun below => rfl⟩
  cases segment with
  | child position =>
    have bound : position < node.children.length := (List.getElem?_eq_some_iff.1 found).1
    exact (List.getElem?_append_left bound).trans found
  | named key => exact found

/-- An operand is taken out without a trace. -/
theorem erased (node : Node) (index : Nat) :
    node.Spares (node.withoutOperand index) [.child index] true := by
  refine Spares.of_operands rfl fun {segment operand} found other => ?_
  cases segment with
  | child position =>
    have apart : position ≠ index := fun same => other (congrArg Segment.child same)
    refine ⟨.child (if index < position then position - 1 else position), ?_, fun below => rfl⟩
    have there : node.children[position]? = some operand := found
    show (node.children.eraseIdx index)[_]? = some operand
    by_cases behind : index < position
    · rw [if_pos behind, List.getElem?_eraseIdx_of_ge (by omega), Nat.sub_add_cancel (by omega),
        there]
    · rw [if_neg behind, List.getElem?_eraseIdx_of_lt (by omega), there]
  | named key => exact ⟨.named key, found, fun below => rfl⟩

end Spares

end Node

end RuleEditor

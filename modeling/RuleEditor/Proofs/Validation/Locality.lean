import Mathlib.Data.Option.Basic
import RuleEditor.Proofs.Path.Spared
import RuleEditor.Proofs.Validation.Complete
import RuleEditor.Proofs.Validation.Places

/-!
# How far local validation looks

**Resemblance.** The checks of a node look at its name and its operands, and at an operand no
further than at its name and at the strings that it holds (`Node.LooksLike`). So nodes with the same
name and with operands that look alike get the same findings (`Node.Resembles.nodeFindings_eq`).

**The walk.** What is found below a path is found at a path that begins with it
(`Node.prefix_of_mem_walkFindings`).

**Locality** (`Node.errorsAt_validateLocal_put`). When a node is replaced, the nodes strictly above
the one that holds it still resemble what they were, and all other findings are below the holder. So
no error changes at a path that does not begin with that of the holder.
-/

namespace RuleEditor

/-- What is read of values that look alike is the same. -/
theorem Option.Rel.bind_eq {α β : Type} {R : α → α → Prop} {f : α → Option β} {one other : Option α}
    (related : Option.Rel R one other) (same : ∀ a b, R a b → f a = f b) :
    one.bind f = other.bind f := by
  cases related with
  | some alike => exact same _ _ alike
  | none => rfl

namespace Node

variable {node other operand old new root updated : Node} {context : Option Context}
  {base above place path : Path} {segment : Segment} {name : String}

/-! ## What the checks look at -/

/-- The strings in the list that the node holds, if it holds one. -/
def strings (node : Node) : List String :=
  match node.constant with
  | some (.list items) => items.filterMap Constant.string?
  | _ => []

/-- What a check can tell of an operand is the same. -/
structure LooksLike (operand other : Node) : Prop where
  name : operand.name = other.name
  string : operand.string? = other.string?
  strings : operand.strings = other.strings

/-- The nodes have the same name, and their operands look alike. -/
structure Resembles (node other : Node) : Prop where
  name : node.name = other.name
  operands : ∀ segment, Option.Rel LooksLike (node.step? segment) (other.step? segment)

theorem LooksLike.of_eq (name : operand.name = other.name)
    (constant : operand.constant = other.constant) : operand.LooksLike other where
  name := name
  string := by rw [string?, string?, constant]
  strings := by rw [Node.strings, Node.strings, constant]

theorem LooksLike.refl (operand : Node) : operand.LooksLike operand := .of_eq rfl rfl

theorem LooksLike.isUndefined_eq (alike : operand.LooksLike other) :
    operand.isUndefined = other.isUndefined := by
  rw [isUndefined, isUndefined, alike.name]

theorem all_applies_eq {operands others : List Node}
    (alike : List.Forall₂ LooksLike operands others) (name : String) :
    operands.all (·.applies name) = others.all (·.applies name) := by
  induction alike with
  | nil => rfl
  | cons same _ ih => rw [List.all_cons, List.all_cons, ih, applies, applies, same.name]

theorem links_eq (node : Node) :
    node.links = ((node.slot? Slot.path).bind fun operand => some operand.strings).getD [] := by
  rw [links]
  cases node.slot? Slot.path with
  | none => rfl
  | some operand => rfl

namespace Resembles

theorem slot (alike : node.Resembles other) (key : String) :
    Option.Rel LooksLike (node.slot? key) (other.slot? key) := alike.operands (.named key)

theorem slotString?_eq (alike : node.Resembles other) (key : String) :
    node.slotString? key = other.slotString? key :=
  Option.Rel.bind_eq (alike.slot key) fun _ _ same => same.string

theorem links_eq (alike : node.Resembles other) : node.links = other.links := by
  rw [Node.links_eq, Node.links_eq,
    Option.Rel.bind_eq (alike.slot Slot.path) fun _ _ same => congrArg some same.strings]

theorem function?_eq (alike : node.Resembles other) : node.function? = other.function? := by
  rw [function?, function?, alike.name]

theorem applies_eq (alike : node.Resembles other) (name : String) :
    node.applies name = other.applies name := by
  rw [applies, applies, alike.name]

/-- The positional operands look alike one by one. -/
theorem children (alike : node.Resembles other) :
    List.Forall₂ LooksLike node.children other.children := by
  have positions (index : Nat) :
      Option.Rel LooksLike node.children[index]? other.children[index]? :=
    alike.operands (.child index)
  generalize node.children = nodes at positions
  generalize other.children = others at positions
  induction nodes generalizing others with
  | nil =>
    cases others with
    | nil => exact .nil
    | cons first rest => nomatch positions 0
  | cons node nodes ih =>
    cases others with
    | nil => nomatch positions 0
    | cons first rest =>
      cases positions 0 with
      | some here => exact .cons here (ih rest fun index => positions (index + 1))

end Resembles

theorem operandFindings_eq {operands others : List Node} (path : Path) (index : Nat)
    (alike : List.Forall₂ LooksLike operands others) :
    operandFindings path index operands = operandFindings path index others := by
  induction alike generalizing index with
  | nil => rfl
  | cons same _ ih => rw [operandFindings, operandFindings, same.isUndefined_eq, ih]

namespace Resembles

theorem arityFindings_eq (alike : node.Resembles other) (path : Path) (name : String) :
    node.arityFindings path name = other.arityFindings path name := by
  rw [arityFindings, arityFindings, alike.children.length_eq]

theorem slotFindings_eq (alike : node.Resembles other) (path : Path) (name slot : String) :
    node.slotFindings path name slot = other.slotFindings path name slot := by
  rw [slotFindings, slotFindings, filterNeedsValue, filterNeedsValue,
    alike.slotString?_eq]
  congr 1
  have related := alike.slot slot
  generalize node.slot? slot = here at related
  generalize other.slot? slot = there at related
  cases related with
  | some same => simp only [same.isUndefined_eq]
  | none => rfl

theorem aggregatorFindings_eq (alike : node.Resembles other) (path : Path) (name : String) :
    node.aggregatorFindings path name = other.aggregatorFindings path name := by
  rw [aggregatorFindings, aggregatorFindings, alike.slotString?_eq]

theorem referenceFindings_eq (alike : node.Resembles other) (known : Context) (path : Path)
    (name : String) :
    node.referenceFindings known path name = other.referenceFindings known path name := by
  have field : (node.child? 0).bind string? = (other.child? 0).bind string? :=
    Option.Rel.bind_eq (alike.operands (.child 0)) fun _ _ same => same.string
  simp only [referenceFindings, alike.slotString?_eq, alike.links_eq, field]

/-- **Nodes that resemble each other get the same findings.** -/
theorem nodeFindings_eq (alike : node.Resembles other) (context : Option Context) (path : Path) :
    node.nodeFindings context path = other.nodeFindings context path := by
  have slots (name : String) : node.slotFindings path name = other.slotFindings path name :=
    funext fun slot => alike.slotFindings_eq path name slot
  simp only [nodeFindings, alike.function?_eq, alike.arityFindings_eq,
    operandFindings_eq path 0 alike.children, slots, alike.aggregatorFindings_eq,
    alike.referenceFindings_eq]

theorem isOrOfAnd_eq (alike : node.Resembles other) : node.isOrOfAnd = other.isOrOfAnd := by
  rw [isOrOfAnd, isOrOfAnd, alike.applies_eq, all_applies_eq alike.children]

theorem rootFindings_eq (alike : node.Resembles other) (kind : RootKind) :
    node.rootFindings kind = other.rootFindings kind := by
  cases kind with
  | trigger =>
    have shape :
        (node.layout Path.root).isTriggerRoot = (other.layout Path.root).isTriggerRoot := by
      rw [Bool.eq_iff_iff, isTriggerRoot_layout_iff, isTriggerRoot_layout_iff, alike.applies_eq,
        alike.isOrOfAnd_eq]
    rw [rootFindings, rootFindings, shape]
  | rule => rw [rootFindings, rootFindings, isUndefined, isUndefined, alike.name]

end Resembles

/-! ## Findings by path -/

/-- What is found about the nodes of a tree that stands at a path. -/
def walkFindings (context : Option Context) (base : Path) (node : Node) : List Finding :=
  (walkFrom base node).flatMap fun entry => entry.2.nodeFindings context entry.1

/-- The findings about one path. -/
def about (place : Path) (findings : List Finding) : List Finding :=
  findings.filter (·.1 = place)

theorem about_append (place : Path) (findings more : List Finding) :
    about place (findings ++ more) = about place findings ++ about place more :=
  List.filter_append ..

theorem about_eq_nil {findings : List Finding}
    (elsewhere : ∀ finding ∈ findings, finding.1 ≠ place) :
    about place findings = [] :=
  List.filter_eq_nil_iff.2 fun finding found => by simpa using elsewhere finding found

/-- The errors of a path are the findings about it. -/
theorem errorsAt_validateLocal (root : Node) (kind : RootKind) (context : Option Context)
    (path : Path) :
    (root.validateLocal kind context).errorsAt path =
      (about path (root.rootFindings kind) ++ about path (root.walkFindings context [])).map
        Prod.snd := by
  rw [validateLocal, PathErrors.errorsAt_addAll, ← about_append]
  rfl

theorem walkFindings_eq (context : Option Context) (base : Path) (node : Node) :
    node.walkFindings context base = node.nodeFindings context base ++
      node.operands.flatMap fun entry => entry.2.walkFindings context (base ++ [entry.1]) := by
  rw [walkFindings, walkFrom_eq, List.flatMap_cons, List.flatMap_assoc]
  rfl

theorem Blames.within (blames : node.Blames base place) : base <+: place := by
  cases blames with
  | self => exact List.prefix_rfl
  | operand => exact List.prefix_append ..

/-- **What is found below a path is found at paths that begin with it.** -/
theorem prefix_of_mem_walkFindings {finding : Finding}
    (found : finding ∈ node.walkFindings context base) : base <+: finding.1 := by
  induction node using induction_operands generalizing base with
  | step node ih =>
    rw [walkFindings_eq, List.mem_append, List.mem_flatMap] at found
    rcases found with here | ⟨entry, mem, below⟩
    · exact (blames_of_mem_nodeFindings here).within
    · exact (List.prefix_append base [entry.1]).trans (ih entry mem below)

theorem about_walkFindings_of_apart (apart : ¬ base <+: place) :
    about place (node.walkFindings context base) = [] :=
  about_eq_nil fun _ found same => apart (same ▸ prefix_of_mem_walkFindings found)

/-! ## Replacing a node -/

/-- The root keeps its name and its literal when a node below it is replaced. -/
theorem looksLike_put? (put : node.put? new path = some updated) (deeper : path ≠ []) :
    node.LooksLike updated := by
  cases path with
  | nil => exact absurd rfl deeper
  | cons segment path =>
    obtain ⟨operand, step, put⟩ := Option.bind_eq_some_iff.1 put
    obtain ⟨changed, inner, same⟩ := Option.bind_eq_some_iff.1 put
    cases same
    cases segment <;> exact .of_eq rfl rfl

theorem resembles_setStep (step : node.step? segment = some old) (alike : old.LooksLike new) :
    node.Resembles (node.setStep new segment) where
  name := by cases segment <;> rfl
  operands := by
    intro other
    by_cases same : segment = other
    · subst same
      rw [step, step?_setStep_self step]
      exact .some alike
    · rw [step?_setStep_of_ne same]
      cases node.step? other with
      | none => exact .none
      | some operand => exact .some (.refl operand)

/-- A node that is strictly above the one that holds the replaced node does not see the change. -/
theorem resembles_put? (put : node.put? new (above ++ [segment]) = some updated)
    (deeper : above ≠ []) : node.Resembles updated := by
  cases above with
  | nil => exact absurd rfl deeper
  | cons next above =>
    obtain ⟨operand, step, put⟩ := Option.bind_eq_some_iff.1 put
    obtain ⟨changed, inner, same⟩ := Option.bind_eq_some_iff.1 put
    cases same
    have further := List.append_ne_nil_of_right_ne_nil above (List.cons_ne_nil segment [])
    exact resembles_setStep step (looksLike_put? inner further)

/-- **What is found outside of the node that holds the replaced one stays.** -/
theorem about_walkFindings_put? (put : node.put? new (above ++ [segment]) = some updated)
    (apart : ¬ base ++ above <+: place) :
    about place (updated.walkFindings context base) =
      about place (node.walkFindings context base) := by
  induction above generalizing node updated base with
  | nil =>
    rw [List.append_nil] at apart
    rw [about_walkFindings_of_apart apart, about_walkFindings_of_apart apart]
  | cons next above ih =>
    have own := (resembles_put? put (List.cons_ne_nil next above)).nodeFindings_eq context base
    obtain ⟨operand, step, put⟩ := Option.bind_eq_some_iff.1 put
    obtain ⟨changed, inner, same⟩ := Option.bind_eq_some_iff.1 put
    cases same
    have deeper : ¬ (base ++ [next]) ++ above <+: place := by rwa [List.append_assoc]
    have below := ih inner deeper
    obtain ⟨before, after, split, stored⟩ := exists_operands_setStep step
    rw [walkFindings_eq, walkFindings_eq context base node, ← own, stored, split]
    simp only [List.flatMap_append, List.flatMap_cons, about_append, below]

/-- **Local validation is local.** A node that a path leads to can be replaced by any other one, and
this changes no error at a path that does not lead through the node above it. -/
theorem errorsAt_validateLocal_put (root new old : Node) (kind : RootKind)
    (context : Option Context) (path above : Path) (parent : path.parent? = some above)
    (there : root.at? path = some old) :
    ∃ updated, root.put path new = .ok updated ∧
      ∀ place, place.startsWith above = false →
        (updated.validateLocal kind context).errorsAt place =
          (root.validateLocal kind context).errorsAt place := by
  obtain ⟨updated, put⟩ := exists_put?_iff.2 ⟨old, there⟩
  refine ⟨updated, put_eq_ok.2 put, fun place beside => ?_⟩
  have apart : ¬ above <+: place := fun within =>
    Bool.false_ne_true (beside.symm.trans (List.isPrefixOf_iff_prefix.2 within))
  rcases List.eq_nil_or_concat' path with rfl | ⟨holder, segment, rfl⟩
  · cases parent
  · cases (Path.parent?_concat holder segment).symm.trans parent
    have deeper : above ≠ [] := by
      rintro rfl
      exact apart List.nil_prefix
    have below : about place (updated.walkFindings context []) =
        about place (root.walkFindings context []) := about_walkFindings_put? put apart
    rw [errorsAt_validateLocal, errorsAt_validateLocal, below,
      (resembles_put? put deeper).rootFindings_eq]

/-- A filter whose operator becomes a unary one needs no value any more: the error at its value
goes, and the error beside the filter stays. -/
theorem errorsAt_validateLocal_put_operator :
    let text (id : Nat) (value : String) : Node := ⟨id, .constant, some (.string value), [], []⟩
    let blank (id : Nat) : Node := ⟨id, .undefined, none, [], []⟩
    let root : Node := ⟨0, .function Name.and, none,
      [⟨1, .function Name.isEmpty, none, [blank 2], []⟩,
        ⟨3, .function Name.filter, none, [],
          [(Slot.operator, text 4 Name.equal), (Slot.tableName, text 5 "accounts"),
            (Slot.fieldName, text 6 "owner"), (Slot.value, blank 7)]⟩], []⟩
    let path : Path := [.child 1, .named Slot.operator]
    let beside : Path := [.child 0, .child 0]
    path.parent? = some [.child 1] ∧ root.at? path = some (text 4 Name.equal) ∧
      (root.validateLocal .rule none).keys = [beside, [.child 1, .named Slot.value]] ∧
      ∃ updated, root.put path (text 8 Name.isEmpty) = .ok updated ∧
        (updated.validateLocal .rule none).keys = [beside] ∧
        ∀ place, place.startsWith [.child 1] = false →
          (updated.validateLocal .rule none).errorsAt place =
            (root.validateLocal .rule none).errorsAt place := by
  intro text blank root path beside
  obtain ⟨updated, put, stays⟩ := errorsAt_validateLocal_put root (text 8 Name.isEmpty)
    (text 4 Name.equal) .rule none path [.child 1] rfl rfl
  refine ⟨rfl, rfl, by decide +kernel, updated, put, ?_, stays⟩
  cases put
  decide +kernel

end Node

end RuleEditor

import RuleEditor.Path.Tree
import RuleEditor.Proofs.Keyed

/-!
# Predicates that hold at every node

`Node.Everywhere P` says that `P` holds at every node of a tree.

**Listing.** It does so exactly if `P` holds at every node that `Node.walk` lists.

**Changing.** If `P` looks at a node and at the number and the keys of its operands only, replacing
an operand by a tree where `P` holds everywhere keeps `Everywhere P` (`Everywhere.put?`).

**Building.** An action that takes new identities *yields* values with a property if it gives one
whatever identities it takes. Actions are put together step by step, and so are their properties.
-/

namespace RuleEditor

namespace Node

mutual

/-- The predicate holds at every node of the tree. -/
def Everywhere (P : Node → Prop) : Node → Prop
  | ⟨id, name, constant, children, named⟩ =>
    P ⟨id, name, constant, children, named⟩ ∧ EverywhereAll P children ∧ EverywhereNamed P named

def EverywhereAll (P : Node → Prop) : List Node → Prop
  | [] => True
  | node :: rest => Everywhere P node ∧ EverywhereAll P rest

def EverywhereNamed (P : Node → Prop) : List (String × Node) → Prop
  | [] => True
  | (_, node) :: rest => Everywhere P node ∧ EverywhereNamed P rest

end

variable {P : Node → Prop} {node operand root new updated : Node} {path : Path}

theorem everywhereAll_iff {nodes : List Node} :
    EverywhereAll P nodes ↔ ∀ node ∈ nodes, Everywhere P node := by
  induction nodes with
  | nil => simp [EverywhereAll]
  | cons node rest ih => rw [EverywhereAll, ih, List.forall_mem_cons]

theorem everywhereNamed_iff {named : List (String × Node)} :
    EverywhereNamed P named ↔ ∀ entry ∈ named, Everywhere P entry.2 := by
  induction named with
  | nil => simp [EverywhereNamed]
  | cons entry rest ih => rw [EverywhereNamed, ih, List.forall_mem_cons]

theorem everywhere_iff :
    Everywhere P node ↔ P node ∧ (∀ child ∈ node.children, Everywhere P child) ∧
      ∀ entry ∈ node.named, Everywhere P entry.2 := by
  obtain ⟨id, name, constant, children, named⟩ := node
  rw [Everywhere, everywhereAll_iff, everywhereNamed_iff]

/-- A node without operands. -/
theorem everywhere_of_leaf (own : P node) (children : node.children = [])
    (named : node.named = []) : Everywhere P node := by
  rw [everywhere_iff, children, named]
  exact ⟨own, nofun, nofun⟩

/-! ## Listing -/

mutual

theorem forall_walkFrom_iff (path : Path) :
    ∀ node : Node, (∀ entry ∈ walkFrom path node, P entry.2) ↔ Everywhere P node
  | ⟨id, name, constant, children, named⟩ => by
    rw [walkFrom, Everywhere, List.forall_mem_cons, List.forall_mem_append,
      forall_walkChildren_iff path 0 children, forall_walkNamed_iff path named]

theorem forall_walkChildren_iff (path : Path) (index : Nat) :
    ∀ nodes : List Node,
      (∀ entry ∈ walkChildren path index nodes, P entry.2) ↔ EverywhereAll P nodes
  | [] => iff_of_true nofun trivial
  | child :: rest => by
    rw [walkChildren, EverywhereAll, List.forall_mem_append, forall_walkFrom_iff _ child,
      forall_walkChildren_iff path (index + 1) rest]

theorem forall_walkNamed_iff (path : Path) :
    ∀ named : List (String × Node),
      (∀ entry ∈ walkNamed path named, P entry.2) ↔ EverywhereNamed P named
  | [] => iff_of_true nofun trivial
  | (key, child) :: rest => by
    rw [walkNamed, EverywhereNamed, List.forall_mem_append, forall_walkFrom_iff _ child,
      forall_walkNamed_iff path rest]

end

theorem everywhere_iff_walk : Everywhere P node ↔ ∀ entry ∈ node.walk, P entry.2 :=
  (forall_walkFrom_iff Path.root node).symm

theorem Everywhere.mono {Q : Node → Prop} (everywhere : Everywhere P node)
    (weaker : ∀ node, P node → Q node) : Everywhere Q node :=
  everywhere_iff_walk.2 fun entry listed =>
    weaker entry.2 (everywhere_iff_walk.1 everywhere entry listed)

/-! ## Looking up -/

theorem Everywhere.step? {segment : Segment} (everywhere : Everywhere P node)
    (found : node.step? segment = some operand) : Everywhere P operand := by
  obtain ⟨-, children, named⟩ := everywhere_iff.1 everywhere
  cases segment with
  | child index => exact children operand (List.mem_of_getElem? found)
  | named key => exact named (key, operand) (Entries.mem_of_get? found)

theorem Everywhere.at? (everywhere : Everywhere P root) (found : root.at? path = some node) :
    Everywhere P node := by
  induction path generalizing root with
  | nil =>
    cases found
    exact everywhere
  | cons segment rest ih =>
    obtain ⟨operand, step, below⟩ := Option.bind_eq_some_iff.1 found
    exact ih (everywhere.step? step) below

/-! ## Changing -/

theorem Everywhere.setStep {segment : Segment} (own : P (node.setStep operand segment))
    (everywhere : Everywhere P node) (new : Everywhere P operand) :
    Everywhere P (node.setStep operand segment) := by
  obtain ⟨-, children, named⟩ := everywhere_iff.1 everywhere
  refine everywhere_iff.2 ⟨own, ?_⟩
  cases segment with
  | child index =>
    refine ⟨fun child mem => ?_, named⟩
    rcases List.mem_or_eq_of_mem_set mem with before | rfl
    · exact children child before
    · exact new
  | named key =>
    refine ⟨children, fun entry mem => ?_⟩
    rcases Entries.eq_or_mem_of_mem_store mem with same | before
    · exact same ▸ new
    · exact named entry before

/-- **Replacing a node keeps a predicate that holds everywhere**, if no node loses it when one of
its operands is replaced. -/
theorem Everywhere.put?
    (stable : ∀ (node operand : Node) (segment : Segment),
      P node → P (node.setStep operand segment))
    (everywhere : Everywhere P root) (newEverywhere : Everywhere P new)
    (put : root.put? new path = some updated) : Everywhere P updated := by
  induction path generalizing root updated with
  | nil =>
    cases put
    exact newEverywhere
  | cons segment rest ih =>
    obtain ⟨operand, step, put⟩ := Option.bind_eq_some_iff.1 put
    obtain ⟨below, replaced, same⟩ := Option.bind_eq_some_iff.1 put
    cases same
    have own := stable root below segment (everywhere_iff.1 everywhere).1
    exact everywhere.setStep own (ih (everywhere.step? step) replaced)

end Node

/-! ## Building -/

namespace Fresh

variable {α β : Type} {P : α → Prop} {Q : β → Prop}

/-- The action gives a value with the property, whatever identities it takes. -/
def Yields (action : Fresh α) (P : α → Prop) : Prop := ∀ next, P (action next).1

theorem yields_pure {value : α} (h : P value) : Yields (pure value) P := fun _ => h

/-- Where there is nothing, all of it has the property. -/
theorem yields_none : (pure none : Fresh (Option α)).Yields fun found =>
    ∀ value, found = some value → P value := yields_pure nofun

theorem Yields.bind {action : Fresh α} {after : α → Fresh β} (h : action.Yields P)
    (following : ∀ value, P value → (after value).Yields Q) : Yields (action >>= after) Q :=
  fun next => following _ (h next) _

end Fresh

namespace Node

variable {P : Node → Prop}

theorem yields_undefined (own : ∀ id, P ⟨id, .undefined, none, [], []⟩) :
    undefined.Yields (Everywhere P) :=
  fun next => everywhere_of_leaf (own next) rfl rfl

theorem yields_literal {value : Constant} (own : ∀ id, P ⟨id, .constant, some value, [], []⟩) :
    (literal value).Yields (Everywhere P) :=
  fun next => everywhere_of_leaf (own next) rfl rfl

theorem yields_apply {name : String} {children : List Node}
    (own : ∀ id, P ⟨id, .function name, none, children, []⟩)
    (below : ∀ child ∈ children, Everywhere P child) :
    (apply name children).Yields (Everywhere P) :=
  fun next => everywhere_iff.2 ⟨own next, below, nofun⟩

end Node

end RuleEditor

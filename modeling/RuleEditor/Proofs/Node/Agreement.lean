import RuleEditor.Editor.Basic
import RuleEditor.Proofs.Node.Alike
import RuleEditor.Proofs.Node.Equal
import RuleEditor.Proofs.Editor.Distinct
import RuleEditor.Proofs.Path.Spared

/-!
# Equality of trees, path by path

**One step.** Two nodes are equal exactly if they have equal labels (`Node.SameLabel`: the name and
the literal) and, whatever segment is taken, equal operands there or none (`Node.equal_iff_step?`).

**All paths.** So trees are equal exactly if they have nodes at the same paths, with equal labels
(`Node.AgreesWith`). This says nothing of identities and of the order of named operands. That it is
an equivalence is then seen path by path, from the equality of literals.

**Rearranging.** `Node.Rearranged` relates trees that differ in identities and in the order of named
operands, anywhere. Their nodes at one path have the very same label, so nothing that is equal to
one of them differs from the other.
-/

namespace RuleEditor

/-! ## Literals -/

namespace Binary64

variable {x y z : Binary64}

theorem isNaN_of_isZero (zero : x.isZero = true) : x.isNaN = false := by
  have magnitude : x.magnitude.val = 0 := of_decide_eq_true zero
  rw [isNaN, magnitude]
  rfl

theorem equal_iff : x.equal y = true ↔
    x.isNaN = false ∧ (x = y ∨ x.isZero = true ∧ y.isZero = true) := by
  simp [equal]

theorem equal_symm (same : x.equal y = true) : y.equal x = true := by
  obtain ⟨number, rfl | ⟨left, right⟩⟩ := equal_iff.1 same
  · exact same
  · exact equal_iff.2 ⟨isNaN_of_isZero right, Or.inr ⟨right, left⟩⟩

theorem equal_trans (same : x.equal y = true) (same' : y.equal z = true) : x.equal z = true := by
  obtain ⟨number, rfl | ⟨left, middle⟩⟩ := equal_iff.1 same
  · exact same'
  · obtain ⟨-, rfl | ⟨-, right⟩⟩ := equal_iff.1 same'
    · exact same
    · exact equal_iff.2 ⟨number, Or.inr ⟨left, right⟩⟩

end Binary64

namespace Constant

mutual

theorem equal_symm : ∀ {value other : Constant},
    value.equal other = true → other.equal value = true
  | .null, other, same => by
    cases other with
    | null => rfl
    | _ => cases same
  | .bool _, other, same => by
    cases other with
    | bool _ => exact BEq.symm same
    | _ => cases same
  | .int _, other, same => by
    cases other with
    | int _ => exact BEq.symm same
    | _ => cases same
  | .float _, other, same => by
    cases other with
    | float _ => exact Binary64.equal_symm same
    | _ => cases same
  | .string _, other, same => by
    cases other with
    | string _ => exact BEq.symm same
    | _ => cases same
  | .list _, other, same => by
    cases other with
    | list _ => exact equalAll_symm same
    | _ => cases same

theorem equalAll_symm : ∀ {items others : List Constant},
    equalAll items others = true → equalAll others items = true
  | [], [], _ => rfl
  | [], _ :: _, same => nomatch same
  | _ :: _, [], same => nomatch same
  | _ :: _, _ :: _, same => by
    rw [equalAll, Bool.and_eq_true] at same ⊢
    exact ⟨equal_symm same.1, equalAll_symm same.2⟩

end

mutual

theorem equal_trans : ∀ {value other last : Constant},
    value.equal other = true → other.equal last = true → value.equal last = true
  | .null, other, last, same, same' => by
    cases other with
    | null => exact same'
    | _ => cases same
  | .bool _, other, last, same, same' => by
    cases other with
    | bool _ =>
      obtain rfl := eq_of_beq same
      exact same'
    | _ => cases same
  | .int _, other, last, same, same' => by
    cases other with
    | int _ =>
      obtain rfl := eq_of_beq same
      exact same'
    | _ => cases same
  | .float _, other, last, same, same' => by
    cases other with
    | float _ =>
      cases last with
      | float _ => exact Binary64.equal_trans same same'
      | _ => cases same'
    | _ => cases same
  | .string _, other, last, same, same' => by
    cases other with
    | string _ =>
      obtain rfl := eq_of_beq same
      exact same'
    | _ => cases same
  | .list _, other, last, same, same' => by
    cases other with
    | list _ =>
      cases last with
      | list _ => exact equalAll_trans same same'
      | _ => cases same'
    | _ => cases same

theorem equalAll_trans : ∀ {items others last : List Constant},
    equalAll items others = true → equalAll others last = true → equalAll items last = true
  | [], [], _, _, same' => same'
  | [], _ :: _, _, same, _ => nomatch same
  | _ :: _, [], _, same, _ => nomatch same
  | _ :: _, _ :: _, [], _, same' => nomatch same'
  | _ :: _, _ :: _, _ :: _, same, same' => by
    rw [equalAll, Bool.and_eq_true] at same same' ⊢
    exact ⟨equal_trans same.1 same'.1, equalAll_trans same.2 same'.2⟩

end

theorem equalOptional_symm {literal other : Option Constant}
    (same : equalOptional literal other = true) : equalOptional other literal = true := by
  cases rel_of_equalOptional same with
  | some same => exact equal_symm same
  | none => rfl

theorem equalOptional_trans {literal other last : Option Constant}
    (same : equalOptional literal other = true) (same' : equalOptional other last = true) :
    equalOptional literal last = true := by
  cases rel_of_equalOptional same with
  | some same =>
    cases rel_of_equalOptional same' with
    | some same' => exact equal_trans same same'
  | none => exact same'

end Constant

/-! ## Values that may be missing -/

namespace Option.Rel

variable {α β : Type} {R : α → β → Prop} {one : Option α} {other : Option β}

theorem eq_none_iff (related : Option.Rel R one other) : one = none ↔ other = none := by
  cases related <;> simp

theorem mono {S : α → β → Prop} (related : Option.Rel R one other)
    (stronger : ∀ a b, one = some a → other = some b → R a b → S a b) :
    Option.Rel S one other := by
  cases related with
  | some here => exact .some (stronger _ _ rfl rfl here)
  | none => exact .none

theorem congr {S : α → β → Prop}
    (same : ∀ a b, one = some a → other = some b → (R a b ↔ S a b)) :
    Option.Rel R one other ↔ Option.Rel S one other :=
  ⟨fun related => mono related fun a b here there => (same a b here there).1,
    fun related => mono related fun a b here there => (same a b here there).2⟩

theorem bind {γ δ : Type} {S : γ → δ → Prop} {f : α → Option γ} {g : β → Option δ}
    (related : Option.Rel R one other) (further : ∀ a b, R a b → Option.Rel S (f a) (g b)) :
    Option.Rel S (one.bind f) (other.bind g) := by
  cases related with
  | some here => exact further _ _ here
  | none => exact .none

theorem symm (related : Option.Rel R one other) : Option.Rel (fun b a => R a b) other one := by
  cases related with
  | some here => exact .some here
  | none => exact .none

theorem trans {γ : Type} {S : β → γ → Prop} {T : α → γ → Prop} {last : Option γ}
    (related : Option.Rel R one other) (further : Option.Rel S other last)
    (both : ∀ a b c, R a b → S b c → T a c) : Option.Rel T one last := by
  cases related with
  | some here =>
    cases further with
    | some there => exact .some (both _ _ _ here there)
  | none =>
    cases further with
    | none => exact .none

theorem exists_of_eq_some {a : α} (related : Option.Rel R one other) (there : one = some a) :
    ∃ b, other = some b ∧ R a b := by
  cases related with
  | some here =>
    cases there
    exact ⟨_, rfl, here⟩
  | none => cases there

end Option.Rel

namespace Node

variable {node other last operand changed root : Node} {segment : Segment} {path : Path}

/-! ## One step -/

/-- The nodes themselves say the same: they have the same name, and equal literals or none. -/
def SameLabel (node other : Node) : Prop :=
  node.name = other.name ∧ Constant.equalOptional node.constant other.constant = true

theorem equalAll_of_getElem? : ∀ {nodes others : List Node},
    (∀ index : Nat, Option.Rel Equal nodes[index]? others[index]?) → equalAll nodes others = true
  | [], [], _ => rfl
  | [], _ :: _, same => nomatch same 0
  | _ :: _, [], same => nomatch same 0
  | _ :: _, _ :: _, same => by
    rw [equalAll, Bool.and_eq_true]
    refine ⟨?_, equalAll_of_getElem? fun index => same (index + 1)⟩
    cases same 0 with
    | some here => exact here

theorem equalNamed_of_forall {named others : List (String × Node)}
    (same : ∀ entry ∈ named, ∃ other, Entries.get? entry.1 others = some other ∧
      entry.2.Equal other) : equalNamed named others = true := by
  induction named with
  | nil => rfl
  | cons entry rest ih =>
    obtain ⟨⟨other, found, here⟩, later⟩ := List.forall_mem_cons.1 same
    rw [equalNamed, found, ih later, Bool.and_true]
    exact here

/-- Lists that have the same keys have as many entries, if no key repeats. -/
theorem length_of_get? {named others : List (String × Node)}
    (distinct : (named.map Prod.fst).Nodup) (distinct' : (others.map Prod.fst).Nodup)
    (same : ∀ key, Option.Rel Equal (Entries.get? key named) (Entries.get? key others)) :
    named.length = others.length := by
  have keys : (named.map Prod.fst).Perm (others.map Prod.fst) := by
    refine (List.perm_ext_iff_of_nodup distinct distinct').2 fun key => ?_
    rw [← not_iff_not, ← Entries.get?_eq_none_iff, ← Entries.get?_eq_none_iff]
    exact Option.Rel.eq_none_iff (same key)
  simpa using keys.length_eq

/-- **Nodes are equal if their labels are and their operands are**, under the same segments. -/
theorem equal_iff_step? (distinct : node.OwnDistinctKeys) (distinct' : other.OwnDistinctKeys) :
    node.equal other = true ↔
      node.SameLabel other ∧
        ∀ segment, Option.Rel Equal (node.step? segment) (other.step? segment) := by
  constructor
  · intro same
    exact ⟨name_of_equal same, step?_of_equal same distinct⟩
  · rintro ⟨⟨name, constant⟩, operands⟩
    have children := equalAll_of_getElem? fun index => operands (.child index)
    have slots (key : String) := operands (.named key)
    have named : equalNamed node.named other.named = true :=
      equalNamed_of_forall fun entry mem =>
        Option.Rel.exists_of_eq_some (slots entry.1) ((Entries.get?_eq_some_iff distinct).2 mem)
    have length := length_of_get? distinct distinct' slots
    cases node
    cases other
    simp only [equal, Bool.and_eq_true, beq_iff_eq]
    exact ⟨⟨⟨⟨name, constant⟩, children⟩, length⟩, named⟩

/-! ## All paths -/

/-- The trees have nodes at the same paths, and these have equal labels. -/
def AgreesWith (root other : Node) : Prop :=
  ∀ path, Option.Rel SameLabel (root.at? path) (other.at? path)

theorem at?_step (root : Node) (segment : Segment) : root.at? [segment] = root.step? segment :=
  Option.bind_fun_some _

theorem agreesWith_iff_step? :
    node.AgreesWith other ↔
      node.SameLabel other ∧
        ∀ segment, Option.Rel AgreesWith (node.step? segment) (other.step? segment) := by
  constructor
  · intro agree
    constructor
    · cases agree [] with
      | some here => exact here
    · intro segment
      have there : Option.Rel SameLabel (node.step? segment) (other.step? segment) := by
        have one := agree [segment]
        rwa [at?_step, at?_step] at one
      refine Option.Rel.mono there fun operand operand' found found' _ path => ?_
      have below := agree (segment :: path)
      rwa [at?, at?, found, found'] at below
  · rintro ⟨label, operands⟩ path
    cases path with
    | nil => exact .some label
    | cons segment path => exact Option.Rel.bind (operands segment) fun _ _ below => below path

/-- **Trees are equal exactly if they agree at every path.** -/
theorem equal_iff_agreesWith (distinct : node.Everywhere OwnDistinctKeys)
    (distinct' : other.Everywhere OwnDistinctKeys) :
    node.equal other = true ↔ node.AgreesWith other := by
  induction node using induction_operands generalizing other with
  | step node ih =>
    obtain ⟨own, -⟩ := everywhere_iff.1 distinct
    obtain ⟨own', -⟩ := everywhere_iff.1 distinct'
    rw [equal_iff_step? own own', agreesWith_iff_step?]
    refine and_congr_right fun _ => forall_congr' fun segment => ?_
    refine Option.Rel.congr fun operand operand' found found' => ?_
    exact ih (segment, operand) ((mem_operands_iff own).2 found) (distinct.step? found)
      (distinct'.step? found')

/-! ## An equivalence -/

theorem SameLabel.symm (same : node.SameLabel other) : other.SameLabel node :=
  ⟨same.1.symm, Constant.equalOptional_symm same.2⟩

theorem SameLabel.trans (same : node.SameLabel other) (same' : other.SameLabel last) :
    node.SameLabel last :=
  ⟨same.1.trans same'.1, Constant.equalOptional_trans same.2 same'.2⟩

theorem AgreesWith.symm (agree : node.AgreesWith other) : other.AgreesWith node := fun path =>
  Option.Rel.mono (Option.Rel.symm (agree path)) fun _ _ _ _ same => same.symm

theorem AgreesWith.trans (agree : node.AgreesWith other) (agree' : other.AgreesWith last) :
    node.AgreesWith last := fun path =>
  Option.Rel.trans (agree path) (agree' path) fun _ _ _ same same' => same.trans same'

/-- A tree agrees with itself if its literals are numbers where they are floating point numbers. -/
theorem agreesWith_self (numeric : root.Everywhere NumericConstant) : root.AgreesWith root := by
  intro path
  cases found : root.at? path with
  | none => exact .none
  | some node =>
    have own : node.NumericConstant := (everywhere_iff.1 (numeric.at? found)).1
    exact .some ⟨rfl, Constant.equalOptional_self_iff.2 own⟩

/-- No node has two operands of one name, and no literal holds what is not a number. -/
def Comparable (node : Node) : Prop := node.DistinctKeys ∧ node.Everywhere NumericConstant

/-! ## Rearranging -/

/-- The second tree is the first one with other identities and with named operands in another
order, at any nodes. -/
inductive Rearranged : Node → Node → Prop
  | identity (node : Node) (id : Nat) : Rearranged node { node with id := id }
  | order {node : Node} {named : List (String × Node)} (perm : node.named.Perm named) :
      Rearranged node { node with named := named }
  | operand {node operand changed : Node} {segment : Segment}
      (found : node.step? segment = some operand) (below : Rearranged operand changed) :
      Rearranged node (node.setStep changed segment)
  | trans {node between changed : Node} (first : Rearranged node between)
      (later : Rearranged between changed) : Rearranged node changed

/-- The nodes have the very same label. -/
def EqLabel (node other : Node) : Prop :=
  node.name = other.name ∧ node.constant = other.constant

theorem rel_eqLabel_self (found : Option Node) : Option.Rel EqLabel found found := by
  cases found with
  | none => exact .none
  | some node => exact .some ⟨rfl, rfl⟩

theorem Rearranged.distinct (arranged : Rearranged node changed)
    (distinct : node.Everywhere OwnDistinctKeys) : changed.Everywhere OwnDistinctKeys := by
  induction arranged with
  | identity node id =>
    obtain ⟨own, children, named⟩ := everywhere_iff.1 distinct
    exact everywhere_iff.2 ⟨own, children, named⟩
  | order perm =>
    obtain ⟨own, children, named⟩ := everywhere_iff.1 distinct
    refine everywhere_iff.2 ⟨(perm.map Prod.fst).nodup_iff.1 own, children, fun entry mem => ?_⟩
    exact named entry (perm.mem_iff.2 mem)
  | operand found below ih =>
    have own := (everywhere_iff.1 distinct).1
    exact distinct.setStep (own.setStep _ _) (ih (distinct.step? found))
  | trans first later ih ih' => exact ih' (ih distinct)

/-- **Rearranging moves no label to another path.** -/
theorem Rearranged.at? (arranged : Rearranged node changed)
    (distinct : node.Everywhere OwnDistinctKeys) (path : Path) :
    Option.Rel EqLabel (node.at? path) (changed.at? path) := by
  induction arranged generalizing path with
  | identity node id =>
    cases path with
    | nil => exact .some ⟨rfl, rfl⟩
    | cons segment path => exact rel_eqLabel_self _
  | @order node named perm =>
    have own := (everywhere_iff.1 distinct).1
    have slots (key : String) : Entries.get? key named = Entries.get? key node.named := by
      ext value
      rw [Entries.get?_eq_some_iff own,
        Entries.get?_eq_some_iff ((perm.map Prod.fst).nodup_iff.1 own)]
      exact perm.mem_iff.symm
    cases path with
    | nil => exact .some ⟨rfl, rfl⟩
    | cons segment path =>
      have same : ({ node with named := named } : Node).step? segment = node.step? segment := by
        cases segment with
        | child index => rfl
        | named key => exact slots key
      rw [Node.at?, Node.at?, same]
      exact rel_eqLabel_self _
  | @operand node operand changed segment found below ih =>
    cases path with
    | nil => cases segment <;> exact .some ⟨rfl, rfl⟩
    | cons next path =>
      rw [Node.at?, Node.at?]
      by_cases same : segment = next
      · subst same
        rw [found, step?_setStep_self found]
        exact ih (distinct.step? found) path
      · rw [step?_setStep_of_ne same]
        exact rel_eqLabel_self _
  | trans first later ih ih' =>
    refine Option.Rel.trans (ih distinct path) (ih' (first.distinct distinct) path) ?_
    exact fun _ _ _ same same' => ⟨same.1.trans same'.1, same.2.trans same'.2⟩

theorem Rearranged.agreesWith_iff (arranged : Rearranged node changed)
    (distinct : node.Everywhere OwnDistinctKeys) :
    changed.AgreesWith other ↔ node.AgreesWith other := by
  have label {a b c : Node} (same : a.EqLabel b) : a.SameLabel c ↔ b.SameLabel c := by
    rw [SameLabel, SameLabel, same.1, same.2]
  constructor
  · exact fun agree path => Option.Rel.trans (arranged.at? distinct path) (agree path)
      fun _ _ _ same => (label same).2
  · exact fun agree path => Option.Rel.trans
      (Option.Rel.symm (arranged.at? distinct path)) (agree path) fun _ _ _ same => (label same).1

/-! ## Comparing -/

/-- **Equality of trees is equality at every path.** Two trees are equal exactly if they have nodes
at the same paths, with equal labels. Of comparable trees that is an equivalence. Other identities
and another order of named operands make no difference to it, on either side. An editor holds
unsaved changes exactly if its tree and the saved one do not agree at every path. -/
theorem equal_iff_agrees_everywhere :
    (∀ node other : Node, node.DistinctKeys → other.DistinctKeys →
      (node.equal other = true ↔ node.AgreesWith other)) ∧
    Equivalence (fun node other : { node : Node // node.Comparable } =>
      node.val.equal other.val = true) ∧
    (∀ node changed other : Node, node.DistinctKeys → Rearranged node changed →
      other.DistinctKeys → changed.DistinctKeys ∧ changed.equal other = node.equal other ∧
        other.equal changed = other.equal node) ∧
    ∀ (editor : Editor) (saved : Node), editor.root.DistinctKeys → saved.DistinctKeys →
      (editor.isDirty saved = false ↔ editor.root.AgreesWith saved) := by
  have agrees (node other : Node) (distinct : node.DistinctKeys) (distinct' : other.DistinctKeys) :
      node.equal other = true ↔ node.AgreesWith other :=
    equal_iff_agreesWith ((distinctKeys_iff _).1 distinct) ((distinctKeys_iff _).1 distinct')
  refine ⟨agrees, ?equivalence, ?rearranged, ?dirty⟩
  case equivalence =>
    constructor
    case refl =>
      rintro ⟨node, distinct, numeric⟩
      exact (agrees node node distinct distinct).2 (agreesWith_self numeric)
    case symm =>
      rintro ⟨node, distinct, _⟩ ⟨other, distinct', _⟩ same
      have agree := (agrees _ _ distinct distinct').1 same
      exact (agrees _ _ distinct' distinct).2 agree.symm
    case trans =>
      rintro ⟨node, distinct, _⟩ ⟨other, distinct', _⟩ ⟨last, distinct'', _⟩ same same'
      have agree := (agrees _ _ distinct distinct').1 same
      have agree' := (agrees _ _ distinct' distinct'').1 same'
      exact (agrees _ _ distinct distinct'').2 (agree.trans agree')
  case rearranged =>
    intro node changed other distinct arranged distinct'
    have everywhere := (distinctKeys_iff _).1 distinct
    have kept : changed.DistinctKeys := (distinctKeys_iff _).2 (arranged.distinct everywhere)
    have agree : changed.AgreesWith other ↔ node.AgreesWith other :=
      arranged.agreesWith_iff everywhere
    refine ⟨kept, ?_, ?_⟩ <;> rw [Bool.eq_iff_iff]
    · rw [agrees _ _ kept distinct', agrees _ _ distinct distinct', agree]
    · rw [agrees _ _ distinct' kept, agrees _ _ distinct' distinct]
      exact ⟨fun same => (agree.1 same.symm).symm, fun same => (agree.2 same.symm).symm⟩
  case dirty =>
    intro editor saved distinct distinct'
    rw [Editor.isDirty, Bool.not_eq_false', agrees _ _ distinct distinct']

/-- The saved tree has other identities, its operands in another order, and the other zero. -/
theorem equal_iff_agrees_everywhere_swapped :
    let field (id : Nat) : Node := ⟨id, .constant, some (.string "created"), [], []⟩
    let zero (id : Nat) (negative : Bool) : Node :=
      ⟨id, .constant, some (.float ⟨negative, 0⟩), [], []⟩
    let node : Node := ⟨0, .function Name.timeAdd, none, [],
      [(Slot.timestampField, field 1), (Slot.duration, zero 2 false)]⟩
    let changed : Node :=
      { node with named := [(Slot.duration, zero 2 false), (Slot.timestampField, field 1)] }
    let saved : Node := ⟨3, .function Name.timeAdd, none, [],
      [(Slot.duration, zero 4 true), (Slot.timestampField, field 5)]⟩
    node.DistinctKeys ∧ saved.DistinctKeys ∧ Rearranged node changed ∧ changed.DistinctKeys ∧
      node.AgreesWith saved ∧ changed.equal saved = true ∧
      (Editor.ofTree node .default).isDirty saved = false := by
  intro field zero node changed saved
  have distinct : node.DistinctKeys :=
    ⟨by decide, trivial, ⟨by decide, trivial, trivial⟩, ⟨by decide, trivial, trivial⟩, trivial⟩
  have distinct' : saved.DistinctKeys :=
    ⟨by decide, trivial, ⟨by decide, trivial, trivial⟩, ⟨by decide, trivial, trivial⟩, trivial⟩
  have arranged : Rearranged node changed := .order (List.Perm.swap _ _ [])
  obtain ⟨agrees, -, rearranged, dirty⟩ := equal_iff_agrees_everywhere
  have same : node.equal saved = true := by decide +kernel
  have agree := (agrees node saved distinct distinct').1 same
  obtain ⟨kept, equal, -⟩ := rearranged node changed saved distinct arranged distinct'
  exact ⟨distinct, distinct', arranged, kept, agree, equal.trans same,
    (dirty (Editor.ofTree node .default) saved distinct distinct').2 agree⟩

end Node

end RuleEditor

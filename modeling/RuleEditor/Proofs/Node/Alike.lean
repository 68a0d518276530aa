import RuleEditor.Proofs.Node.Everywhere

/-!
# Trees that differ in their identities only

`Node.Alike` relates two trees that have the same names, literals and operands, the named ones under
the same keys in the same order.

**Copies.** `Node.recreate` makes a tree that is alike.

**Equality.** Trees that are alike and in which no node has two operands of one name are equal
(`Node.equal`) exactly if every literal is equal to itself, which fails for what is not a number
only. Trees that are equal need not be alike: `Node.equal` does not see the order of named operands,
nor the sign of a zero.
-/

namespace RuleEditor

namespace Constant

mutual

/-- Every floating point number in the literal is finite. -/
def Finite : Constant → Prop
  | .float x => x.isFinite = true
  | .list items => FiniteAll items
  | _ => True

def FiniteAll : List Constant → Prop
  | [] => True
  | item :: rest => Finite item ∧ FiniteAll rest

end

mutual

/-- Every floating point number in the literal is a number. -/
def Numeric : Constant → Prop
  | .float x => x.isNaN = false
  | .list items => NumericAll items
  | _ => True

def NumericAll : List Constant → Prop
  | [] => True
  | item :: rest => Numeric item ∧ NumericAll rest

end

mutual

theorem Finite.numeric : ∀ {constant : Constant}, constant.Finite → constant.Numeric
  | .null, _ => trivial
  | .bool _, _ => trivial
  | .int _, _ => trivial
  | .float _, finite => decide_eq_false (Nat.not_lt_of_gt (of_decide_eq_true finite))
  | .string _, _ => trivial
  | .list _, finite => numericAll_of_finite finite

theorem numericAll_of_finite : ∀ {items : List Constant}, FiniteAll items → NumericAll items
  | [], _ => trivial
  | _ :: _, finite => ⟨finite.1.numeric, numericAll_of_finite finite.2⟩

end

mutual

/-- Only what is not a number differs from itself. -/
theorem equal_self_iff : ∀ {constant : Constant},
    constant.equal constant = true ↔ constant.Numeric
  | .null => iff_of_true rfl trivial
  | .bool b => iff_of_true (beq_self_eq_true b) trivial
  | .int n => iff_of_true (beq_self_eq_true n) trivial
  | .float x => by simp [equal, Binary64.equal, Numeric]
  | .string s => iff_of_true (beq_self_eq_true s) trivial
  | .list _ => equalAll_self_iff

theorem equalAll_self_iff : ∀ {items : List Constant},
    equalAll items items = true ↔ NumericAll items
  | [] => iff_of_true rfl trivial
  | _ :: _ => Bool.and_eq_true_iff.trans (and_congr equal_self_iff equalAll_self_iff)

end

theorem equalOptional_self_iff {constant : Option Constant} :
    equalOptional constant constant = true ↔
      ∀ value, constant = some value → value.Numeric := by
  cases constant with
  | none => exact iff_of_true rfl nofun
  | some value =>
    refine equal_self_iff.trans ⟨fun numeric other same => ?_, fun numeric => numeric value rfl⟩
    cases same
    exact numeric

end Constant

namespace Node

mutual

/-- The trees differ in their identities only. -/
def Alike : Node → Node → Prop
  | ⟨_, name, constant, children, named⟩, ⟨_, name', constant', children', named'⟩ =>
    name = name' ∧ constant = constant' ∧ AlikeAll children children' ∧ AlikeNamed named named'

def AlikeAll : List Node → List Node → Prop
  | [], [] => True
  | node :: rest, node' :: rest' => Alike node node' ∧ AlikeAll rest rest'
  | _, _ => False

def AlikeNamed : List (String × Node) → List (String × Node) → Prop
  | [], [] => True
  | (key, node) :: rest, (key', node') :: rest' =>
    key = key' ∧ Alike node node' ∧ AlikeNamed rest rest'
  | _, _ => False

end

/-! ## Copies -/

mutual

theorem alike_recreate : ∀ (node : Node) (next : Nat), node.Alike (node.recreate next).1
  | ⟨_, _, _, children, named⟩, next =>
    ⟨rfl, rfl, alikeAll_recreateAll children (next + 1),
      alikeNamed_recreateNamed named (recreateAll children (next + 1)).2⟩

theorem alikeAll_recreateAll :
    ∀ (nodes : List Node) (next : Nat), AlikeAll nodes (recreateAll nodes next).1
  | [], _ => trivial
  | node :: rest, next =>
    ⟨alike_recreate node next, alikeAll_recreateAll rest (node.recreate next).2⟩

theorem alikeNamed_recreateNamed :
    ∀ (named : List (String × Node)) (next : Nat), AlikeNamed named (recreateNamed named next).1
  | [], _ => trivial
  | (_, node) :: rest, next =>
    ⟨rfl, alike_recreate node next, alikeNamed_recreateNamed rest (node.recreate next).2⟩

end

/-! ## Equality -/

theorem AlikeNamed.keys_eq : ∀ {named others : List (String × Node)},
    AlikeNamed named others → named.map Prod.fst = others.map Prod.fst
  | [], [], _ => rfl
  | (_, _) :: _, (_, _) :: _, alike => by
    obtain ⟨rfl, -, rest⟩ := alike
    exact congrArg (_ :: ·) rest.keys_eq

/-- The literal of the node, if it has one, is finite. -/
def FiniteConstant (node : Node) : Prop :=
  ∀ constant, node.constant = some constant → constant.Finite

/-- The literal of the node, if it has one, holds numbers only. -/
def NumericConstant (node : Node) : Prop :=
  ∀ constant, node.constant = some constant → constant.Numeric

mutual

/-- **Trees that are alike are equal exactly if their literals are equal to themselves.** -/
theorem equal_iff_of_alike : ∀ {node other : Node}, node.Alike other → node.DistinctKeys →
    (node.equal other = true ↔ node.Everywhere NumericConstant)
  | ⟨_, _, _, _, named⟩, ⟨_, _, _, _, named'⟩, alike, distinct => by
    obtain ⟨rfl, rfl, alikeChildren, alikeEntries⟩ := alike
    obtain ⟨keys, distinctChildren, distinctNamed⟩ := distinct
    have length : named.length = named'.length := by
      simpa using congrArg List.length alikeEntries.keys_eq
    have keys' : (named'.map Prod.fst).Nodup := alikeEntries.keys_eq ▸ keys
    have children := equalAll_iff_of_alike alikeChildren distinctChildren
    have entries := equalNamed_iff_of_alike alikeEntries distinctNamed keys' fun _ mem => mem
    simp only [equal, Bool.and_eq_true, beq_iff_eq, Constant.equalOptional_self_iff, children,
      entries, length, true_and, and_true, and_assoc]
    rfl

theorem equalAll_iff_of_alike : ∀ {nodes others : List Node}, AlikeAll nodes others →
    DistinctKeysAll nodes →
      (equalAll nodes others = true ↔ EverywhereAll NumericConstant nodes)
  | [], [], _, _ => iff_of_true rfl trivial
  | _ :: _, _ :: _, alike, distinct =>
    Bool.and_eq_true_iff.trans (and_congr (equal_iff_of_alike alike.1 distinct.1)
      (equalAll_iff_of_alike alike.2 distinct.2))

/-- Each operand is looked up by its key among all operands of the other node. -/
theorem equalNamed_iff_of_alike : ∀ {named others all : List (String × Node)},
    AlikeNamed named others → DistinctKeysNamed named → (all.map Prod.fst).Nodup →
      (∀ entry ∈ others, entry ∈ all) →
        (equalNamed named all = true ↔ EverywhereNamed NumericConstant named)
  | [], [], _, _, _, _, _ => iff_of_true rfl trivial
  | (key, node) :: rest, (_, other) :: rest', all, alike, distinct, keys, among => by
    obtain ⟨rfl, alike, alikeRest⟩ := alike
    have found : Entries.get? key all = some other :=
      (Entries.get?_eq_some_iff keys).2 (among _ List.mem_cons_self)
    have later := equalNamed_iff_of_alike alikeRest distinct.2 keys fun entry later =>
      among entry (List.mem_cons_of_mem _ later)
    simp only [equalNamed, found, Bool.and_eq_true, later, EverywhereNamed,
      equal_iff_of_alike alike distinct.1]

end

theorem equal_of_alike {node other : Node} (alike : node.Alike other)
    (distinct : node.DistinctKeys) (finite : node.Everywhere FiniteConstant) :
    node.equal other = true :=
  (equal_iff_of_alike alike distinct).2
    (finite.mono fun _ own constant literal => (own constant literal).numeric)

end Node

end RuleEditor

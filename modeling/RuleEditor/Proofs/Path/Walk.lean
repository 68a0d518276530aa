import RuleEditor.Proofs.Path.Preorder
import RuleEditor.Proofs.Wire.Depth

/-!
# The nodes of a tree and their paths

**Operands** (`Node.operands`). Rules are trees whose nodes have operands, so that what is known of
all such trees holds of them. If no two named operands have one key, every segment leads to one
operand at most, and looking it up finds the one that is listed.

**The walk** is a listing in pre-order. In a tree without repeated keys, it lists a node with a path
exactly if the path leads to it (`mem_walk_iff`), and no path twice (`nodup_walk`).
-/

namespace RuleEditor.Node

variable {node operand root found : Node} {segment : Segment} {base path : Path}

/-! ## Operands -/

/-- The operands of a node with the segments that lead to them. -/
def operands (node : Node) : List (Segment × Node) :=
  node.children.zipIdx.map (fun entry => (.child entry.2, entry.1))
    ++ node.named.map fun entry => (.named entry.1, entry.2)

instance : OperandTree Node where
  children := children
  named := named
  smaller := by
    refine ⟨sizeOf, ?_⟩
    rintro ⟨id, name, constant, children, named⟩
    refine ⟨fun child mem => ?_, ?_⟩
    · have less : sizeOf child < sizeOf children := List.sizeOf_lt_of_mem mem
      simp only [mk.sizeOf_spec]
      omega
    · rintro ⟨key, child⟩ mem
      have less : sizeOf (key, child) < sizeOf named := List.sizeOf_lt_of_mem mem
      simp only [mk.sizeOf_spec, Prod.mk.sizeOf_spec] at less ⊢
      omega

/-- What holds of a node whenever it holds of its operands holds of every node. -/
theorem induction_operands {motive : Node → Prop}
    (step : ∀ node, (∀ entry ∈ node.operands, motive entry.2) → motive node) (node : Node) :
    motive node := OperandTree.induction_operands step node

theorem operandTree_step? : OperandTree.step? node segment = node.step? segment := by
  cases segment <;> rfl

theorem operandTree_at? : OperandTree.at? node path = node.at? path := by
  induction path generalizing node with
  | nil => rfl
  | cons segment path ih =>
    rw [OperandTree.at?, at?, operandTree_step?]
    exact congrArg (Option.bind _) (funext fun _ => ih)

theorem operandTree_everywhere {P : Node → Prop} (everywhere : Everywhere P node) :
    OperandTree.Everywhere P node := fun _ _ there =>
  (everywhere_iff.1 (everywhere.at? (operandTree_at? ▸ there))).1

theorem mem_operands_iff (distinct : node.OwnDistinctKeys) :
    (segment, operand) ∈ node.operands ↔ node.step? segment = some operand := by
  rw [← operandTree_step?]
  exact OperandTree.mem_operands_iff distinct

theorem nodup_operands (distinct : node.OwnDistinctKeys) : (node.operands.map Prod.fst).Nodup :=
  OperandTree.nodup_operands distinct

/-- Replacing an operand changes the entry of its segment only. -/
theorem exists_operands_setStep (found : node.step? segment = some operand) :
    ∃ before after, node.operands = before ++ (segment, operand) :: after ∧
      ∀ new, (node.setStep new segment).operands = before ++ (segment, new) :: after := by
  cases segment with
  | child index =>
    obtain ⟨bound, here⟩ := List.getElem?_eq_some_iff.1 found
    let before := node.children.take index
    let after := node.children.drop (index + 1)
    have length : before.length = index := List.length_take_of_le (Nat.le_of_lt bound)
    have stored (new : Node) : node.children.set index new = before ++ new :: after :=
      List.set_eq_take_append_cons_drop.trans (if_pos bound)
    have split : node.children = before ++ operand :: after := by
      rw [← stored, ← here, List.set_getElem_self]
    refine ⟨before.zipIdx.map fun entry => (.child entry.2, entry.1),
      (after.zipIdx (index + 1)).map (fun entry => (.child entry.2, entry.1)) ++
        node.named.map fun entry => (.named entry.1, entry.2), ?_, fun new => ?_⟩
    · rw [operands, split]
      simp [List.zipIdx_append, length]
    · rw [operands, setStep, stored]
      simp [List.zipIdx_append, length]
  | named key =>
    obtain ⟨before, after, split, stored⟩ := Entries.exists_append_of_get? found
    refine ⟨node.children.zipIdx.map (fun entry => (.child entry.2, entry.1)) ++
      before.map fun entry => (.named entry.1, entry.2),
      after.map fun entry => (.named entry.1, entry.2), ?_, fun new => ?_⟩
    · rw [operands, split]
      simp
    · rw [operands, setStep, stored]
      simp

theorem everywhere_iff_operands {P : Node → Prop} :
    Everywhere P node ↔ P node ∧ ∀ entry ∈ node.operands, Everywhere P entry.2 := by
  rw [everywhere_iff]
  exact and_congr_right fun _ => OperandTree.forall_mem_operands_iff.symm

/-! ## The walk -/

theorem lists_walkFrom : OperandTree.Lists walkFrom fun node : Node => node :=
  .of_steps (fun _ node => by cases node; rfl) (fun _ _ => rfl) (fun _ _ _ _ => rfl)
    (fun _ => rfl) fun _ _ _ _ => rfl

/-- A node comes before what its operands list. -/
theorem walkFrom_eq (base : Path) (node : Node) :
    walkFrom base node =
      (base, node) ::
        node.operands.flatMap fun entry => walkFrom (base ++ [entry.1]) entry.2 :=
  lists_walkFrom base node

/-- **The walk lists a node with a path exactly if the path leads to it.** -/
theorem mem_walkFrom_iff (distinct : node.Everywhere OwnDistinctKeys) :
    (path, found) ∈ walkFrom base node ↔
      ∃ below, path = base ++ below ∧ node.at? below = some found := by
  rw [lists_walkFrom.mem_iff (operandTree_everywhere distinct)]
  simp [operandTree_at?]

/-- **The walk lists no path twice.** -/
theorem nodup_walkFrom (distinct : node.Everywhere OwnDistinctKeys) :
    ((walkFrom base node).map Prod.fst).Nodup :=
  lists_walkFrom.nodup (operandTree_everywhere distinct)

theorem mem_walk_iff (distinct : root.Everywhere OwnDistinctKeys) :
    (path, found) ∈ root.walk ↔ root.at? path = some found := by
  rw [walk, mem_walkFrom_iff distinct]
  simp [Path.root]

theorem nodup_walk (distinct : root.Everywhere OwnDistinctKeys) :
    (root.walk.map Prod.fst).Nodup := nodup_walkFrom distinct

end RuleEditor.Node

import RuleEditor.Proofs.Node.Text
import RuleEditor.Proofs.Path.Walk

/-!
# Breaking lines

Two printers show a rule: one writes it on a single line, the other one breaks the line of a
connective that is too wide. They differ in their layout only (`Node.pretty_keeps_text`): leaving
out spaces, line breaks and parentheses, both give the same text.

**Connectives.** Only a connective with operands is ever broken, and whether it is broken depends on
the width that is left. So the invariant says nothing about columns: for every width and every
column, the text of a node without its layout is the same (`Node.compact_prettyAt`). In a broken
line, the operator stands between the operands as on a single line, and what is put around it and
around the operands is layout.
-/

namespace RuleEditor

namespace Text

/-! ## Layout -/

/-- The characters that lay a text out: the space, the line break and the parentheses. -/
def isLayout (c : Char) : Bool := c ∈ [' ', '\n', '(', ')']

/-- The text without its layout. -/
def compact (text : String) : String := String.ofList (text.toList.filter fun c => !isLayout c)

@[simp] theorem compact_append (text more : String) :
    compact (text ++ more) = compact text ++ compact more := by
  simp [compact, String.ofList_append]

@[simp] theorem compact_empty : compact "" = "" := rfl

@[simp] theorem compact_space : compact " " = "" := rfl

@[simp] theorem compact_break : compact "\n" = "" := rfl

@[simp] theorem compact_opening : compact "(" = "" := rfl

@[simp] theorem compact_openingLine : compact "(\n" = "" := rfl

@[simp] theorem compact_closing : compact ")" = "" := rfl

end Text

open Text

namespace Node

variable {node operand : Node} {operator lead : String} {operands : List Node}
  {width indent : Nat}

@[simp] theorem compact_spaces (count : Nat) : compact (spaces count) = "" := by
  rw [compact, spaces, String.toList_ofList, List.filter_replicate]
  rfl

/-! ## Broken lines -/

theorem prettyAt_eq (width indent : Nat) (node : Node) :
    prettyAt width indent node =
      match node.connective? with
      | none => node.text
      | some operator =>
        if indent + node.text.utf8ByteSize ≤ width || node.children.isEmpty then node.text
        else prettyOperands width indent operator "" node.children := by
  cases node
  unfold prettyAt
  rfl

/-- An operand of a broken connective. -/
def prettyOperand (width indent : Nat) (operator : String) (node : Node) : String :=
  let grouped := "(" ++ node.text ++ ")"
  if node.connective?.isNone then node.text
  else if indent + operator.utf8ByteSize + 1 + grouped.utf8ByteSize ≤ width then grouped
  else "(\n" ++ spaces (indent + 2) ++ prettyAt width (indent + 2) node ++ "\n"
    ++ spaces indent ++ ")"

theorem prettyOperands_cons (width indent : Nat) (operator lead : String) (node : Node)
    (rest : List Node) :
    prettyOperands width indent operator lead (node :: rest) =
      lead ++ prettyOperand width indent operator node ++
        prettyOperands width indent operator ("\n" ++ spaces indent ++ operator ++ " ") rest := by
  rw [prettyOperands]
  rfl

/-! ## The same text -/

@[simp] theorem compact_operandText (node : Node) (text : String) :
    compact (operandText node text) = compact text := by
  rw [operandText]
  split <;> simp

/-- Between two operands there is the operator and otherwise layout only. -/
theorem compact_intercalate (operator : String) (node next : Node) (rest : List Node) :
    compact ((" " ++ operator ++ " ").intercalate (operandTexts (node :: next :: rest))) =
      compact node.text ++ compact operator ++
        compact ((" " ++ operator ++ " ").intercalate (operandTexts (next :: rest))) := by
  rw [operandTexts, operandTexts, String.intercalate_cons_cons]
  simp

theorem compact_prettyOperand
    (each : ∀ indent, compact (prettyAt width indent operand) = compact operand.text) :
    compact (prettyOperand width indent operator operand) = compact operand.text := by
  unfold prettyOperand
  split
  · rfl
  · dsimp only
    split <;> simp [each]

theorem compact_prettyOperands
    (each : ∀ operand ∈ operands, ∀ indent,
      compact (prettyAt width indent operand) = compact operand.text)
    (filled : operands ≠ []) :
    compact (prettyOperands width indent operator lead operands) =
      compact lead ++ compact ((" " ++ operator ++ " ").intercalate (operandTexts operands)) := by
  induction operands generalizing lead with
  | nil => exact absurd rfl filled
  | cons node rest ih =>
    obtain ⟨here, later⟩ := List.forall_mem_cons.1 each
    rw [prettyOperands_cons, compact_append, compact_append, compact_prettyOperand here]
    cases rest with
    | nil => simp [prettyOperands, operandTexts]
    | cons next rest =>
      rw [ih later (List.cons_ne_nil next rest), compact_intercalate]
      simp [String.append_assoc]

/-- **Breaking lines changes the layout only**, in whatever column the line starts. -/
theorem compact_prettyAt (width indent : Nat) (node : Node) :
    compact (prettyAt width indent node) = compact node.text := by
  induction node using induction_operands generalizing indent with
  | step node ih =>
    have each : ∀ operand ∈ node.children, ∀ indent,
        compact (prettyAt width indent operand) = compact operand.text :=
      (OperandTree.forall_mem_operands_iff (P := fun operand => ∀ indent,
        compact (prettyAt width indent operand) = compact operand.text)).1 ih |>.1
    rw [prettyAt_eq]
    cases connective : node.connective? with
    | none => rfl
    | some operator =>
      dsimp only
      split
      · rfl
      · next broken =>
        have filled : node.children ≠ [] := fun none => by simp [none] at broken
        rw [compact_prettyOperands each filled,
          text_of_connective connective filled]
        exact String.empty_append

/-- **What breaking lines changes.** Without spaces, line breaks and parentheses, a rule within a
width is the rule on one line. A rule that is not wider than that, or is no connective, or is one
without operands, is shown on one line. -/
theorem pretty_keeps_text (node : Node) (width : Nat) :
    compact (node.pretty width) = compact node.text ∧
      (node.text.utf8ByteSize ≤ width ∨ (∀ name ∈ [Name.and, Name.or], node.name ≠ .function name) ∨
        node.children = [] → node.pretty width = node.text) := by
  refine ⟨compact_prettyAt width 0 node, fun whole => ?_⟩
  rw [pretty, prettyAt_eq]
  cases connective : node.connective? with
  | none => rfl
  | some operator =>
    refine if_pos ?_
    rw [Bool.or_eq_true, decide_eq_true_iff, Nat.zero_add, List.isEmpty_iff]
    rcases whole with fits | other | empty
    · exact Or.inl fits
    · exact nomatch connective.symm.trans (connective?_eq_none_iff.2 other)
    · exact Or.inr empty

/-- Two branches: the first one is broken too, and the second one fits behind the operator. Within
31 bytes, which is what the rule takes on one line, nothing is broken. -/
theorem pretty_keeps_text_of_branches :
    let leaf (id : Nat) (value : Int64) : Node := ⟨id, .constant, some (.int value), [], []⟩
    let branch (id : Nat) (values : List Node) : Node := ⟨id, .function Name.and, none, values, []⟩
    let rule : Node := ⟨0, .function Name.or, none,
      [branch 1 [leaf 2 1000, leaf 3 2000, leaf 4 3000], branch 5 [leaf 6 7]], []⟩
    rule.text = "(1000 AND 2000 AND 3000) OR (7)" ∧
      rule.pretty 20 = "(\n  1000\n  AND 2000\n  AND 3000\n)\nOR (7)" ∧
      compact (rule.pretty 20) = compact rule.text ∧
      rule.text.utf8ByteSize ≤ 31 ∧ rule.pretty 31 = rule.text := by
  intro leaf branch rule
  have fits : rule.text.utf8ByteSize ≤ 31 := by decide +kernel
  exact ⟨by decide +kernel, by decide +kernel, (rule.pretty_keeps_text 20).1, fits,
    (rule.pretty_keeps_text 31).2 (Or.inl fits)⟩

end Node

end RuleEditor

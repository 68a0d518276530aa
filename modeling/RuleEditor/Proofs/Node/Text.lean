import RuleEditor.Node.Pretty

/-!
# Texts of connectives

A connective without operands is shown with empty parentheses behind it, and one with operands
between each two of them. So what an operand is shown as is part of what the connective is shown as.
-/

namespace RuleEditor.Node

variable {node operand : Node} {operator : String}

/-! ## Operands -/

theorem operandTexts_eq (nodes : List Node) :
    operandTexts nodes = nodes.map fun node => operandText node node.text := by
  induction nodes with
  | nil => rfl
  | cons node nodes ih => rw [operandTexts, ih, List.map_cons]

theorem connective?_eq_some_iff :
    node.connective? = some operator ↔
      node.name = .function operator ∧ operator ∈ [Name.and, Name.or] := by
  rw [connective?, Option.filter_eq_some_iff, function?]
  cases node.name <;> simp [Name.isLogical, Name.logical]

theorem connective?_eq_none_iff :
    node.connective? = none ↔ ∀ name ∈ [Name.and, Name.or], node.name ≠ .function name := by
  rw [Option.eq_none_iff_forall_ne_some]
  constructor
  · intro none name mem same
    exact none name (connective?_eq_some_iff.2 ⟨same, mem⟩)
  · intro other name connective
    obtain ⟨same, mem⟩ := connective?_eq_some_iff.1 connective
    exact other name mem same

theorem isLogical_of_connective (connective : node.connective? = some operator) :
    node.name = .function operator ∧ Name.isLogical operator = true := by
  obtain ⟨name, mem⟩ := connective?_eq_some_iff.1 connective
  exact ⟨name, List.contains_iff_mem.2 mem⟩

theorem text_of_connective (connective : node.connective? = some operator)
    (filled : node.children ≠ []) :
    node.text = (" " ++ operator ++ " ").intercalate (operandTexts node.children) := by
  obtain ⟨id, name, constant, children, named⟩ := node
  obtain ⟨rfl, logical⟩ := isLogical_of_connective connective
  rw [text, if_pos logical, if_neg (by simpa using filled)]

end RuleEditor.Node

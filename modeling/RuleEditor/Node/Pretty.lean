import RuleEditor.Node.Text

/-!
# Rules on several lines

`Node.pretty` breaks the line of a connective that is too wide, one operand to a line, with the
connective in front of every operand but the first. A group that does not fit on its line either
is broken the same way between parentheses, two columns further to the right. Nothing but
connectives is ever broken. Widths count bytes.
-/

namespace RuleEditor.Node

/-- The node's name, if it is a connective. -/
def connective? (node : Node) : Option String := node.function?.filter Name.isLogical

def spaces (count : Nat) : String := String.ofList (List.replicate count ' ')

mutual

/-- The rule within `width`, where the line starts in column `indent`. -/
def prettyAt (width indent : Nat) : Node → String
  | ⟨id, name, constant, children, named⟩ =>
    let node : Node := ⟨id, name, constant, children, named⟩
    match node.connective? with
    | none => node.text
    | some operator =>
      if indent + node.text.utf8ByteSize ≤ width || children.isEmpty then node.text
      else prettyOperands width indent operator "" children

/-- The operands of a broken connective; `lead` stands in front of the first one. -/
def prettyOperands (width indent : Nat) (operator lead : String) : List Node → String
  | [] => ""
  | node :: rest =>
    let grouped := "(" ++ node.text ++ ")"
    let shown :=
      if node.connective?.isNone then node.text
      else if indent + operator.utf8ByteSize + 1 + grouped.utf8ByteSize ≤ width then grouped
      else "(\n" ++ spaces (indent + 2) ++ prettyAt width (indent + 2) node ++ "\n"
        ++ spaces indent ++ ")"
    lead ++ shown
      ++ prettyOperands width indent operator ("\n" ++ spaces indent ++ operator ++ " ") rest

end

/-- The rule within `width`. -/
def pretty (node : Node) (width : Nat) : String := prettyAt width 0 node

end RuleEditor.Node

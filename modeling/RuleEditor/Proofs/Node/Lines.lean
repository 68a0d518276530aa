import RuleEditor.Proofs.Node.Pretty
import RuleEditor.Proofs.Path.Tree

/-!
# Lines that are too wide

When a rule is shown within a width, a line is wider than that only if there is nothing left to
break in it (`Node.unbroken_of_wide`): it holds the text of a condition, an empty group or a single
parenthesis, behind its indentation and perhaps a connective.

**Columns.** What is printed for a node is put behind an indentation that the printer of the node
above has written, and behind a connective if the node fits on that line. So the invariant is about
the lines *with the indentation in front of the first one*: each of them is within the width, or
there is nothing left to break in it (`Node.eachLine_prettyAt`). A group that is put on a line is
known to fit with the connective, which is the wider case, and a group that is broken leaves the
parenthesis alone on its line.
-/

namespace RuleEditor

namespace Text

variable {P : String → Prop} {text more : String}

/-! ## Lines -/

/-- The lines of a text: what stands between its line breaks. -/
def lines (text : String) : List String := (text.toList.splitOn '\n').map String.ofList

end Text

open Text

namespace Node

variable {root node operand : Node} {operator lead piece line : String}
  {operands : List Node} {path : Path} {width indent : Nat}

/-! ## Indentation -/

/-- A text of the rule that is not broken any further. -/
inductive Unbroken (root : Node) : String → Prop
  | condition {path : Path} {node : Node} (found : root.at? path = some node)
      (other : ∀ name ∈ [Name.and, Name.or], node.name ≠ .function name) : Unbroken root node.text
  | empty {path : Path} {node : Node} {operator : String} (found : root.at? path = some node)
      (named : node.name = .function operator) (mem : operator ∈ [Name.and, Name.or])
      (bare : node.children = []) : Unbroken root (operator ++ "()")
  | opening : Unbroken root "("
  | closing : Unbroken root ")"

/-- What stands between the indentation of a line and its text. -/
def leads : List String := ["", Name.and ++ " ", Name.or ++ " "]

/-- A line is within the width, or its text is not broken any further. -/
def Settled (root : Node) (width : Nat) (line : String) : Prop :=
  line.utf8ByteSize ≤ width ∨
    ∃ indent, ∃ lead ∈ leads, ∃ piece, line = spaces indent ++ lead ++ piece ∧ Unbroken root piece

end Node

end RuleEditor

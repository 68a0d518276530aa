import RuleEditor.Binary64.Text
import RuleEditor.Text.Quoted

/-!
# Constants

The literal values that a node can hold, their equality, and their text for a reader.

Equality is that of the values: two floating point numbers are equal as numbers, so that the two
zeros are equal and what is not a number differs from itself.
-/

namespace RuleEditor

/-- A literal value. Dates are strings. -/
inductive Constant where
  | null
  | bool (value : Bool)
  | int (value : Int64)
  | float (value : Binary64)
  | string (value : String)
  | list (items : List Constant)

namespace Constant

def string? : Constant → Option String
  | .string s => some s
  | _ => none

def isNull : Constant → Bool
  | .null => true
  | _ => false

/-! ## Equality -/

mutual

def equal : Constant → Constant → Bool
  | .null, .null => true
  | .bool a, .bool b => a == b
  | .int a, .int b => a == b
  | .float a, .float b => a.equal b
  | .string a, .string b => a == b
  | .list a, .list b => equalAll a b
  | _, _ => false

def equalAll : List Constant → List Constant → Bool
  | [], [] => true
  | a :: as, b :: bs => equal a b && equalAll as bs
  | _, _ => false

end

/-- Equality of two literals that may be missing. -/
def equalOptional : Option Constant → Option Constant → Bool
  | none, none => true
  | some a, some b => equal a b
  | _, _ => false

/-! ## Text -/

mutual

/-- The literal as a reader sees it. -/
def text : Constant → String
  | .null => "null"
  | .bool true => "true"
  | .bool false => "false"
  | .int n => toString n.toInt
  | .float x => x.displayText
  | .string s => Text.quoteShown s
  | .list items => "[" ++ ", ".intercalate (textAll items) ++ "]"

def textAll : List Constant → List String
  | [] => []
  | item :: rest => item.text :: textAll rest

end

end Constant

end RuleEditor

/-!
# The vocabulary of rules

Operators and functions are known by their names. This module lists the names that the editor
treats specially, the keys of named operands, and what a name says about the operands of a node:
how many there are (`arity`), and which named ones there have to be (`requiredSlots`).
-/

namespace RuleEditor

/-! ## Names of operators and functions -/

namespace Name

def and := "AND"
def or := "OR"
def not := "Not"

def equal := "="
def notEqual := "!="
def greater := ">"
def less := "<"
def greaterOrEqual := ">="
def lessOrEqual := "<="

def add := "+"
def subtract := "-"
def multiply := "*"
def divide := "/"

def isInList := "IsInList"
def isNotInList := "IsNotInList"
def stringContains := "StringContains"
def stringNotContain := "StringNotContain"
def stringStartsWith := "StringStartsWith"
def stringEndsWith := "StringEndsWith"
def containsAnyOf := "ContainsAnyOf"
def containsNoneOf := "ContainsNoneOf"

def isEmpty := "IsEmpty"
def isNotEmpty := "IsNotEmpty"

def aggregation := "Aggregation"
def filter := "Filter"
def list := "List"
def payload := "Payload"
def databaseAccess := "DatabaseAccess"
def customListAccess := "CustomListAccess"
def timeAdd := "TimeAdd"
def timeNow := "TimeNow"

/-- How an operand that is not chosen yet is written in stored rules. -/
def undefined := "Undefined"

def comparison : List String :=
  [equal, notEqual, greater, less, greaterOrEqual, lessOrEqual]

def arithmetic : List String := [add, subtract, multiply, divide]

def listAndString : List String :=
  [isInList, isNotInList, stringContains, stringNotContain, stringStartsWith, stringEndsWith,
    containsAnyOf, containsNoneOf]

def logical : List String := [and, or]

def binary : List String := comparison ++ arithmetic ++ listAndString

def unary : List String := [not, isEmpty, isNotEmpty]

/-- The operators of a filter inside an aggregation. -/
def filterOperators : List String :=
  [equal, notEqual, greater, less, greaterOrEqual, lessOrEqual, isInList, isNotInList, isEmpty,
    isNotEmpty, stringStartsWith, stringEndsWith]

def isLogical (name : String) : Bool := logical.contains name

def isBinary (name : String) : Bool := binary.contains name

def isUnary (name : String) : Bool := unary.contains name

/-- An operator of any kind, as opposed to a function. -/
def isOperator (name : String) : Bool := isLogical name || isBinary name || isUnary name

end Name

/-! ## Keys of named operands -/

namespace Slot

def aggregator := "aggregator"
def tableName := "tableName"
def fieldName := "fieldName"
def filters := "filters"
def label := "label"
def operator := "operator"
def value := "value"
def path := "path"
def customListId := "customListId"
def timestampField := "timestampField"
def duration := "duration"
def sign := "sign"

end Slot

/-! ## Operands by name -/

/-- How many positional operands a node of some name has. -/
inductive Arity where
  /-- Exactly this many: a removed operand leaves a placeholder. -/
  | fixed (count : Nat)
  /-- Any number: a removed operand leaves nothing. -/
  | variadic
  /-- Unknown to the editor, and for the server to judge. -/
  | unchecked
  deriving DecidableEq

namespace Name

def arity (name : String) : Arity :=
  if isBinary name then .fixed 2
  else if isUnary name || name = payload then .fixed 1
  else if isLogical name || name = list then .variadic
  else if name = timeNow then .fixed 0
  else .unchecked

/-- The named operands without which a function cannot be evaluated. -/
def requiredSlots (name : String) : List String :=
  if name = aggregation then [Slot.aggregator, Slot.tableName, Slot.fieldName, Slot.filters]
  else if name = filter then [Slot.operator, Slot.tableName, Slot.fieldName, Slot.value]
  else if name = databaseAccess then [Slot.tableName, Slot.fieldName, Slot.path]
  else if name = customListAccess then [Slot.customListId]
  else if name = timeAdd then [Slot.timestampField, Slot.duration, Slot.sign]
  else []

end Name

/-! ## Aggregators -/

/-- The statistic that an aggregation computes. -/
inductive Aggregator where
  | avg
  | count
  | countDistinct
  | max
  | min
  | sum
  deriving DecidableEq

namespace Aggregator

def all : List Aggregator := [.avg, .count, .countDistinct, .max, .min, .sum]

def name : Aggregator → String
  | .avg => "AVG"
  | .count => "COUNT"
  | .countDistinct => "COUNT_DISTINCT"
  | .max => "MAX"
  | .min => "MIN"
  | .sum => "SUM"

def ofName? (name : String) : Option Aggregator := all.find? (·.name = name)

/-- What is said of a name that is no aggregator's. -/
def unknownMessage (name : String) : String := "unknown aggregator: " ++ name

end Aggregator

end RuleEditor

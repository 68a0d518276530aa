import RuleEditor.Keyed
import RuleEditor.Path.Basic

/-!
# Findings of validation

**Errors.** An error has a code and says, where it can, which operand is at fault. The codes that
the validation server is known to send have names of their own; any other is kept as it came.

**Evaluations.** What the server computed for a node.

Errors and evaluations are collected in tables keyed by the paths of their nodes.
-/

namespace RuleEditor

inductive ErrorCode where
  | unexpectedError
  | undefinedFunction
  | wrongNumberOfArguments
  | missingNamedArgument
  | argumentsMustBeIntOrFloat
  | argumentMustBeInteger
  | argumentMustBeString
  | argumentMustBeBoolean
  | argumentMustBeList
  | argumentMustBeTime
  | argumentRequired
  | argumentInvalidType
  | listNotFound
  | databaseAccessNotFound
  | payloadFieldNotFound
  | formulaIncorrectReturnType
  | rootShapeUnresolved
  /-- A code without a name of its own. -/
  | other (code : String)
  deriving DecidableEq

namespace ErrorCode

def text : ErrorCode → String
  | .unexpectedError => "UNEXPECTED_ERROR"
  | .undefinedFunction => "UNDEFINED_FUNCTION"
  | .wrongNumberOfArguments => "WRONG_NUMBER_OF_ARGUMENTS"
  | .missingNamedArgument => "MISSING_NAMED_ARGUMENT"
  | .argumentsMustBeIntOrFloat => "ARGUMENTS_MUST_BE_INT_OR_FLOAT"
  | .argumentMustBeInteger => "ARGUMENT_MUST_BE_INTEGER"
  | .argumentMustBeString => "ARGUMENT_MUST_BE_STRING"
  | .argumentMustBeBoolean => "ARGUMENT_MUST_BE_BOOLEAN"
  | .argumentMustBeList => "ARGUMENT_MUST_BE_LIST"
  | .argumentMustBeTime => "ARGUMENT_MUST_BE_TIME"
  | .argumentRequired => "ARGUMENT_REQUIRED"
  | .argumentInvalidType => "ARGUMENT_INVALID_TYPE"
  | .listNotFound => "LIST_NOT_FOUND"
  | .databaseAccessNotFound => "DATABASE_ACCESS_NOT_FOUND"
  | .payloadFieldNotFound => "PAYLOAD_FIELD_NOT_FOUND"
  | .formulaIncorrectReturnType => "FORMULA_INCORRECT_RETURN_TYPE"
  | .rootShapeUnresolved => "ROOT_SHAPE_UNRESOLVED"
  | .other code => code

/-- The codes with names of their own. -/
def known : List ErrorCode :=
  [.unexpectedError, .undefinedFunction, .wrongNumberOfArguments, .missingNamedArgument,
    .argumentsMustBeIntOrFloat, .argumentMustBeInteger, .argumentMustBeString,
    .argumentMustBeBoolean, .argumentMustBeList, .argumentMustBeTime, .argumentRequired,
    .argumentInvalidType, .listNotFound, .databaseAccessNotFound, .payloadFieldNotFound,
    .formulaIncorrectReturnType, .rootShapeUnresolved]

def ofText (text : String) : ErrorCode := (known.find? (·.text = text)).getD (.other text)

end ErrorCode

/-- A finding about a node. -/
structure EvaluationError where
  code : ErrorCode
  message : Option String
  /-- The position of the operand at fault. -/
  argumentIndex : Option UInt64
  /-- The name of the operand at fault. -/
  argumentName : Option String
  deriving DecidableEq

/-- What the server computed for a node. -/
structure NodeEvaluation where
  returnValue : Option Json
  errors : List EvaluationError

/-- Errors by the paths of their nodes. -/
abbrev PathErrors := Keyed Path (List EvaluationError)

/-- Evaluations by the paths of their nodes. -/
abbrev PathEvaluations := Keyed Path NodeEvaluation

namespace PathErrors

/-- The errors at a path. -/
def errorsAt (errors : PathErrors) (path : Path) : List EvaluationError :=
  (errors.get? path).getD []

/-- Adds errors behind those at a path. -/
def append (errors : PathErrors) (path : Path) (more : List EvaluationError) : PathErrors :=
  errors.insert path (errors.errorsAt path ++ more)

/-- Adds the errors of a list one by one. -/
def addAll (errors : PathErrors) (more : List (Path × EvaluationError)) : PathErrors :=
  more.foldl (fun errors (path, error) => errors.append path [error]) errors

/-- The number of errors at all paths. -/
def count (errors : PathErrors) : Nat := errors.values.flatten.length

end PathErrors

open Json.Source

namespace EvaluationError

def ofCode (code : ErrorCode) : EvaluationError := ⟨code, none, none, none⟩

def text (error : EvaluationError) : String :=
  match error.message with
  | some message => error.code.text ++ ": " ++ message
  | none => error.code.text

/-! ## JSON -/

/-- The members of the record of an error. What is not said is not written. -/
def members (error : EvaluationError) : List (String × Json) :=
  ("error", .string error.code.text)
    :: ((error.message.map fun message => ("message", .string message)).toList
      ++ (error.argumentIndex.map fun index =>
          ("argumentIndex", Json.number (.ofUInt64 index))).toList
      ++ (error.argumentName.map fun name => ("argumentName", Json.string name)).toList)

def toJson (error : EvaluationError) : Json := .object error.members

def fields : List (Json.Source.Field EvaluationError) :=
  [requiredField "error" Json.Source.text fun code error =>
      { error with code := ErrorCode.ofText code },
    field "message" (optional Json.Source.text) fun message error =>
      { error with message := message },
    field "argumentIndex" (optional word) fun index error =>
      { error with argumentIndex := index },
    field "argumentName" (optional Json.Source.text) fun name error =>
      { error with argumentName := name }]

def blank : EvaluationError := ofCode .unexpectedError

/-- Decodes an error where `room` more brackets may be opened. -/
def decode : Nat → Json.Source → Except Json.Fault EvaluationError
  | 0, source => source.unopenedRecord
  | _ + 1, source => source.record fields blank

end EvaluationError

namespace NodeEvaluation

def members (evaluation : NodeEvaluation) : List (String × Json) :=
  [("returnValue", evaluation.returnValue.getD .null),
    ("errors", .array (evaluation.errors.map EvaluationError.toJson))]

/-- The fields of an evaluation that is written among the members of another record. -/
def fields : List (Json.Source.Field NodeEvaluation) :=
  [field "returnValue" (optional (json Json.maxDepth)) fun value evaluation =>
      { evaluation with returnValue := value },
    field "errors" (list (EvaluationError.decode Json.maxDepth)) fun errors evaluation =>
      { evaluation with errors := errors }]

def blank : NodeEvaluation := ⟨none, []⟩

end NodeEvaluation

end RuleEditor

import RuleEditor.Validation.Error

/-!
# Answers of the validation server

An answer lists errors and evaluations, each with the text of a path. `Response.annotations` turns
it into tables by path: an error inside an evaluation joins the errors of its path, unless they hold
it already, and an entry whose path cannot be read is left out.

An evaluation can also come as a tree with the shape of the rule. `Response.ofEvaluationTree` makes
an answer of it, an evaluation for every node and an error for every error.
-/

namespace RuleEditor

/-- An error with the text of its path. -/
structure ErrorEntry where
  path : String
  error : EvaluationError

/-- An evaluation with the text of its path. -/
structure EvaluationEntry where
  path : String
  evaluation : NodeEvaluation

structure Response where
  errors : List ErrorEntry
  evaluation : List EvaluationEntry

/-- Evaluations in the shape of the rule. -/
structure EvaluationTree where
  returnValue : Option Json
  errors : List EvaluationError
  children : List EvaluationTree
  named : List (String × EvaluationTree)

/-- What an answer says about the nodes of a tree. -/
structure Annotations where
  errors : PathErrors
  evaluations : PathEvaluations

namespace Annotations

def empty : Annotations := ⟨∅, ∅⟩

def errorCount (annotations : Annotations) : Nat := annotations.errors.count

end Annotations

/-! ## Annotations -/

/-- The path of an entry, if its text is that of one. -/
def entryPath? (text : String) : Option Path := (Path.parse text).toOption

/-- Adds the errors that are not there yet. -/
def joinErrors (errors : List EvaluationError) : List EvaluationError → List EvaluationError
  | [] => errors
  | error :: rest => joinErrors (if error ∈ errors then errors else errors ++ [error]) rest

namespace Response

def empty : Response := ⟨[], []⟩

/-- Adds an error at the path of its entry. -/
def addError (errors : PathErrors) (entry : ErrorEntry) : PathErrors :=
  match entryPath? entry.path with
  | some path => errors.append path [entry.error]
  | none => errors

/-- Joins the errors inside an evaluation with those at the path of its entry. -/
def joinEvaluation (errors : PathErrors) (entry : EvaluationEntry) : PathErrors :=
  match entryPath? entry.path with
  | some path =>
    if entry.evaluation.errors.isEmpty then errors
    else errors.insert path (joinErrors (errors.errorsAt path) entry.evaluation.errors)
  | none => errors

/-- Stores an evaluation at the path of its entry. -/
def storeEvaluation (evaluations : PathEvaluations) (entry : EvaluationEntry) : PathEvaluations :=
  match entryPath? entry.path with
  | some path => evaluations.insert path entry.evaluation
  | none => evaluations

def annotations (response : Response) : Annotations :=
  ⟨response.evaluation.foldl joinEvaluation (response.errors.foldl addError ∅),
    response.evaluation.foldl storeEvaluation ∅⟩

end Response

/-! ## Evaluation trees -/

namespace EvaluationTree

mutual

/-- The evaluations of a tree with their paths, which all start with `path`. -/
def walkFrom (path : Path) : EvaluationTree → List (Path × NodeEvaluation)
  | ⟨returnValue, errors, children, named⟩ =>
    (path, ⟨returnValue, errors⟩) :: (walkChildren path 0 children ++ walkNamed path named)

def walkChildren (path : Path) (index : Nat) : List EvaluationTree → List (Path × NodeEvaluation)
  | [] => []
  | child :: rest => walkFrom (path.child index) child ++ walkChildren path (index + 1) rest

def walkNamed (path : Path) : List (String × EvaluationTree) → List (Path × NodeEvaluation)
  | [] => []
  | (key, child) :: rest => walkFrom (path.named key) child ++ walkNamed path rest

end

/-- The evaluations of a tree by path, each node before its operands. -/
def flatten (tree : EvaluationTree) : PathEvaluations := Keyed.ofList (walkFrom Path.root tree)

end EvaluationTree

/-- The answer that says the same as a tree. -/
def Response.ofEvaluationTree (tree : EvaluationTree) : Response :=
  let entries := tree.flatten.entries
  ⟨entries.flatMap fun (path, evaluation) => evaluation.errors.map (⟨path.text, ·⟩),
    entries.map fun (path, evaluation) => ⟨path.text, ⟨evaluation.returnValue, []⟩⟩⟩

/-! ## JSON -/

open Json.Source

/-- A record of a path among whose members another record is written. -/
def entryJson (path : String) (members : List (String × Json)) : Json :=
  .object (("path", .string path) :: members)

namespace ErrorEntry

def toJson (entry : ErrorEntry) : Json := entryJson entry.path entry.error.members

def decode (room : Nat) (source : Json.Source) : Except Json.Fault ErrorEntry := do
  let (path, members) ← source.splitMember room "path" text
  let error ← embedded EvaluationError.fields EvaluationError.blank members
  return ⟨path, error⟩

end ErrorEntry

namespace EvaluationEntry

def toJson (entry : EvaluationEntry) : Json := entryJson entry.path entry.evaluation.members

def decode (room : Nat) (source : Json.Source) : Except Json.Fault EvaluationEntry := do
  let (path, members) ← source.splitMember room "path" text
  let evaluation ← embedded NodeEvaluation.fields NodeEvaluation.blank members
  return ⟨path, evaluation⟩

end EvaluationEntry

namespace Response

def toJson (response : Response) : Json :=
  .object [("errors", .array (response.errors.map ErrorEntry.toJson)),
    ("evaluation", .array (response.evaluation.map EvaluationEntry.toJson))]

/-- The members of an entry stand inside three brackets. -/
def decode : Json.Source → Except Json.Fault Response :=
  let room := Json.maxDepth - 3
  record
    [field "errors" (list (ErrorEntry.decode room)) fun errors response =>
        { response with errors := errors },
      field "evaluation" (list (EvaluationEntry.decode room)) fun evaluation response =>
        { response with evaluation := evaluation }]
    empty

def parse (text : String) : Except Json.Fault Response := Json.parse decode text

end Response

namespace EvaluationTree

mutual

def toJson : EvaluationTree → Json
  | ⟨returnValue, errors, children, named⟩ =>
    .object [("returnValue", returnValue.getD .null),
      ("errors", .array (errors.map EvaluationError.toJson)),
      ("children", .array (toJsonAll children)),
      ("namedChildren", .object (toJsonNamed named))]

def toJsonAll : List EvaluationTree → List Json
  | [] => []
  | tree :: rest => tree.toJson :: toJsonAll rest

def toJsonNamed : List (String × EvaluationTree) → List (String × Json)
  | [] => []
  | (key, tree) :: rest => (key, tree.toJson) :: toJsonNamed rest

end

/-- The fields of a tree, given what decodes its collections and how deep a value may nest. -/
def fields (room : Nat) (errors : Json.Source → Except Json.Fault (List EvaluationError))
    (children : Json.Source → Except Json.Fault (List EvaluationTree))
    (named : Json.Source → Except Json.Fault (List (String × EvaluationTree))) :
    List (Json.Source.Field EvaluationTree) :=
  [field "returnValue" (optional (json room)) fun value tree => { tree with returnValue := value },
    field "errors" errors fun errors tree => { tree with errors := errors },
    field "children" children fun children tree => { tree with children := children },
    field "namedChildren" named fun named tree => { tree with named := named }]

def blank : EvaluationTree := ⟨none, [], [], []⟩

/-- Decodes a tree where `room` more brackets may be opened. -/
def decode : Nat → Json.Source → Except Json.Fault EvaluationTree
  | 0, source => source.unopenedRecord
  | 1, source => source.record (fields 0 unopenedList unopenedList unopenedEntries) blank
  | room + 2, source =>
    source.record (fields (room + 1) (list (EvaluationError.decode room))
      (list (decode room)) (entries (decode room))) blank

def parse (text : String) : Except Json.Fault EvaluationTree :=
  Json.parse (decode Json.maxDepth) text

end EvaluationTree

end RuleEditor

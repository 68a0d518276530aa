import RuleEditor.Aggregation.Basic

/-!
# Drafts of aggregations

Changes to an aggregation are collected in a draft and reach the tree all at once, when the draft
is committed. A draft can be committed if it has no problem; the problems are listed in the order
of the form that edits the draft.
-/

namespace RuleEditor

inductive DraftError where
  | missingAggregator
  | missingTable
  | missingField
  | incompleteFilter (index : Nat)
  | noSuchFilter (index : Nat)
  deriving DecidableEq

def DraftError.message : DraftError → String
  | .missingAggregator => "Aggregator is required"
  | .missingTable => "Table is required"
  | .missingField => "Field is required"
  | .incompleteFilter index => "Filter " ++ toString index ++ " is incomplete"
  | .noSuchFilter index => "No filter at index " ++ toString index

/-- An aggregation while it is edited, beside the one that editing began with. -/
structure Draft where
  start : Aggregation
  current : Aggregation

namespace Draft

def ofAggregation (aggregation : Aggregation) : Draft := ⟨aggregation, aggregation⟩

def empty : Draft := ofAggregation Aggregation.empty

def isModified (draft : Draft) : Bool := !draft.current.equal draft.start

/-! ## Edits -/

def setAggregator (draft : Draft) (aggregator : Aggregator) : Draft :=
  { draft with current := { draft.current with aggregator := some aggregator } }

/-- Chooses a table. The field chosen before is one of another table, unless the table stays. -/
def setTable (draft : Draft) (table : String) : Draft :=
  let field := if draft.current.table = some table then draft.current.field else none
  { draft with current := { draft.current with table := some table, field := field } }

def setField (draft : Draft) (field : String) : Draft :=
  { draft with current := { draft.current with field := some field } }

/-- Chooses a label. The empty label is none. -/
def setLabel (draft : Draft) (label : Option String) : Draft :=
  { draft with current := { draft.current with label := label.filter (· ≠ "") } }

def addFilter (draft : Draft) (row : FilterRow) : Draft :=
  { draft with current := { draft.current with filters := draft.current.filters ++ [row] } }

def updateFilter (draft : Draft) (index : Nat) (row : FilterRow) : Except DraftError Draft :=
  if index < draft.current.filters.length then
    .ok { draft with
      current := { draft.current with filters := draft.current.filters.set index row } }
  else .error (.noSuchFilter index)

/-- Takes out a filter, and gives it back. -/
def removeFilter (draft : Draft) (index : Nat) : Except DraftError (FilterRow × Draft) :=
  match draft.current.filters[index]? with
  | some row =>
    .ok (row, { draft with
      current := { draft.current with filters := draft.current.filters.eraseIdx index } })
  | none => .error (.noSuchFilter index)

/-! ## Committing -/

/-- The problems of filter rows, the first of which has the given position. -/
def filterProblems (index : Nat) : List FilterRow → List DraftError
  | [] => []
  | row :: rest =>
    (if row.isComplete then [] else [.incompleteFilter index]) ++ filterProblems (index + 1) rest

/-- Every problem of the draft, in form order. -/
def problems (draft : Draft) : List DraftError :=
  (if draft.current.aggregator.isNone then [.missingAggregator] else [])
    ++ (if draft.current.table.isNone then [.missingTable] else [])
    ++ (if draft.current.field.isNone then [.missingField] else [])
    ++ filterProblems 0 draft.current.filters

def isValid (draft : Draft) : Bool := draft.problems.isEmpty

/-- The node of the edited aggregation, or the first problem. -/
def commit (draft : Draft) : StateT Nat (Except DraftError) Node := fun next =>
  match draft.problems with
  | [] => .ok (draft.current.toNode next)
  | problem :: _ => .error problem

end Draft

end RuleEditor

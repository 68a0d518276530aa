import RuleEditor.Keyed
import RuleEditor.Vocabulary

/-!
# Editing contexts

What the rules of an editor may refer to: the tables of a data model with their fields and their
links to single rows of other tables, the table whose rows trigger the rule, custom lists, and the
operators on offer. Tables are looked up by the key under which they are stored.
-/

namespace RuleEditor

inductive DataType where
  | bool
  | int
  | float
  | string
  | timestamp
  /-- A type that the editor does not know. -/
  | unknown
  deriving DecidableEq

structure Field where
  name : String
  dataType : DataType
  nullable : Bool
  deriving DecidableEq

/-- A link from a row to a single row of another table. -/
structure Link where
  table : String
  deriving DecidableEq

structure Table where
  name : String
  fields : Keyed String Field
  links : Keyed String Link

structure CustomList where
  id : String
  name : String
  deriving DecidableEq

/-- The operators on offer, by the kind of node. -/
structure OperatorCatalogue where
  binary : List String
  unary : List String
  filter : List String
  aggregators : List String
  deriving DecidableEq

structure Context where
  tables : Keyed String Table
  /-- The table whose rows trigger the rule. -/
  trigger : Option String
  lists : List CustomList
  operators : OperatorCatalogue

/-! ## Building -/

namespace Table

def empty (name : String) : Table := ⟨name, ∅, ∅⟩

def withField (table : Table) (name : String) (dataType : DataType) : Table :=
  { table with fields := table.fields.insert name ⟨name, dataType, false⟩ }

def withLink (table : Table) (name target : String) : Table :=
  { table with links := table.links.insert name ⟨target⟩ }

end Table

namespace OperatorCatalogue

/-- Every operator that the editor knows. -/
def full : OperatorCatalogue :=
  ⟨Name.binary, Name.unary, Name.filterOperators, Aggregator.all.map Aggregator.name⟩

/-- The operators that a node of some name may be switched to, none for a function. -/
def alternatives (catalogue : OperatorCatalogue) (name : String) : List String :=
  if Name.isLogical name then Name.logical
  else if Name.isBinary name then catalogue.binary
  else if Name.isUnary name then catalogue.unary
  else []

end OperatorCatalogue

namespace Context

def empty : Context := ⟨∅, none, [], OperatorCatalogue.full⟩

/-- Stores a table under its own name. -/
def withTable (context : Context) (table : Table) : Context :=
  { context with tables := context.tables.insert table.name table }

def withTrigger (context : Context) (table : String) : Context :=
  { context with trigger := some table }

def withList (context : Context) (id name : String) : Context :=
  { context with lists := context.lists ++ [⟨id, name⟩] }

/-! ## Looking up -/

/-- Whether there is nothing to refer to. References are not checked against such a context. -/
def isEmpty (context : Context) : Bool := context.tables.isEmpty && context.lists.isEmpty

def table? (context : Context) (name : String) : Option Table := context.tables.get? name

def triggerTable? (context : Context) : Option Table := context.trigger.bind context.table?

/-- A field of the object that triggers the rule. -/
def payloadField? (context : Context) (name : String) : Option Field :=
  context.triggerTable?.bind (·.fields.get? name)

/-- The table reached from a table by following links. -/
def follow? (context : Context) (table : Table) : List String → Option Table
  | [] => some table
  | link :: rest => do
    let link ← table.links.get? link
    let linked ← context.table? link.table
    context.follow? linked rest

/-- A field reached from a table by following links. -/
def databaseField? (context : Context) (table : String) (links : List String) (field : String) :
    Option Field := do
  let table ← context.table? table
  let reached ← context.follow? table links
  reached.fields.get? field

def list? (context : Context) (id : String) : Option CustomList :=
  context.lists.find? (·.id = id)

end Context

end RuleEditor

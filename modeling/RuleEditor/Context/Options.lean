import RuleEditor.Context.Basic
import RuleEditor.Operand

/-!
# Operands on offer

The operands that a picker can insert: the fields of the trigger object, the fields that can be
reached from it by following links, and the custom lists.

**Chains.** Links are followed depth first, in the order in which they are stored, and never to a
table that the chain has been through. A table is recognised by its name, and its links are looked
up under its name too. Where tables are stored under other keys than their names a chain can go on
for ever; `chains?` then has no answer.
-/

namespace RuleEditor

/-- An entry of a picker. -/
structure OperandOption where
  kind : OperandKind
  /-- What the reader chooses by. -/
  label : String
  dataType : Option DataType
  /-- What is inserted. -/
  node : Node

namespace Context

/-- The chains of links that continue `chain` from the table stored under `key`, each with the
table it ends at. `visited` holds the names of the tables that the chain has been through. There
is no answer if a chain continues for `fuel` links. -/
def chainsFrom (context : Context) :
    Nat → List String → List String → String → Option (List (List String × Table))
  | 0, _, _, _ => none
  | fuel + 1, visited, chain, key =>
    match context.table? key with
    | none => some []
    | some table => do
      let continued ← table.links.entries.mapM fun (name, link) =>
        if link.table ∈ visited then some []
        else
          match context.table? link.table with
          | none => some []
          | some linked => do
            let chain := chain ++ [name]
            let longer ← context.chainsFrom fuel (visited ++ [linked.name]) chain linked.name
            return (chain, linked) :: longer
      return continued.flatten

/-- A bound on the length of chains. A chain that neither meets a new name nor comes to an end
goes through the same table twice, and then through it again and again. -/
def chainBound (context : Context) : Nat :=
  (context.tables.size + 1) * (context.tables.size + 1) + 1

/-- The chains of links from a table, unless there is no end to them. -/
def chains? (context : Context) (table : Table) : Option (List (List String × Table)) :=
  context.chainsFrom context.chainBound [table.name] [] table.name

/-- The fields of the trigger object. -/
def payloadOptions (trigger : Table) : Fresh (List OperandOption) :=
  Fresh.all (trigger.fields.values.map fun field => do
    let node ← Node.payload field.name
    return ⟨.payload, field.name, some field.dataType, node⟩)

/-- The fields of the table at the end of a chain. -/
def databaseOptions (trigger : Table) (chain : List String) (table : Table) :
    Fresh (List OperandOption) :=
  Fresh.all (table.fields.values.map fun field => do
    let node ← Node.databaseAccess trigger.name chain field.name
    let label := trigger.name ++ "." ++ ".".intercalate chain ++ "." ++ field.name
    return ⟨.databaseAccess, label, some field.dataType, node⟩)

def listOptions (lists : List CustomList) : Fresh (List OperandOption) :=
  Fresh.all (lists.map fun list => do
    let node ← Node.customList list.id
    return ⟨.customList, list.name, none, node⟩)

/-- Every operand on offer, unless there is no end to the chains of links. -/
def operandOptions? (context : Context) : Fresh (Option (List OperandOption)) := do
  match context.triggerTable? with
  | none =>
    let lists ← listOptions context.lists
    return some lists
  | some trigger =>
    match context.chains? trigger with
    | none => return none
    | some chains =>
      let payload ← payloadOptions trigger
      let database ← Fresh.all (chains.map fun (chain, table) =>
        databaseOptions trigger chain table)
      let lists ← listOptions context.lists
      return some (payload ++ database.flatten ++ lists)

end Context

end RuleEditor

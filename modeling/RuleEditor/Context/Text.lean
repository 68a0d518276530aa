import RuleEditor.Context.Basic
import RuleEditor.Json.Decode

/-!
# Texts of editing contexts

The JSON spelling of a context. A table is a record of its name, fields and links, and only the
name has to be there; a context need not say anything. A type that is not known is read as such.
-/

namespace RuleEditor

open Json.Source

namespace DataType

def name : DataType → String
  | .bool => "Bool"
  | .int => "Int"
  | .float => "Float"
  | .string => "String"
  | .timestamp => "Timestamp"
  | .unknown => "Unknown"

/-- Every name is that of a type; all but five are unknown. -/
def ofName (name : String) : DataType :=
  ([.bool, .int, .float, .string, .timestamp].find? fun type : DataType => type.name = name).getD
    .unknown

def decode : Json.Source → Except Json.Fault DataType := choice fun name => some (ofName name)

end DataType

namespace Field

def toJson (field : Field) : Json :=
  .object [("name", .string field.name), ("dataType", .string field.dataType.name),
    ("nullable", .bool field.nullable)]

def decode : Json.Source → Except Json.Fault Field :=
  record
    [requiredField "name" text fun name field => { field with name := name },
      requiredField "dataType" DataType.decode fun type field => { field with dataType := type },
      Json.Source.field "nullable" flag fun nullable field => { field with nullable := nullable }]
    ⟨"", .unknown, false⟩

end Field

namespace Link

def toJson (link : Link) : Json := .object [("linkedTableName", .string link.table)]

def decode : Json.Source → Except Json.Fault Link :=
  record [requiredField "linkedTableName" text fun table _ => ⟨table⟩] ⟨""⟩

end Link

/-- A table of records as an object. -/
def Keyed.toJson {α : Type} (encode : α → Json) (table : Keyed String α) : Json :=
  .object (table.map encode).entries

namespace Table

def toJson (table : Table) : Json :=
  .object [("name", .string table.name), ("fields", table.fields.toJson Field.toJson),
    ("linksToSingle", table.links.toJson Link.toJson)]

def decode : Json.Source → Except Json.Fault Table :=
  record
    [requiredField "name" text fun name table => { table with name := name },
      field "fields" (keyed Field.decode) fun fields table => { table with fields := fields },
      field "linksToSingle" (keyed Link.decode) fun links table => { table with links := links }]
    (Table.empty "")

end Table

namespace CustomList

def toJson (list : CustomList) : Json :=
  .object [("id", .string list.id), ("name", .string list.name)]

def decode : Json.Source → Except Json.Fault CustomList :=
  record
    [requiredField "id" text fun id list => { list with id := id },
      requiredField "name" text fun name list => { list with name := name }]
    ⟨"", ""⟩

end CustomList

namespace OperatorCatalogue

def toJson (catalogue : OperatorCatalogue) : Json :=
  let names (names : List String) : Json := .array (names.map .string)
  .object [("binary", names catalogue.binary), ("unary", names catalogue.unary),
    ("filter", names catalogue.filter), ("aggregators", names catalogue.aggregators)]

def decode : Json.Source → Except Json.Fault OperatorCatalogue :=
  record
    [requiredField "binary" (list text) fun names catalogue => { catalogue with binary := names },
      requiredField "unary" (list text) fun names catalogue => { catalogue with unary := names },
      requiredField "filter" (list text) fun names catalogue => { catalogue with filter := names },
      requiredField "aggregators" (list text) fun names catalogue =>
        { catalogue with aggregators := names }]
    ⟨[], [], [], []⟩

end OperatorCatalogue

namespace Context

def toJson (context : Context) : Json :=
  .object [("dataModel", context.tables.toJson Table.toJson),
    ("triggerObject", (context.trigger.map .string).getD .null),
    ("customLists", .array (context.lists.map CustomList.toJson)),
    ("operators", context.operators.toJson)]

def decode : Json.Source → Except Json.Fault Context :=
  record
    [field "dataModel" (keyed Table.decode) fun tables context =>
        { context with tables := tables },
      field "triggerObject" (optional text) fun trigger context =>
        { context with trigger := trigger },
      field "customLists" (list CustomList.decode) fun lists context =>
        { context with lists := lists },
      field "operators" OperatorCatalogue.decode fun operators context =>
        { context with operators := operators }]
    Context.empty

def parse (text : String) : Except Json.Fault Context := Json.parse decode text

end Context

end RuleEditor

import RuleEditor.Context.Text
import RuleEditor.Proofs.Json.Decoding
import RuleEditor.Proofs.Keyed

/-!
# Contexts and their texts

**Every context can be received** (`Context.parse_toJson`). A context is read back from its own
text, whatever its tables are stored under and wherever their links lead. So what holds of some
contexts only does not become true of all that are read from texts.
-/

namespace RuleEditor

open Json.Source

/-! ## Collections -/

section

variable {α : Type} {encode : α → Json} {decode : Json.Source → Except Json.Fault α}
  (decodes : ∀ value, decode (encode value).source = .ok value)
include decodes

theorem Json.list_map (values : List α) :
    (Json.array (values.map encode)).source.list decode = .ok values := by
  refine (list_sourceItems decode _).trans ?_
  induction values with
  | nil => rfl
  | cons value rest ih =>
    rw [List.map_cons, List.mapM_cons, decodes, ih]
    rfl

theorem Keyed.decode_toJson (table : Keyed String α) :
    (table.toJson encode).source.keyed decode = .ok table := by
  have read : (table.toJson encode).source.entries decode = .ok table.entries := by
    refine (entries_sourceMembers decode (table.map encode).distinct).trans ?_
    show (table.entries.map fun entry => (entry.1, encode entry.2)).mapM (member decode) = _
    induction table.entries with
    | nil => rfl
    | cons entry rest ih =>
      rw [List.map_cons, List.mapM_cons, ih, member, decodes]
      rfl
  rw [keyed, read]
  exact congrArg Except.ok table.ofList_entries

end

/-! ## Records -/

theorem Field.decode_toJson (field : Field) : decode field.toJson.source = .ok field := by
  obtain ⟨name, type, nullable⟩ := field
  cases type <;> rfl

theorem Link.decode_toJson (link : Link) : decode link.toJson.source = .ok link := rfl

theorem CustomList.decode_toJson (list : CustomList) : decode list.toJson.source = .ok list := rfl

theorem Table.decode_toJson (table : Table) : decode table.toJson.source = .ok table := by
  have fields := Keyed.decode_toJson Field.decode_toJson table.fields
  have links := Keyed.decode_toJson Link.decode_toJson table.links
  simp [decode, toJson, Json.source, Json.sourceMembers, record, recordMember, requiredField, field,
    keyText, Json.Source.text, close, fields, links, Except.map, bind, Except.bind, pure,
    Except.pure]

theorem OperatorCatalogue.decode_toJson (catalogue : OperatorCatalogue) :
    decode catalogue.toJson.source = .ok catalogue := by
  have names (names : List String) :
      (Json.array (names.map .string)).source.list text = .ok names :=
    Json.list_map (fun _ => rfl) names
  simp only [Json.source] at names
  simp [decode, toJson, Json.source, Json.sourceMembers, record, recordMember, requiredField,
    keyText, close, names, Except.map, bind, Except.bind, pure, Except.pure]

namespace Context

theorem decode_toJson (context : Context) : decode context.toJson.source = .ok context := by
  have tables := Keyed.decode_toJson Table.decode_toJson context.tables
  have trigger : ((context.trigger.map Json.string).getD .null).source.optional text =
      .ok context.trigger := by
    cases context.trigger <;> rfl
  have lists := Json.list_map CustomList.decode_toJson context.lists
  simp only [Json.source] at lists
  have operators := context.operators.decode_toJson
  simp [decode, toJson, Json.source, Json.sourceMembers, record, recordMember, field, keyText,
    close, tables, trigger, lists, operators, Except.map, bind, Except.bind, pure, Except.pure]

/-- **A context is read from its own text.** -/
theorem parse_toJson (context : Context) : parse context.toJson.text = .ok context :=
  (Json.parse_text decode context.toJson).trans context.decode_toJson

end Context

end RuleEditor

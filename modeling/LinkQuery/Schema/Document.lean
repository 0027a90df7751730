import LinkQuery.Document.Decode
import LinkQuery.Json.Dialect
import LinkQuery.Error
import LinkQuery.Schema.Basic
import LinkQuery.Toml.Reader

/-!
# Schemas as documents

A schema is written as a record of records: tables, their columns and their foreign keys, the latter
as a table under the names of the constraints. Fields of several words have a second name in camel
case, and the fields with an obvious value may be left out.

* `Schema.ofDocument?` reads a schema from a document of any format, `Schema.ofJson` and
  `Schema.ofToml` read one from text.
* `Schema.toJson` writes a schema with all of its fields, under their first names.
-/

namespace LinkQuery

/-- The actions on deletion, as they are written. -/
def OnDelete.alternatives : List (String × OnDelete) :=
  [("NO ACTION", .noAction), ("RESTRICT", .restrict), ("CASCADE", .cascade),
    ("SET NULL", .setNull), ("SET DEFAULT", .setDefault)]

/-- An action on deletion, as it is written. -/
def OnDelete.text : OnDelete → String
  | noAction => "NO ACTION"
  | restrict => "RESTRICT"
  | cascade => "CASCADE"
  | setNull => "SET NULL"
  | setDefault => "SET DEFAULT"

/-! ### Reading -/

/-- Reads a column. -/
def Column.ofDocument? (dialect : Dialect) (d : Document) : Option Column := do
  match ← d.fields? dialect [["name"], ["type", "typ"], ["nullable"], ["primary_key"]] with
  | [name, typeName, nullable, primaryKey] =>
    some
      { name := ← required Document.text? name
        typeName := ← required Document.text? typeName
        nullable := ← defaulted Document.bool? false nullable
        primaryKey := ← defaulted Document.bool? false primaryKey }
  | _ => none

/-- Reads a foreign key. -/
def ForeignKey.ofDocument? (dialect : Dialect) (d : Document) : Option ForeignKey := do
  match ← d.fields? dialect
      [["name"], ["columns"], ["referenced_table", "referencedTable"],
        ["referenced_columns", "referencedColumns"], ["on_delete", "onDelete"]] with
  | [name, columns, targetTable, targetColumns, onDelete] =>
    some
      { name := ← required Document.text? name
        columns := ← required (Document.listOf? Document.text?) columns
        targetTable := ← required Document.text? targetTable
        targetColumns := ← required (Document.listOf? Document.text?) targetColumns
        onDelete :=
          ← defaulted (Document.choice? dialect OnDelete.alternatives) .noAction onDelete }
  | _ => none

/-- Reads a table. -/
def Table.ofDocument? (dialect : Dialect) (d : Document) : Option Table := do
  match ← d.fields? dialect [["name"], ["columns"], ["foreign_keys", "foreignKeys"]] with
  | [name, columns, foreignKeys] =>
    some
      { name := ← required Document.text? name
        columns := ← defaulted (Document.listOf? (Column.ofDocument? dialect)) [] columns
        foreignKeys :=
          NameMap.ofList
            (← defaulted (Document.mapOf? (ForeignKey.ofDocument? dialect)) [] foreignKeys) }
  | _ => none

/-- Reads a schema. -/
def Schema.ofDocument? (dialect : Dialect) (d : Document) : Option Schema := do
  match ← d.fields? dialect [["tables"]] with
  | [tables] => some ⟨← required (Document.listOf? (Table.ofDocument? dialect)) tables⟩
  | _ => none

/-- The schema written in JSON text. -/
def Schema.ofJson (text : String) : Except Error Schema :=
  match (Json.read? text).bind (Schema.ofDocument? Json.dialect) with
  | some schema => .ok schema
  | none => .error .malformedJson

/-- The schema written in TOML text. -/
def Schema.ofToml (text : String) : Except Error Schema :=
  match (Toml.read? text).bind (Schema.ofDocument? Toml.dialect) with
  | some schema => .ok schema
  | none => .error .malformedToml

/-! ### Writing -/

/-- A list of texts. -/
def Json.Value.texts (items : List String) : Json.Value := .array (items.map .text)

/-- Writes a column. -/
def Column.toJson (column : Column) : Json.Value :=
  .object
    [("name", .text column.name), ("type", .text column.typeName),
      ("nullable", .bool column.nullable), ("primary_key", .bool column.primaryKey)]

/-- Writes a foreign key. -/
def ForeignKey.toJson (key : ForeignKey) : Json.Value :=
  .object
    [("name", .text key.name), ("columns", .texts key.columns),
      ("referenced_table", .text key.targetTable), ("referenced_columns", .texts key.targetColumns),
      ("on_delete", .text key.onDelete.text)]

/-- Writes a table. -/
def Table.toJson (table : Table) : Json.Value :=
  .object
    [("name", .text table.name), ("columns", .array (table.columns.map Column.toJson)),
      ("foreign_keys",
        .object (table.foreignKeys.entries.map fun (name, key) => (name, key.toJson)))]

/-- Writes a schema. -/
def Schema.toJson (schema : Schema) : Json.Value :=
  .object [("tables", .array (schema.tables.map Table.toJson))]

end LinkQuery

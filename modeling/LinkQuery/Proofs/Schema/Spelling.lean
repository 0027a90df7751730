import LinkQuery.Proofs.Document.Spelling
import LinkQuery.Proofs.Page.CursorToken
import LinkQuery.Schema.Document

/-!
# Spellings of a schema

A schema is read back from what it is written as, and from every other spelling of that: with its
members in another order, with fields under their second names, with members that belong to no
field, and without fields that have their default values.

* `Schema.shape` says which fields a schema has at each of its levels, by what names, and with what
  defaults.
* `Schema.ofDocument?_toJson` is about the document that a schema is written as, `Schema.isStable`
  about one step to another spelling.
* `Schema.spellings_round_trip` puts the two together, for texts.
-/

namespace LinkQuery

open Json (Value)

/-! ### Fields and their defaults -/

/-- The fields of a column. -/
def Column.fields : List (Field × Shape) :=
  [({ names := ["name"] }, .plain),
    ({ names := ["type", "typ"] }, .plain),
    ({ names := ["nullable"], default? := some (.bool false) }, .plain),
    ({ names := ["primary_key"], default? := some (.bool false) }, .plain)]

/-- The fields of a foreign key. -/
def ForeignKey.fields : List (Field × Shape) :=
  [({ names := ["name"] }, .plain),
    ({ names := ["columns"] }, .plain),
    ({ names := ["referenced_table", "referencedTable"] }, .plain),
    ({ names := ["referenced_columns", "referencedColumns"] }, .plain),
    ({ names := ["on_delete", "onDelete"], default? := some (.text (some OnDelete.noAction.text)) },
      .plain)]

/-- The fields of a table. -/
def Table.fields : List (Field × Shape) :=
  [({ names := ["name"] }, .plain),
    ({ names := ["columns"], default? := some (.list []) }, .list (.record Column.fields)),
    ({ names := ["foreign_keys", "foreignKeys"], default? := some (.table []) },
      .map (.record ForeignKey.fields))]

/-- The fields of a schema. -/
def Schema.fields : List (Field × Shape) :=
  [({ names := ["tables"] }, .list (.record Table.fields))]

/-- Where the records of a schema are. -/
def Schema.shape : Shape := .record fields

/-! ### The document that is written -/

/-- A column is read back from its document. -/
theorem Column.ofDocument?_toJson (dialect : Dialect) (column : Column) :
    ofDocument? dialect column.toJson.document = some column := rfl

/-- What is done on deletion is read back from its name. -/
theorem OnDelete.choice?_text (dialect : Dialect) (action : OnDelete) :
    Document.choice? dialect alternatives (.text (some action.text)) = some action := by
  cases action <;> rfl

/-- Texts are read back from their list. -/
theorem listOf?_texts (items : List String) :
    Document.listOf? Document.text? (Value.texts items).document = some items :=
  listOf?_documents (fun _ => rfl) items

/-- A foreign key is read back from its document. -/
theorem ForeignKey.ofDocument?_toJson (dialect : Dialect) (key : ForeignKey) :
    ofDocument? dialect key.toJson.document = some key := by
  -- the members stand in the order of the layout, so each field is found by its first name
  have hfields : key.toJson.document.fields? dialect (Field.layout fields) =
      some [some (.text (some key.name)), some (Value.texts key.columns).document,
        some (.text (some key.targetTable)), some (Value.texts key.targetColumns).document,
        some (.text (some key.onDelete.text))] := rfl
  change Document.fields? dialect (Field.layout fields) key.toJson.document >>= _ = some key
  rw [hfields]
  simp only [Option.bind_eq_bind, Option.bind_some, required, defaulted, Document.text?,
    listOf?_texts, OnDelete.choice?_text]

/-- The entries of a map are read back in order. -/
theorem mapOf?_documents {α : Type} {read : Document → Option α} {write : α → Value}
    (h : ∀ a, read (write a).document = some a) (entries : List (String × α)) :
    Document.mapOf? read (Value.object (entries.map fun entry =>
      (entry.1, write entry.2))).document =
      some entries := by
  rw [Value.document, Document.mapOf?]
  induction entries with
  | nil => rfl
  | cons entry entries ih =>
    obtain ⟨name, a⟩ := entry
    rw [List.map_cons, Value.memberDocuments, List.mapM_cons, ih]
    simp only [Option.bind_eq_bind, Option.bind_some, h]
    rfl

/-- A table is read back from its document. -/
theorem Table.ofDocument?_toJson (dialect : Dialect) (table : Table) :
    ofDocument? dialect table.toJson.document = some table := by
  have hfields : table.toJson.document.fields? dialect (Field.layout fields) =
      some [some (.text (some table.name)),
        some (Value.array (table.columns.map Column.toJson)).document,
        some (Value.object
          (table.foreignKeys.entries.map fun entry => (entry.1, entry.2.toJson))).document] := rfl
  have hcolumns := listOf?_documents (Column.ofDocument?_toJson dialect) table.columns
  have hkeys := mapOf?_documents (ForeignKey.ofDocument?_toJson dialect) table.foreignKeys.entries
  change Document.fields? dialect (Field.layout fields) table.toJson.document >>= _ = some table
  rw [hfields]
  simp only [Option.bind_eq_bind, Option.bind_some, required, defaulted, Document.text?, hcolumns,
    hkeys, NameMap.ofList_entries]

/-- A schema is read from what it is written as. -/
theorem Schema.ofDocument?_toJson (dialect : Dialect) (schema : Schema) :
    ofDocument? dialect schema.toJson.document = some schema := by
  have hfields : schema.toJson.document.fields? dialect (Field.layout fields) =
      some [some (Value.array (schema.tables.map Table.toJson)).document] := rfl
  have htables := listOf?_documents (Table.ofDocument?_toJson dialect) schema.tables
  change Document.fields? dialect (Field.layout fields) schema.toJson.document >>= _ = some schema
  rw [hfields]
  simp only [Option.bind_eq_bind, Option.bind_some, required, htables]

/-! ### Other spellings -/

/-- However a column is spelled, it is read the same. -/
theorem Column.isStable (dialect : Dialect) : IsStable (.record fields) (ofDocument? dialect) := by
  refine IsStable.record (by decide) ?_
  intro parts parts' hsteps column hread
  -- the fields of the two spellings are compared one after the other, as they are read
  obtain _ | ⟨hname, _ | ⟨htype, _ | ⟨hnullable, _ | ⟨hprimaryKey, ⟨⟩⟩⟩⟩⟩ := hsteps
  obtain ⟨name, hn, hread⟩ := Option.bind_eq_some_iff.1 hread
  obtain ⟨typeName, ht, hread⟩ := Option.bind_eq_some_iff.1 hread
  obtain ⟨nullable, hnull, hread⟩ := Option.bind_eq_some_iff.1 hread
  obtain ⟨primaryKey, hprimary, hread⟩ := Option.bind_eq_some_iff.1 hread
  have hdefault : ∀ d, some (.bool false) = some d → Document.bool? d = some false := by
    rintro d ⟨⟩
    rfl
  refine Option.bind_eq_some_iff.2 ⟨_, hname.required rfl (.plain _) hn, ?_⟩
  refine Option.bind_eq_some_iff.2 ⟨_, htype.required rfl (.plain _) ht, ?_⟩
  refine Option.bind_eq_some_iff.2 ⟨_, hnullable.defaulted hdefault (.plain _) hnull, ?_⟩
  exact Option.bind_eq_some_iff.2 ⟨_, hprimaryKey.defaulted hdefault (.plain _) hprimary, hread⟩

/-- However a foreign key is spelled, it is read the same. -/
theorem ForeignKey.isStable (dialect : Dialect) :
    IsStable (.record fields) (ofDocument? dialect) := by
  refine IsStable.record (by decide) ?_
  intro parts parts' hsteps key hread
  obtain _ | ⟨hname, _ | ⟨hcolumns, _ | ⟨htable, _ | ⟨htarget, _ | ⟨honDelete, ⟨⟩⟩⟩⟩⟩⟩ := hsteps
  obtain ⟨name, hn, hread⟩ := Option.bind_eq_some_iff.1 hread
  obtain ⟨columns, hc, hread⟩ := Option.bind_eq_some_iff.1 hread
  obtain ⟨targetTable, ht, hread⟩ := Option.bind_eq_some_iff.1 hread
  obtain ⟨targetColumns, htc, hread⟩ := Option.bind_eq_some_iff.1 hread
  obtain ⟨onDelete, ho, hread⟩ := Option.bind_eq_some_iff.1 hread
  have hdefault : ∀ d, some (.text (some OnDelete.noAction.text)) = some d →
      Document.choice? dialect OnDelete.alternatives d = some .noAction := by
    rintro d ⟨⟩
    exact OnDelete.choice?_text dialect .noAction
  refine Option.bind_eq_some_iff.2 ⟨_, hname.required rfl (.plain _) hn, ?_⟩
  refine Option.bind_eq_some_iff.2 ⟨_, hcolumns.required rfl (.plain _) hc, ?_⟩
  refine Option.bind_eq_some_iff.2 ⟨_, htable.required rfl (.plain _) ht, ?_⟩
  refine Option.bind_eq_some_iff.2 ⟨_, htarget.required rfl (.plain _) htc, ?_⟩
  exact Option.bind_eq_some_iff.2 ⟨_, honDelete.defaulted hdefault (.plain _) ho, hread⟩

/-- The foreign keys of a table are read as a map. -/
theorem Table.defaulted_nameMapOf? {read : Document → Option ForeignKey} {found : Option Document}
    {map : NameMap ForeignKey} :
    defaulted (Document.nameMapOf? read) .empty found = some map ↔
      ∃ entries, defaulted (Document.mapOf? read) [] found = some entries ∧
        NameMap.ofList entries = map := by
  cases found with
  | none => simp [defaulted, NameMap.ofList]
  | some d => exact Option.map_eq_some_iff

/-- However a table is spelled, it is read the same. -/
theorem Table.isStable (dialect : Dialect) : IsStable (.record fields) (ofDocument? dialect) := by
  refine IsStable.record (by decide) ?_
  intro parts parts' hsteps table hread
  obtain _ | ⟨hname, _ | ⟨hcolumns, _ | ⟨hkeys, ⟨⟩⟩⟩⟩ := hsteps
  obtain ⟨name, hn, hread⟩ := Option.bind_eq_some_iff.1 hread
  obtain ⟨columns, hc, hread⟩ := Option.bind_eq_some_iff.1 hread
  obtain ⟨entries, hk, hread⟩ := Option.bind_eq_some_iff.1 hread
  have hnoColumns : ∀ d, some (.list []) = some d →
      Document.listOf? (Column.ofDocument? dialect) d = some [] := by
    rintro d ⟨⟩
    rfl
  have hnoKeys : ∀ d, some (.table []) = some d →
      Document.nameMapOf? (ForeignKey.ofDocument? dialect) d = some .empty := by
    rintro d ⟨⟩
    rfl
  -- the names of the keys are sorted only after the keys are read
  have hmap := hkeys.defaulted hnoKeys (ForeignKey.isStable dialect).map
    (defaulted_nameMapOf?.2 ⟨entries, hk, rfl⟩)
  obtain ⟨entries', hk', hmap⟩ := defaulted_nameMapOf?.1 hmap
  refine Option.bind_eq_some_iff.2 ⟨_, hname.required rfl (.plain _) hn, ?_⟩
  refine Option.bind_eq_some_iff.2 ⟨_, hcolumns.defaulted hnoColumns
    (Column.isStable dialect).list hc, ?_⟩
  refine Option.bind_eq_some_iff.2 ⟨_, hk', ?_⟩
  rw [hmap]
  exact hread

/-- One step to another spelling makes nothing of the schema that is read. -/
theorem Schema.isStable (dialect : Dialect) : IsStable shape (ofDocument? dialect) := by
  refine IsStable.record (by decide) ?_
  intro parts parts' hsteps schema hread
  obtain _ | ⟨htables, ⟨⟩⟩ := hsteps
  -- the one field has no default, so it is in both spellings
  obtain ⟨tables, ht, hread⟩ := Option.bind_eq_some_iff.1 hread
  exact Option.bind_eq_some_iff.2 ⟨_, htables.required rfl (Table.isStable dialect).list ht, hread⟩

/-! ### Texts -/

/-- The spellings of a schema: what it is written as, and what any number of steps makes of that. -/
def Schema.Spells (schema : Schema) (d : Document) : Prop :=
  Relation.ReflTransGen (Respelling shape) schema.toJson.document d

/-- Every spelling of a schema is read as the schema. -/
theorem Schema.ofDocument?_of_spells {schema : Schema} {d : Document} (h : schema.Spells d)
    (dialect : Dialect) : ofDocument? dialect d = some schema :=
  (isStable dialect).run h (ofDocument?_toJson dialect schema)

/-- **A schema is read from each of its spellings.** -/
theorem Schema.ofJson_of_spells {schema : Schema} {d : Document} (h : schema.Spells d)
    {text : String} (htext : Json.read? text = some d) : ofJson text = .ok schema := by
  rw [ofJson, htext, Option.bind_some, ofDocument?_of_spells h]

/-- **Schemas survive serialization.** A schema is read back from the text that it is written as,
and from any text of a document that spells it in another way. No two schemas have a spelling in
common. -/
theorem Schema.spellings_round_trip :
    (∀ schema : Schema, ofJson schema.toJson.compact = .ok schema) ∧
      ∀ (schema : Schema) (d : Document), schema.Spells d →
        (∀ text, Json.read? text = some d → ofJson text = .ok schema) ∧
          (∀ value : Value, value.document = d → ofJson value.compact = .ok schema) ∧
            ∀ schema' : Schema, schema'.Spells d → schema' = schema := by
  refine ⟨fun schema => ofJson_of_spells .refl (Value.read?_compact _), fun schema d hspells =>
    ⟨?_, ?_, ?_⟩⟩
  · intro text htext
    exact ofJson_of_spells hspells htext
  · rintro value rfl
    exact ofJson_of_spells hspells (Value.read?_compact value)
  · intro schema' hspells'
    have hread := ofDocument?_of_spells hspells Json.dialect
    have hread' := ofDocument?_of_spells hspells' Json.dialect
    exact Option.some.inj (hread'.symm.trans hread)

/-- Second names, another order, a member of no field and two defaults left out. The name of the
constraint is not the name of its key. -/
theorem Schema.spellings_round_trip_rearranged :
    let key : ForeignKey := ⟨"teams_owner_fkey", ["owner"], "users", ["id"], .noAction⟩
    let schema : Schema := ⟨[⟨"teams", [], NameMap.empty.insert "owned by" key⟩]⟩
    let value : Value :=
      .object
        [("version", .int 2),
          ("tables", .array
            [.object
              [("foreignKeys", .object
                [("owned by", .object
                  [("columns", .texts ["owner"]), ("referencedTable", .text "users"),
                    ("referenced_columns", .texts ["id"]), ("name", .text "teams_owner_fkey")])]),
                ("name", .text "teams")]])]
    schema.Spells value.document ∧ ofJson value.compact = .ok schema := by
  intro key schema value
  have inTable : ∀ {d d' : Document}, Respelling (.record Table.fields) d d' →
      Respelling shape (.table [(some "tables", .list [d])])
        (.table [(some "tables", .list [d'])]) :=
    fun hstep => .member [] [] (.head _) (.head _) (.item [] [] hstep)
  have inKey : ∀ {d d' : Document}, Respelling (.record ForeignKey.fields) d d' →
      Respelling (.record Table.fields)
        (.table [(some "name", .text (some "teams")), (some "columns", .list []),
          (some "foreign_keys", .table [(some "owned by", d)])])
        (.table [(some "name", .text (some "teams")), (some "columns", .list []),
          (some "foreign_keys", .table [(some "owned by", d')])]) :=
    fun hstep => .member [_, _] [] (List.mem_of_getElem? (i := 2) rfl) (.head _)
      (.value [] [] hstep)
  have hspells : schema.Spells value.document :=
    Relation.ReflTransGen.refl
      |>.tail (inTable (inKey (.leaveOut [_, _, _, _] [] (List.mem_of_getElem? (i := 4) rfl)
        (.head _) rfl)))
      |>.tail (inTable (inKey (.rename [_, _] [_] (List.mem_of_getElem? (i := 2) rfl) (.head _)
        (.tail _ (.head _)))))
      |>.tail (inTable (inKey (.reorder (List.perm_append_singleton _ [_, _, _]).symm)))
      |>.tail (inTable (.leaveOut [_] [_] (List.mem_of_getElem? (i := 1) rfl) (.head _) rfl))
      |>.tail (inTable (.rename [_] [] (List.mem_of_getElem? (i := 2) rfl) (.head _)
        (.tail _ (.head _))))
      |>.tail (inTable (.reorder (.swap _ _ _)))
      |>.tail (.extend [] [_] (.integer 2) (by decide))
  exact ⟨hspells, (spellings_round_trip.2 schema value.document hspells).2.1 value rfl⟩

end LinkQuery

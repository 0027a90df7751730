import LinkQuery.Query

/-!
# The tables of a schema as starting points

Whoever explores a schema starts from the names of its tables, in order, and from the query for all
rows of one of them (`Query.ofTable`).
-/

namespace LinkQuery

/-- The names of the tables, in order, each once. -/
def Schema.tableNames (schema : Schema) : List String :=
  (NameMap.ofList (schema.tables.map fun table => (table.name, ()))).names

end LinkQuery

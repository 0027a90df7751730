import LinkQuery.Document.Decode

/-!
# Records in JSON

In JSON `null` stands beside the name of an alternative that is written as a table, and a record
written as a list has no items beyond its fields.
-/

namespace LinkQuery.Json

/-- How records are written in JSON. -/
def dialect : Dialect where
  isVoid
    | .null => true
    | _ => false
  allowsSurplus := false

end LinkQuery.Json

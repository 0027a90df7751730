/-!
# Quoted identifiers

Every name of a schema is written between double quotes, and a double quote inside it is written
twice. So no name can be taken for anything else than a name, whatever it contains.
-/

namespace LinkQuery.Sql

/-- A character of a name between double quotes. -/
def quotedChar (c : Char) : List Char := if c = '"' then ['"', '"'] else [c]

/-- The characters of a quoted name. -/
def quotedChars (name : List Char) : List Char := '"' :: name.flatMap quotedChar ++ ['"']

/-- A quoted name. -/
def quote (name : String) : String := String.ofList (quotedChars name.toList)

/-- A column of a relation: both names quoted, with a dot between them. -/
def quoteColumn (relation column : String) : String := quote relation ++ "." ++ quote column

end LinkQuery.Sql

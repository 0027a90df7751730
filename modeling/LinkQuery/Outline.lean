import LinkQuery.Filter.Restriction
import LinkQuery.Selection

/-!
# Outlines of results

A selection says what to fetch of a row, a restriction what is demanded of it. Laid over each other
they give the *outline* of a result: at each table the columns to fetch, the condition to meet, and
the links to include. A link is included if it is selected or if something is demanded behind it.

* `Outline.ofRestriction` is the outline of a restriction alone.
* `Outline.overlay` is the outline of a selection and a restriction. Selected links come first, in
  the order of the selection, and the links that are only restricted follow.

A link behind which nothing is demanded is included only if it is selected, so trivial parts of a
restriction leave no trace.
-/

namespace LinkQuery

/-- What to fetch of a table and what to demand of its rows. -/
structure Outline where
  /-- The columns to fetch, `*` standing for all. -/
  columns : List String
  condition : Option Sql.Condition
  /-- The links to include, each with whether the row behind it has to exist and meet a condition.
  -/
  links : List (String × Bool × Outline)
  /-- The links whose rows have to exist, in the order of the restriction. -/
  demanded : List String
  deriving Repr, Inhabited

namespace Outline

/-- The names of the links included. -/
def linkNames (outline : Outline) : List String := outline.links.map (·.1)

mutual

/-- The outline of a restriction. -/
def ofRestriction : Restriction → Outline
  | ⟨own, links⟩ =>
    { columns := []
      condition := own
      links := ofLinks links
      demanded := (Restriction.effectiveLinks ⟨own, links⟩).map (·.1) }

/-- The links behind which something is demanded. -/
def ofLinks : List (String × Restriction) → List (String × Bool × Outline)
  | [] => []
  | (name, r) :: rest =>
    if r.isTrivial then ofLinks rest else (name, true, ofRestriction r) :: ofLinks rest

end

mutual

/-- The outline of a selection and a restriction. -/
def overlay : Selection → Restriction → Outline
  | ⟨columns, links⟩, restriction =>
    { columns := columns
      condition := restriction.own
      links :=
        overlayLinks links restriction ++
          (ofLinks restriction.links).filter fun (name, _) => !(links.map (·.1)).contains name
      demanded := restriction.effectiveLinks.map (·.1) }

/-- The selected links, with what is demanded behind them. -/
def overlayLinks : List (String × Selection) → Restriction → List (String × Bool × Outline)
  | [], _ => []
  | (name, selection) :: rest, restriction =>
    let demand := (restriction.link? name).filter fun r => !r.isTrivial
    (name, demand.isSome, overlay selection (demand.getD .trivial)) :: overlayLinks rest restriction

end

end Outline

end LinkQuery

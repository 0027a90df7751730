import LinkQuery.Proofs.Emit

/-!
# Names of links

A link is found by the name of its column or by the name of its constraint, and it goes on under the
name of its column. Under that name the first foreign key over the column is found, which is the
link itself unless its column has a further foreign key.

* `Table.isShadowed` holds of a link whose column leads along another foreign key, and
  `Table.isBlocked` of a column that for this reason leads nowhere.
* `Table.link?_name_iff`: a link is found again under its own name unless it is shadowed.
* `Schema.linksAlong?` are the links that names lead along, from table to table.
  `Schema.linksAlong?_names_iff`: they are found again under their own names unless one is shadowed.
-/

namespace LinkQuery

theorem ForeignKey.columns_of_link? {key : ForeignKey} {link : Link} (h : key.link? = some link) :
    key.columns = [link.name] := by
  unfold link? at h
  split at h
  next hcolumns _ =>
    obtain rfl := Option.some.inj h
    exact hcolumns
  next => simp at h

namespace Table

variable {table : Table} {name : String} {link : Link}

/-! ### The links of a table -/

/-- The foreign key that a column leads along: the first one over just this column. -/
def leadingKey? (table : Table) (column : String) : Option ForeignKey :=
  table.foreignKeys.values.find? (·.columns = [column])

/-- Whether the column of a link leads along another foreign key. -/
def isShadowed (table : Table) (link : Link) : Bool :=
  (table.leadingKey? link.name).any (·.link? ≠ some link)

/-- Whether a column leads along a foreign key that is no link, as it refers to several columns. -/
def isBlocked (table : Table) (column : String) : Bool :=
  (table.leadingKey? column).any (·.link?.isNone)

theorem link?_eq_of_leadingKey? {key : ForeignKey} (h : table.leadingKey? name = some key) :
    table.link? name = key.link? := by
  rw [leadingKey?] at h
  rw [Table.link?, h]

/-- The column of a link leads along some foreign key. -/
theorem exists_leadingKey? {key : ForeignKey} (hkey : key ∈ table.foreignKeys.values)
    (h : key.link? = some link) : ∃ leading, table.leadingKey? link.name = some leading := by
  refine Option.isSome_iff_exists.1 (List.find?_isSome.2 ⟨key, hkey, ?_⟩)
  simpa using ForeignKey.columns_of_link? h

/-- **A link is found again under its own name** unless it is shadowed. -/
theorem link?_name_iff (h : table.link? name = some link) :
    table.link? link.name = some link ↔ ¬ table.isShadowed link := by
  obtain ⟨key, hkey, hlink⟩ := exists_key_of_link? h
  obtain ⟨leading, hleading⟩ := exists_leadingKey? hkey hlink
  rw [link?_eq_of_leadingKey? hleading, isShadowed, hleading]
  simp

/-- A link whose column has no other foreign key is not shadowed. -/
theorem not_isShadowed_of_unique (h : table.link? name = some link)
    (hunique : ∀ a ∈ table.foreignKeys.values, ∀ b ∈ table.foreignKeys.values,
      a.columns = [link.name] → b.columns = [link.name] → a = b) : ¬ table.isShadowed link := by
  obtain ⟨key, hkey, hlink⟩ := exists_key_of_link? h
  obtain ⟨leading, hleading⟩ := exists_leadingKey? hkey hlink
  have hcolumns : leading.columns = [link.name] := by simpa using List.find?_some hleading
  obtain rfl := hunique leading (List.mem_of_find?_eq_some hleading) key hkey hcolumns
    (ForeignKey.columns_of_link? hlink)
  rw [isShadowed, hleading, Option.any_some, hlink]
  simp

theorem mem_linkNames_iff :
    name ∈ table.linkNames ↔
      ∃ key ∈ table.foreignKeys.values, ∃ link, key.link? = some link ∧ link.name = name := by
  simp [linkNames]

/-- The name of a link stands for a link of this name unless its column is blocked. -/
theorem exists_link?_iff (h : name ∈ table.linkNames) :
    (∃ link, table.link? name = some link ∧ link.name = name) ↔ ¬ table.isBlocked name := by
  obtain ⟨key, hkey, named, hnamed, rfl⟩ := mem_linkNames_iff.1 h
  obtain ⟨leading, hleading⟩ := exists_leadingKey? hkey hnamed
  rw [link?_eq_of_leadingKey? hleading, isBlocked, hleading, Option.any_some]
  cases hlink : leading.link? with
  | none => simp
  | some link =>
    -- the two keys are over the same column
    have hcolumns : leading.columns = [named.name] := by simpa using List.find?_some hleading
    have hname : link.name = named.name :=
      List.singleton_inj.1 ((ForeignKey.columns_of_link? hlink).symm.trans hcolumns)
    simp [hname]

end Table

/-! ### Links from table to table -/

namespace Schema

variable {schema : Schema}

/-- The links that names lead along, each with the table that it starts from. There are none if a
name stands for no link, or a link leads out of the schema. -/
def linksAlong? (schema : Schema) : List String → Table → Option (List (Table × Link))
  | [], _ => some []
  | name :: names, table => do
    let link ← table.link? name
    let target ← schema.table? link.targetTable
    let rest ← schema.linksAlong? names target
    some ((table, link) :: rest)

theorem linksAlong?_cons_iff {name : String} {names : List String} {table : Table}
    {steps : List (Table × Link)} :
    schema.linksAlong? (name :: names) table = some steps ↔
      ∃ link target rest, table.link? name = some link ∧
        schema.table? link.targetTable = some target ∧
        schema.linksAlong? names target = some rest ∧ (table, link) :: rest = steps := by
  simp [linksAlong?, Option.bind_eq_some_iff]

/-- **Links are found again under their own names** unless one of them is shadowed. -/
theorem linksAlong?_names_iff {names : List String} {table : Table} {steps : List (Table × Link)}
    (h : schema.linksAlong? names table = some steps) :
    schema.linksAlong? (steps.map (·.2.name)) table = some steps ↔
      ∀ step ∈ steps, ¬ step.1.isShadowed step.2 := by
  induction names generalizing table steps with
  | nil =>
    obtain rfl := Option.some.inj h
    simp [linksAlong?]
  | cons name names ih =>
    obtain ⟨link, target, rest, hlink, htarget, hrest, rfl⟩ := linksAlong?_cons_iff.1 h
    -- the first step is taken again under its own name unless another link shadows it
    rw [List.map_cons, linksAlong?_cons_iff, List.forall_mem_cons, ← Table.link?_name_iff hlink,
      ← ih hrest]
    constructor
    · rintro ⟨link', target', rest', hlink', htarget', hrest', heq⟩
      obtain ⟨hstep, rfl⟩ := List.cons.inj heq
      obtain rfl : link' = link := (Prod.mk.inj hstep).2
      obtain rfl := Option.some.inj (htarget.symm.trans htarget')
      exact ⟨hlink', hrest'⟩
    · rintro ⟨hlink', hrest'⟩
      exact ⟨link, target, rest, hlink', htarget, hrest', rfl⟩

/-- From one table, the links alone tell the tables between them. -/
theorem eq_of_linksAlong? {names names' : List String} {table : Table}
    {steps steps' : List (Table × Link)} (h : schema.linksAlong? names table = some steps)
    (h' : schema.linksAlong? names' table = some steps')
    (hlinks : steps.map (·.2) = steps'.map (·.2)) : steps = steps' := by
  induction names generalizing names' table steps steps' with
  | nil =>
    obtain rfl := Option.some.inj h
    exact (List.map_eq_nil_iff.1 hlinks.symm).symm
  | cons name names ih =>
    obtain ⟨link, target, rest, -, htarget, hrest, rfl⟩ := linksAlong?_cons_iff.1 h
    -- the same links were taken, so the other path has a first step as well
    cases names' with
    | nil =>
      obtain rfl := Option.some.inj h'
      simp at hlinks
    | cons name' names' =>
      obtain ⟨link', target', rest', -, htarget', hrest', rfl⟩ := linksAlong?_cons_iff.1 h'
      obtain ⟨hfirst, htail⟩ := List.cons.inj hlinks
      obtain rfl : link = link' := hfirst
      obtain rfl := Option.some.inj (htarget.symm.trans htarget')
      rw [ih hrest hrest' htail]

/-- The first names lead along the first links. -/
theorem linksAlong?_take {names : List String} {table : Table} {steps : List (Table × Link)}
    (h : schema.linksAlong? names table = some steps) (n : Nat) :
    schema.linksAlong? (names.take n) table = some (steps.take n) := by
  induction names generalizing table steps n with
  | nil =>
    obtain rfl := Option.some.inj h
    simp [linksAlong?]
  | cons name names ih =>
    -- fewer names take the first of the same steps
    cases n with
    | zero => simp [linksAlong?]
    | succ n =>
      obtain ⟨link, target, rest, hlink, htarget, hrest, rfl⟩ := linksAlong?_cons_iff.1 h
      exact linksAlong?_cons_iff.2 ⟨link, target, rest.take n, hlink, htarget, ih hrest n, rfl⟩

end Schema

end LinkQuery

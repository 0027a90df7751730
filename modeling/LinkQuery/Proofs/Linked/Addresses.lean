import LinkQuery.Proofs.Linked.Included
import Mathlib.Data.List.Induction

/-!
# Selections group paths by their addresses

A selection is built up path by path, and every path changes the tree on its way. What comes of a
list of paths can be said without going through the list: the address of a path are the canonical
names of the links that it leads along, and the tree groups the paths by the beginnings of their
addresses.

* `ColumnPath.address?` is the address of a path. A path that leads out of the schema has none
  (`ColumnPath.address?_eq_none_iff`).
* `Selection.at?` is the part of a selection at an address. `Selection.at?_insert` is the step: what
  inserting a column does to the part at any address.
* `Selection.Groups` says that a selection groups paths. `Selection.Groups.addPath` keeps it from
  one path to the next.
* `Selection.ofPaths_groups` is what comes of it for a whole list of paths.
-/

namespace LinkQuery

/-! ### Lists without repetition -/

/-- A new member comes last, and one that is there already changes nothing. -/
theorem eraseDups_concat {α : Type} [BEq α] [LawfulBEq α] (as : List α) (a : α) :
    (as ++ [a]).eraseDups =
      if as.eraseDups.contains a then as.eraseDups else as.eraseDups ++ [a] := by
  have hcontains : as.eraseDups.contains a ↔ a ∈ as := by
    rw [List.contains_iff_mem, List.mem_eraseDups]
  rw [List.eraseDups_append, List.removeAll]
  by_cases hmem : a ∈ as
  · rw [if_pos (hcontains.2 hmem), List.filter_cons_of_neg (by simpa using hmem)]
    exact List.append_nil _
  · rw [if_neg (mt hcontains.1 hmem), List.filter_cons_of_pos (by simpa using hmem)]
    rfl

/-- Looking up a name among links, one after the other. -/
theorem lookup_cons_eq_ite {α : Type} (name n : String) (a : α) (links : List (String × α)) :
    List.lookup n ((name, a) :: links) = if n = name then some a else links.lookup n := by
  rw [List.lookup_cons]
  by_cases hn : n = name
  · rw [hn, beq_self_eq_true, if_pos rfl]
  · rw [beq_eq_false_iff_ne.2 hn, if_neg hn]

/-! ### Addresses of paths -/

/-- Names lead out of the schema: one of them stands for a link to a table that is missing. -/
inductive Schema.LeadsOut (schema : Schema) : List String → Table → Prop where
  | here {table : Table} {name : String} {names : List String} {link : Link}
      (hlink : table.link? name = some link) (hmissing : schema.table? link.targetTable = none) :
      LeadsOut schema (name :: names) table
  | behind {table target : Table} {name : String} {names : List String} {link : Link}
      (hlink : table.link? name = some link)
      (htarget : schema.table? link.targetTable = some target)
      (h : LeadsOut schema names target) : LeadsOut schema (name :: names) table

namespace ColumnPath

variable {schema : Schema} {table : Table} {path : ColumnPath}

/-- The address of a path on a table: the canonical names of the links that it leads along. It has
none if it leads out of the schema. -/
def address? (schema : Schema) (table : Table) (path : ColumnPath) : Option (List String) :=
  (schema.linksAlong? path.links table).map (·.map (·.2.name))

theorem linksAlong?_eq_none_iff_of_follow {base : String} {names : List String}
    {reached : Option (List String × Table)}
    (h : path.follow schema base names table = .ok reached) :
    schema.linksAlong? names table = none ↔ schema.LeadsOut names table := by
  induction names generalizing table reached with
  | nil =>
    constructor
    · intro hnone
      cases hnone
    · rintro ⟨⟩
  | cons name names ih =>
    rw [follow] at h
    split at h
    next =>
      -- a name that stands for no link is refused
      cases h
    next link hlink =>
      split at h
      next hmissing =>
        constructor
        · intro _
          exact .here hlink hmissing
        · intro _
          rw [Schema.linksAlong?, hlink]
          simp [hmissing]
      next target htarget =>
        obtain ⟨behind, hbehind, -⟩ := map_eq_ok_iff.1 h
        have hstep : schema.linksAlong? (name :: names) table = none ↔
            schema.linksAlong? names target = none := by
          rw [Schema.linksAlong?, hlink]
          cases hrest : schema.linksAlong? names target <;> simp [htarget, hrest]
        rw [hstep, ih hbehind]
        constructor
        · intro hout
          exact .behind hlink htarget hout
        · intro hout
          cases hout with
          | here hlink' hmissing =>
            obtain rfl := Option.some.inj (hlink.symm.trans hlink')
            rw [htarget] at hmissing
            cases hmissing
          | behind hlink' htarget' hout =>
            obtain rfl := Option.some.inj (hlink.symm.trans hlink')
            obtain rfl := Option.some.inj (htarget.symm.trans htarget')
            exact hout

/-- Of the paths that are accepted, those without an address lead out of the schema. -/
theorem address?_eq_none_iff {hops : Option (List String)}
    (h : path.resolve schema table = .ok hops) :
    path.address? schema table = none ↔ schema.LeadsOut path.links table := by
  obtain ⟨reached, hreached, -⟩ := bind_eq_ok_iff.1 h
  rw [address?, Option.map_eq_none_iff]
  exact linksAlong?_eq_none_iff_of_follow hreached

/-- The name that follows an address in a longer one. -/
def nextHop? (address whole : List String) : Option String :=
  if address <+: whole then (whole.drop address.length).head? else none

/-- What the paths with just this address select, in order. -/
def selectedAt (schema : Schema) (table : Table) (address : List String)
    (paths : List ColumnPath) : List String :=
  (paths.filter fun path => path.address? schema table = some address).map (·.selected)

/-- The links that the paths through an address take next, in order. -/
def hopsFrom (schema : Schema) (table : Table) (address : List String)
    (paths : List ColumnPath) : List String :=
  paths.filterMap fun path => (path.address? schema table).bind (nextHop? address)

theorem selectedAt_concat (address : List String) (paths : List ColumnPath) :
    selectedAt schema table address (paths ++ [path]) =
      selectedAt schema table address paths ++
        if path.address? schema table = some address then [path.selected] else [] := by
  unfold selectedAt
  rw [List.filter_append, List.map_append, List.filter_singleton]
  split <;> simp_all

theorem hopsFrom_concat (address : List String) (paths : List ColumnPath) :
    hopsFrom schema table address (paths ++ [path]) =
      hopsFrom schema table address paths ++
        ((path.address? schema table).bind (nextHop? address)).toList := by
  unfold hopsFrom
  rw [List.filterMap_append, List.filterMap_cons, List.filterMap_nil]
  cases (path.address? schema table).bind (nextHop? address) <;> rfl

end ColumnPath

/-! ### Parts of selections -/

namespace Selection

/-- The part of a selection behind links of the given names, one behind the other. -/
def at? : List String → Selection → Option Selection
  | [], selection => some selection
  | name :: names, selection => (selection.link? name).bind (at? names)

@[simp] theorem at?_nil (selection : Selection) : selection.at? [] = some selection := rfl

theorem getD_at?_empty (address : List String) : (empty.at? address).getD empty = empty := by
  cases address <;> rfl

theorem lookup_changeLink (change : Selection → Selection) (name n : String)
    (links : List (String × Selection)) :
    (changeLink change name links).lookup n =
      if n = name then some (change ((links.lookup name).getD empty)) else links.lookup n := by
  induction links with
  | nil => exact lookup_cons_eq_ite name n _ []
  | cons link rest ih =>
    obtain ⟨m, sub⟩ := link
    rw [changeLink]
    by_cases hm : m = name
    · -- the link is there, and it is the first one of the name
      subst hm
      rw [if_pos rfl, lookup_cons_eq_ite, lookup_cons_eq_ite, lookup_cons_eq_ite, if_pos rfl]
      split <;> rfl
    · have hname : ¬ name = m := fun h => hm h.symm
      rw [if_neg hm, lookup_cons_eq_ite, lookup_cons_eq_ite, lookup_cons_eq_ite, if_neg hname, ih]
      by_cases hn : n = m
      · -- another link keeps what is behind it
        rw [if_pos hn, if_neg fun h => hm (hn.symm.trans h), if_pos hn]
      · rw [if_neg hn, if_neg hn]

/-- **Inserting a column** changes the parts on the way to it, each by what is left of the way, and
leaves all others as they are. -/
theorem at?_insert (column : String) (hops address : List String) (selection : Selection) :
    (insert column hops selection).at? address =
      if address <+: hops then
        some (insert column (hops.drop address.length) ((selection.at? address).getD empty))
      else selection.at? address := by
  induction address generalizing hops selection with
  | nil => simp
  | cons name names ih =>
    cases hops with
    | nil => simp [at?, link?]
    | cons hop hops =>
      show ((changeLink (insert column hops) hop selection.links).lookup name).bind (at? names) = _
      rw [lookup_changeLink]
      by_cases hname : name = hop
      · subst hname
        rw [if_pos rfl, Option.bind_some, ih]
        by_cases hnames : names <+: hops
        · -- the part behind the link, or nothing if the link is new
          have hpart : (((selection.links.lookup name).getD empty).at? names).getD empty =
              (selection.at? (name :: names)).getD empty := by
            show _ = ((selection.links.lookup name).bind (at? names)).getD empty
            cases selection.links.lookup name with
            | none => exact getD_at?_empty names
            | some sub => rfl
          rw [if_pos hnames, if_pos (List.cons_prefix_cons.2 ⟨rfl, hnames⟩), hpart]
          rfl
        · rw [if_neg hnames, if_neg fun h => hnames (List.cons_prefix_cons.1 h).2]
          show _ = (selection.links.lookup name).bind (at? names)
          cases selection.links.lookup name with
          | none =>
            -- behind a new link there is nothing off the way
            cases names with
            | nil => exact absurd List.nil_prefix hnames
            | cons => rfl
          | some sub => rfl
      · rw [if_neg hname, if_neg fun h => hname (List.cons_prefix_cons.1 h).1]
        rfl

/-! ### One path after the other -/

variable {schema : Schema} {table : Table} {paths : List ColumnPath} {path : ColumnPath}
  {selection next : Selection}

/-- The selection groups the paths by their addresses: there is a part at every beginning of an
address, with what the paths select there and the links that they take from there, each once and in
the order in which they first appear. -/
structure Groups (schema : Schema) (table : Table) (paths : List ColumnPath)
    (selection : Selection) : Prop where
  isSome_at?_iff : ∀ address, (selection.at? address).isSome ↔
    address = [] ∨ ∃ path ∈ paths, ∃ whole ∈ path.address? schema table, address <+: whole
  columns_eq : ∀ address, ((selection.at? address).getD empty).columns =
    (ColumnPath.selectedAt schema table address paths).eraseDups
  links_eq : ∀ address, ((selection.at? address).getD empty).links.map (·.1) =
    (ColumnPath.hopsFrom schema table address paths).eraseDups

theorem groups_empty : Groups schema table [] empty where
  isSome_at?_iff address := by
    cases address <;> simp [at?, link?, empty]
  columns_eq address := by
    rw [getD_at?_empty]
    rfl
  links_eq address := by
    rw [getD_at?_empty]
    rfl

theorem columns_insert (column : String) (hops : List String) (selection : Selection) :
    (insert column hops selection).columns =
      if hops = [] then
        if selection.columns.contains column then selection.columns
        else selection.columns ++ [column]
      else selection.columns := by
  cases hops with
  | nil =>
    rw [if_pos rfl, insert_nil, addColumn]
    split <;> rfl
  | cons hop hops => rw [if_neg (by simp), insert]

theorem map_fst_links_insert (column : String) (hops : List String) (selection : Selection) :
    (insert column hops selection).links.map (·.1) =
      match hops.head? with
      | none => selection.links.map (·.1)
      | some hop =>
        if (selection.links.map (·.1)).contains hop then selection.links.map (·.1)
        else selection.links.map (·.1) ++ [hop] := by
  cases hops with
  | nil =>
    rw [insert_nil, links_addColumn]
    rfl
  | cons hop hops =>
    show (changeLink (insert column hops) hop selection.links).map (·.1) = _
    rw [map_fst_changeLink]
    simp only [List.head?_cons, List.contains_iff_mem]

/-- A path without an address leaves no trace. -/
theorem Groups.skip (h : Groups schema table paths selection)
    (haddress : path.address? schema table = none) :
    Groups schema table (paths ++ [path]) selection := by
  refine ⟨fun address => ?_, fun address => ?_, fun address => ?_⟩
  · rw [h.isSome_at?_iff]
    simp [or_and_right, exists_or, haddress]
  · rw [h.columns_eq, ColumnPath.selectedAt_concat, haddress, if_neg (by simp), List.append_nil]
  · rw [h.links_eq, ColumnPath.hopsFrom_concat, haddress]
    exact congrArg List.eraseDups (List.append_nil _).symm

/-- A path with an address adds its column there, and on the way the links that are not there yet.
-/
theorem Groups.insert {hops : List String} (h : Groups schema table paths selection)
    (haddress : path.address? schema table = some hops) :
    Groups schema table (paths ++ [path]) (Selection.insert path.selected hops selection) := by
  have hpart : ∀ address, ((Selection.insert path.selected hops selection).at? address).getD empty =
      if address <+: hops then
        Selection.insert path.selected (hops.drop address.length)
          ((selection.at? address).getD empty)
      else (selection.at? address).getD empty := by
    intro address
    rw [at?_insert]
    split <;> rfl
  refine ⟨fun address => ?_, fun address => ?_, fun address => ?_⟩
  · have hsome : ((Selection.insert path.selected hops selection).at? address).isSome ↔
        (selection.at? address).isSome ∨ address <+: hops := by
      rw [at?_insert]
      by_cases hbegins : address <+: hops <;> simp [hbegins]
    rw [hsome, h.isSome_at?_iff, or_assoc]
    refine or_congr_right ?_
    simp [or_and_right, exists_or, haddress]
  · rw [hpart, ColumnPath.selectedAt_concat, haddress]
    by_cases hbegins : address <+: hops
    · obtain ⟨rest, rfl⟩ := hbegins
      rw [if_pos (List.prefix_append address rest), List.drop_left, columns_insert, h.columns_eq]
      -- a column is added just at the end of the way
      by_cases hrest : rest = []
      · have hend : some (address ++ rest) = some address := by rw [hrest, List.append_nil]
        rw [if_pos hrest, if_pos hend, eraseDups_concat]
      · rw [if_neg hrest, if_neg (by simpa using hrest), List.append_nil]
    · have hne : ¬ some hops = some address := by
        intro heq
        obtain rfl := Option.some.inj heq
        exact hbegins List.prefix_rfl
      rw [if_neg hbegins, if_neg hne, List.append_nil, h.columns_eq]
  · rw [hpart, ColumnPath.hopsFrom_concat, haddress, Option.bind_some, ColumnPath.nextHop?]
    by_cases hbegins : address <+: hops
    · obtain ⟨rest, rfl⟩ := hbegins
      rw [if_pos (List.prefix_append address rest), if_pos (List.prefix_append address rest),
        List.drop_left, map_fst_links_insert, h.links_eq]
      -- a link is taken unless this is the end of the way
      cases rest with
      | nil => exact congrArg List.eraseDups (List.append_nil _).symm
      | cons hop rest => exact (eraseDups_concat _ hop).symm
    · rw [if_neg hbegins, if_neg hbegins, h.links_eq]
      exact congrArg List.eraseDups (List.append_nil _).symm

/-- **From one path to the next**, a selection that groups the paths goes on to group them. -/
theorem Groups.addPath (h : Groups schema table paths selection)
    (hnext : selection.addPath schema table path = .ok next) :
    Groups schema table (paths ++ [path]) next := by
  have hchanged : next = (path.address? schema table).elim selection fun hops =>
      Selection.insert path.selected hops selection := eq_of_addPath hnext
  rw [hchanged]
  cases haddress : path.address? schema table with
  | none => exact h.skip haddress
  | some hops => exact h.insert haddress

/-- **A selection groups the paths that it is made of.** -/
theorem groups_of_foldlM (h : paths.foldlM (addPath schema table) empty = .ok selection) :
    Groups schema table paths selection := by
  -- the last path is the last one that is added
  induction paths using List.reverseRecOn generalizing selection with
  | nil =>
    obtain rfl := Except.ok.inj h
    exact groups_empty
  | append_singleton paths path ih =>
    rw [List.foldlM_append] at h
    obtain ⟨before, hbefore, h⟩ := bind_eq_ok_iff.1 h
    rw [List.foldlM_cons] at h
    obtain ⟨after, hafter, h⟩ := bind_eq_ok_iff.1 h
    obtain rfl := Except.ok.inj h
    exact (ih hbefore).addPath hafter

/-- Every path of a selection is resolved. -/
theorem exists_resolve_of_foldlM {start : Selection}
    (h : paths.foldlM (addPath schema table) start = .ok selection) :
    ∀ path ∈ paths, ∃ hops, path.resolve schema table = .ok hops := by
  induction paths generalizing start with
  | nil =>
    intro path hpath
    cases hpath
  | cons first rest ih =>
    rw [List.foldlM_cons] at h
    obtain ⟨next, hnext, h⟩ := bind_eq_ok_iff.1 h
    obtain ⟨hops, hhops, -⟩ := bind_eq_ok_iff.1 hnext
    intro path hpath
    rcases List.mem_cons.1 hpath with rfl | hpath
    · exact ⟨hops, hhops⟩
    · exact ih h path hpath

/-- **A selection is the grouping of its paths by their addresses.** Of the paths that are accepted,
those without an address lead out of the schema, and they leave no trace. There is a part at an
address just if a path begins with it or it is empty. The columns of the part are what the paths of
just this address select, and its links are those that paths through the address take next, each
once and in the order in which they first appear. -/
theorem ofPaths_groups {tableName : String} (hne : paths ≠ [])
    (h : ofPaths schema tableName paths = .ok selection) :
    ∃ table, schema.table? tableName = some table ∧
      (∀ path ∈ paths, path.address? schema table = none ↔ schema.LeadsOut path.links table) ∧
      ∀ address,
        ((selection.at? address).isSome ↔
          address = [] ∨ ∃ path ∈ paths, ∃ whole ∈ path.address? schema table, address <+: whole) ∧
        ∀ part, selection.at? address = some part →
          part.columns = (ColumnPath.selectedAt schema table address paths).eraseDups ∧
          part.links.map (·.1) = (ColumnPath.hopsFrom schema table address paths).eraseDups := by
  obtain ⟨table, htable, h⟩ := bind_eq_ok_iff.1 h
  rw [if_neg (by simpa using hne)] at h
  have hgroups := groups_of_foldlM h
  refine ⟨table, Schema.requireTable_eq_ok_iff.1 htable, fun path hpath => ?_, fun address => ?_⟩
  · obtain ⟨hops, hhops⟩ := exists_resolve_of_foldlM h path hpath
    exact ColumnPath.address?_eq_none_iff hhops
  · refine ⟨hgroups.isSome_at?_iff address, fun part hpart => ?_⟩
    have hcolumns := hgroups.columns_eq address
    have hlinks := hgroups.links_eq address
    rw [hpart, Option.getD_some] at hcolumns hlinks
    exact ⟨hcolumns, hlinks⟩

/-- Teams with an owner and a sponsor, of which only the owner's table is known. -/
def sponsoredTeams : Schema :=
  ⟨[(Table.named "teams").addPrimaryKey "xata_id" "text" |>.addLink "owner" "users"
      |>.addLink "sponsor" "sponsors",
    (Table.named "users").addPrimaryKey "xata_id" "text" |>.addColumn "full_name" "text"
      |>.addLink "pet" "pets",
    (Table.named "pets").addPrimaryKey "xata_id" "text"]⟩

/-- Paths to the owner under both names of the link, one of them repeated, with a path through the
sponsor in between. -/
def ownerPaths : List ColumnPath :=
  [⟨["owner"], .column "full_name"⟩, ⟨["sponsor", "pet"], .wildcard⟩,
    ⟨["teams_owner_fkey", "pet"], .wildcard⟩, ⟨["teams_owner_fkey"], .wildcard⟩,
    ⟨["owner"], .column "full_name"⟩]

/-- What is selected of the owner is collected from both names, and of the sponsor there is nothing,
for its table is missing. -/
theorem ofPaths_groups_owner :
    ∃ selection owner, ofPaths sponsoredTeams "teams" ownerPaths = .ok selection ∧
      selection.at? ["owner"] = some owner ∧ owner.columns = ["full_name", "*"] ∧
      owner.links.map (·.1) = ["pet"] ∧ selection.at? ["sponsor"] = none ∧
      sponsoredTeams.LeadsOut ["sponsor", "pet"] sponsoredTeams.tables[0] := by
  obtain ⟨selection, hselection⟩ := fault?_eq_none_iff.1
    (show fault? (ofPaths sponsoredTeams "teams" ownerPaths) = none by decide +kernel)
  obtain ⟨table, htable, hout, hparts⟩ := ofPaths_groups (by simp [ownerPaths]) hselection
  obtain rfl : sponsoredTeams.tables[0] = table := Option.some.inj htable
  -- the path through the sponsor is accepted and has no address
  have hmissing : sponsoredTeams.LeadsOut ["sponsor", "pet"] sponsoredTeams.tables[0] :=
    (hout ⟨["sponsor", "pet"], .wildcard⟩ (by decide)).1 (by decide +kernel)
  obtain ⟨howner, hpart⟩ := hparts ["owner"]
  obtain ⟨owner, hsome⟩ := Option.isSome_iff_exists.1 (howner.2 (.inr
    ⟨⟨["owner"], .column "full_name"⟩, by decide, ["owner"], by decide +kernel, List.prefix_rfl⟩))
  obtain ⟨hcolumns, hlinks⟩ := hpart owner hsome
  have hselected : (ColumnPath.selectedAt sponsoredTeams sponsoredTeams.tables[0] ["owner"]
      ownerPaths).eraseDups = ["full_name", "*"] := by decide +kernel
  have hhops : (ColumnPath.hopsFrom sponsoredTeams sponsoredTeams.tables[0] ["owner"]
      ownerPaths).eraseDups = ["pet"] := by decide +kernel
  have hsponsor : ¬ (["sponsor"] = [] ∨ ∃ path ∈ ownerPaths,
      ∃ whole ∈ path.address? sponsoredTeams sponsoredTeams.tables[0], ["sponsor"] <+: whole) := by
    decide +kernel
  refine ⟨selection, owner, hselection, hsome, hcolumns.trans hselected, hlinks.trans hhops, ?_,
    hmissing⟩
  exact Option.not_isSome_iff_eq_none.1 (mt (hparts ["sponsor"]).1.1 hsponsor)

end Selection

end LinkQuery

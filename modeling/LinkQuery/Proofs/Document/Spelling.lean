import LinkQuery.Document.Decode
import LinkQuery.Proofs.NameMap
import Mathlib.Data.List.Nodup
import Mathlib.Data.List.Pairwise
import Mathlib.Logic.Relation

/-!
# Spellings of a document

What a record says does not hang on the order of its members, nor on which of its names a field is
written under, nor on members that belong to no field; and a field may be left out if it has the
value that it has when it is left out. All this holds at every depth of a document, so a document
has many spellings.

A `Shape` says where in a document there are records, with what fields, and where there are lists
and maps of them. `Respelling` is one step from one spelling to another, at one place of the
document. It is a relation between documents and knows nothing of the values that are read; that a
reader makes nothing of a step is a property of the reader, `IsStable`, which the readers of lists,
maps and records inherit from those of their parts.

* `Respelling.fields?` is what a step does to the fields of a record: all stay as they are, but one,
  which is respelled or left out.
* `IsStable.list`, `IsStable.map`, `IsStable.record`: readers of lists, maps and records.
* `IsStable.run`: from one step to any number of steps.
-/

namespace LinkQuery

/-- A field of a record. -/
structure Field where
  /-- The names that the field may be written under. -/
  names : List String
  /-- What stands for the value that the field has when it is left out, if it may be. -/
  default? : Option Document := none

/-- Where the records of a document are. -/
inductive Shape where
  /-- No record is inside. -/
  | plain
  | list (item : Shape)
  | map (value : Shape)
  | record (fields : List (Field × Shape))

/-- The names of the fields, as the readers of records take them. -/
def Field.layout (fields : List (Field × Shape)) : List (List String) := fields.map (·.1.names)

/-- **One step from one spelling of a document to another.** -/
inductive Respelling : Shape → Document → Document → Prop where
  /-- An item of a list is respelled. -/
  | item (before behind : List Document) {s : Shape} {d d' : Document} :
      Respelling s d d' → Respelling (.list s) (.list (before ++ d :: behind))
        (.list (before ++ d' :: behind))
  /-- A value of a map is respelled. -/
  | value (before behind : List (Option String × Document)) {s : Shape} {name : Option String}
      {d d' : Document} :
      Respelling s d d' →
        Respelling (.map s) (.table (before ++ (name, d) :: behind))
          (.table (before ++ (name, d') :: behind))
  /-- The entries of a map are written in another order. -/
  | reorderMap {s : Shape} {members members' : List (Option String × Document)} :
      (members.map (·.1)).Nodup → members.Perm members' →
        Respelling (.map s) (.table members) (.table members')
  /-- The value of a field is respelled. -/
  | member (before behind : List (Option String × Document)) {fields : List (Field × Shape)}
      {field : Field}
      {s : Shape} {name : String} {d d' : Document} :
      (field, s) ∈ fields → name ∈ field.names → Respelling s d d' →
        Respelling (.record fields) (.table (before ++ (some name, d) :: behind))
          (.table (before ++ (some name, d') :: behind))
  /-- The members of a record are written in another order. -/
  | reorder {fields : List (Field × Shape)} {members members' : List (Option String × Document)} :
      members.Perm members' → Respelling (.record fields) (.table members) (.table members')
  /-- A member is added that belongs to no field. -/
  | extend (before behind : List (Option String × Document)) {fields : List (Field × Shape)}
      {name : String}
      (d : Document) :
      (∀ field ∈ fields, name ∉ field.1.names) →
        Respelling (.record fields) (.table (before ++ behind))
          (.table (before ++ (some name, d) :: behind))
  /-- A field is written under another of its names. -/
  | rename (before behind : List (Option String × Document)) {fields : List (Field × Shape)}
      {field : Field × Shape} {name name' : String} {d : Document} :
      field ∈ fields → name ∈ field.1.names → name' ∈ field.1.names →
        Respelling (.record fields) (.table (before ++ (some name, d) :: behind))
          (.table (before ++ (some name', d) :: behind))
  /-- A field is left out that has its default value. -/
  | leaveOut (before behind : List (Option String × Document)) {fields : List (Field × Shape)}
      {field : Field × Shape} {name : String} {d : Document} :
      field ∈ fields → name ∈ field.1.names → field.1.default? = some d →
        Respelling (.record fields) (.table (before ++ (some name, d) :: behind))
          (.table (before ++ behind))

/-- A reader that makes nothing of how a document of the given shape is spelled. -/
def IsStable {α : Type} (s : Shape) (read : Document → Option α) : Prop :=
  ∀ ⦃d d' : Document⦄, Respelling s d d' → ∀ ⦃x : α⦄, read d = some x → read d' = some x

/-! ### One field among the members -/

section Field

variable {before behind members members' : List (Option String × Document)} {names : List String}
  {name : String} {d : Document} {found : Option Document}

/-- Whether none of the members has one of the names. -/
def LacksField (members : List (Option String × Document)) (names : List String) : Prop :=
  members.filter (fun (name, _) => name.any names.contains) = []

theorem filter_member (h : name ∈ names) :
    (before ++ (some name, d) :: behind).filter (fun (name, _) => name.any names.contains) =
      before.filter (fun (name, _) => name.any names.contains) ++
        (some name, d) :: behind.filter (fun (name, _) => name.any names.contains) := by
  rw [List.filter_append, List.filter_cons_of_pos (by simpa using h)]

/-- A field is found once, and nowhere else. -/
theorem field?_member_iff (h : name ∈ names) :
    Document.field? (before ++ (some name, d) :: behind) names = some found ↔
      found = some d ∧ LacksField before names ∧ LacksField behind names := by
  -- only the members of the field are looked at, and the one in the middle is among them
  rw [Document.field?, filter_member h, LacksField, LacksField]
  constructor
  · intro hfound
    split at hfound
    next hnil => simp at hnil
    next name' d' hone =>
      -- it is the only one, so there is none before it or behind it
      rcases List.append_eq_singleton_iff.1 hone with ⟨hbefore, hrest⟩ | ⟨-, hrest⟩
      · obtain ⟨hhead, hbehind⟩ := List.cons.inj hrest
        obtain ⟨-, rfl⟩ := Prod.mk.inj hhead
        exact ⟨(Option.some.inj hfound).symm, hbefore, hbehind⟩
      · exact absurd hrest (List.cons_ne_nil _ _)
    next => exact absurd hfound nofun
  · rintro ⟨rfl, hbefore, hbehind⟩
    rw [hbefore, hbehind]
    rfl

/-- A member of another name does not count. -/
theorem field?_of_not_mem (h : name ∉ names) :
    Document.field? (before ++ (some name, d) :: behind) names =
      Document.field? (before ++ behind) names := by
  rw [Document.field?, Document.field?, List.filter_append, List.filter_append,
    List.filter_cons_of_neg (by simpa using h)]

theorem field?_of_lacksField (hbefore : LacksField before names)
    (hbehind : LacksField behind names) :
    Document.field? (before ++ behind) names = some none := by
  have hnone : (before ++ behind).filter (fun (name, _) => name.any names.contains) = [] := by
    rw [List.filter_append, hbefore, hbehind, List.append_nil]
  rw [Document.field?, hnone]

/-- The order of the members does not count. -/
theorem field?_eq_of_perm (h : members.Perm members') :
    Document.field? members names = Document.field? members' names := by
  have hperm := h.filter fun (name, _) => name.any names.contains
  rw [Document.field?, Document.field?]
  generalize members.filter (fun (name, _) => name.any names.contains) = own at hperm ⊢
  generalize members'.filter (fun (name, _) => name.any names.contains) = own' at hperm ⊢
  -- a field that is given twice is an error, whichever of the two comes first
  match own, own', hperm with
  | [], own', hperm => rw [hperm.nil_eq]
  | [member], own', hperm => rw [List.singleton_perm.1 hperm]
  | first :: second :: rest, own', hperm =>
    match own', hperm.length_eq with
    | first' :: second' :: rest', _ => rfl

end Field

/-! ### The fields of a record -/

/-- What a step does to one field: it stays as it is, or it is respelled, or it is left out. -/
inductive Field.Step (field : Field) (s : Shape) : Option Document → Option Document → Prop where
  | stay (found : Option Document) : Step field s found found
  | inside {d d' : Document} : Respelling s d d' → Step field s (some d) (some d')
  | leftOut {d : Document} : field.default? = some d → Step field s (some d) none

/-- What a step does to all fields of a record. -/
inductive Field.Steps : List (Field × Shape) → List (Option Document) → List (Option Document) →
    Prop where
  | nil : Steps [] [] []
  | cons {field : Field} {s : Shape} {fields : List (Field × Shape)}
      {found found' : Option Document}
      {rest rest' : List (Option Document)} :
      field.Step s found found' → Steps fields rest rest' →
        Steps ((field, s) :: fields) (found :: rest) (found' :: rest')

/-- No name belongs to two fields. -/
def Field.AreDistinct (fields : List (Field × Shape)) : Prop := (fields.flatMap (·.1.names)).Nodup

instance (fields : List (Field × Shape)) : Decidable (Field.AreDistinct fields) :=
  inferInstanceAs (Decidable (List.Nodup _))

theorem Field.AreDistinct.eq_of_mem {fields : List (Field × Shape)} (h : AreDistinct fields)
    {field field' : Field × Shape} {name : String} (hfield : field ∈ fields)
    (hfield' : field' ∈ fields)
    (hname : name ∈ field.1.names) (hname' : name ∈ field'.1.names) : field = field' := by
  have hpairwise := (List.nodup_flatMap.1 h).2
  by_contra hne
  have hsymm : Std.Symm (Function.onFun List.Disjoint fun field : Field × Shape => field.1.names) :=
    ⟨fun _ _ hdisjoint name hname hname' => hdisjoint hname' hname⟩
  exact hpairwise.forall hfield hfield' hne hname hname'

/-- A step inside a record leads to another table, whose members have names if those of the first
have. -/
theorem Respelling.exists_members {fields : List (Field × Shape)} {d d' : Document}
    (h : Respelling (.record fields) d d') :
    ∃ members members' : List (Option String × Document), d = .table members ∧
      d' = .table members' ∧
      (members.all (·.1.isSome) → members'.all (·.1.isSome)) := by
  cases h with
  | member before behind hfield hname hinside => exact ⟨_, _, rfl, rfl, by simp⟩
  | reorder hperm => exact ⟨_, _, rfl, rfl, by simp [hperm.mem_iff]⟩
  | extend before behind d hname => exact ⟨_, _, rfl, rfl, by simp +contextual⟩
  | rename before behind hfield hname hname' => exact ⟨_, _, rfl, rfl, by simp⟩
  | leaveOut before behind hfield hname hdefault =>
    exact ⟨_, _, rfl, rfl, by simp +contextual⟩

/-- **What a step does to one field of a record**: the field of the member that the step touches is
the only one that can change. -/
theorem Respelling.field? {fields : List (Field × Shape)} (hdistinct : Field.AreDistinct fields)
    {members members' : List (Option String × Document)}
    (h : Respelling (.record fields) (.table members) (.table members')) {field : Field} {s : Shape}
    (hfield : (field, s) ∈ fields) {found : Option Document}
    (hfound : Document.field? members field.names = some found) :
    ∃ found', Document.field? members' field.names = some found' ∧ field.Step s found found' := by
  cases h with
  | @member before behind _ touched inner name d d' htouched hname hinside =>
    by_cases hmem : name ∈ field.names
    · -- the member belongs to this field, so the step is inside its value
      obtain ⟨rfl, rfl⟩ := Prod.mk.inj (hdistinct.eq_of_mem hfield htouched hmem hname)
      obtain ⟨rfl, hlacks⟩ := (field?_member_iff hmem).1 hfound
      exact ⟨some d', (field?_member_iff hmem).2 ⟨rfl, hlacks⟩, .inside hinside⟩
    · -- it belongs to another field, and this one does not see it
      rw [field?_of_not_mem hmem] at hfound
      exact ⟨found, (field?_of_not_mem hmem).trans hfound, .stay found⟩
  | reorder hperm => exact ⟨found, (field?_eq_of_perm hperm).symm.trans hfound, .stay found⟩
  | extend before behind d hname =>
    exact ⟨found, (field?_of_not_mem (hname _ hfield)).trans hfound, .stay found⟩
  | @rename before behind _ touched name name' d htouched hname hname' =>
    by_cases hmem : name ∈ field.names
    · obtain rfl := hdistinct.eq_of_mem hfield htouched hmem hname
      exact ⟨found, (field?_member_iff hname').2 ((field?_member_iff hmem).1 hfound), .stay found⟩
    · -- a field has all its names for itself, so the new name belongs to no other either
      have hmem' : name' ∉ field.names := by
        intro hmem'
        obtain rfl := hdistinct.eq_of_mem hfield htouched hmem' hname'
        exact hmem hname
      rw [field?_of_not_mem hmem] at hfound
      exact ⟨found, (field?_of_not_mem hmem').trans hfound, .stay found⟩
  | @leaveOut before behind _ touched name d htouched hname hdefault =>
    by_cases hmem : name ∈ field.names
    · obtain rfl := hdistinct.eq_of_mem hfield htouched hmem hname
      obtain ⟨rfl, hbefore, hbehind⟩ := (field?_member_iff hmem).1 hfound
      -- the field is given nowhere else, so nothing is left of it
      exact ⟨none, field?_of_lacksField hbefore hbehind, .leftOut hdefault⟩
    · rw [field?_of_not_mem hmem] at hfound
      exact ⟨found, hfound, .stay found⟩

theorem Field.exists_steps {members members' : List (Option String × Document)}
    (fields : List (Field × Shape))
    (h : ∀ field s, (field, s) ∈ fields → ∀ found, Document.field? members field.names =
      some found →
      ∃ found', Document.field? members' field.names = some found' ∧ field.Step s found found')
    {parts : List (Option Document)} (hparts : (layout fields).mapM (Document.field? members) =
      some parts) :
    ∃ parts', (layout fields).mapM (Document.field? members') = some parts' ∧
      Steps fields parts parts' := by
  -- each field is looked up on its own, so the step is taken field by field
  induction fields generalizing parts with
  | nil =>
    obtain rfl := Option.some.inj hparts
    exact ⟨[], rfl, .nil⟩
  | cons head fields ih =>
    obtain ⟨field, s⟩ := head
    rw [layout, List.map_cons, List.mapM_cons] at hparts
    obtain ⟨found, hfound, hparts⟩ := Option.bind_eq_some_iff.1 hparts
    obtain ⟨rest, hrest, hparts⟩ := Option.bind_eq_some_iff.1 hparts
    obtain rfl := Option.some.inj hparts
    obtain ⟨found', hfound', hstep⟩ := h field s List.mem_cons_self found hfound
    obtain ⟨rest', hrest', hsteps⟩ :=
      ih (fun field s hmem => h field s (List.mem_cons_of_mem _ hmem)) hrest
    refine ⟨found' :: rest', ?_, .cons hstep hsteps⟩
    rw [layout, List.map_cons, List.mapM_cons, hfound', Option.bind_eq_bind, Option.bind_some]
    exact Option.bind_eq_some_iff.2 ⟨rest', hrest', rfl⟩

/-- **What a step does to a record**: its fields are found again, each after a step of its own. -/
theorem Respelling.fields? {fields : List (Field × Shape)} (hdistinct : Field.AreDistinct fields)
    {d d' : Document} (h : Respelling (.record fields) d d') {dialect : Dialect}
    {parts : List (Option Document)}
    (hparts : d.fields? dialect (Field.layout fields) = some parts) :
    ∃ parts', d'.fields? dialect (Field.layout fields) = some parts' ∧
      Field.Steps fields parts parts' := by
  obtain ⟨members, members', rfl, rfl, hnames⟩ := h.exists_members
  rw [Document.fields?] at hparts
  split at hparts
  -- members without a proper name would make the record unreadable, and no step adds one
  next hall =>
    rw [Document.fields?, if_pos (hnames hall)]
    exact Field.exists_steps fields (fun field s hfield found => h.field? hdistinct hfield) hparts
  next => exact absurd hparts nofun

/-! ### Fields of a record that are read -/

namespace Field.Step

variable {α : Type} {field : Field} {s : Shape} {read : Document → Option α}
  {found found' : Option Document}
  {x : α}

/-- A field that must be written is not left out. -/
theorem required (h : field.Step s found found') (hdefault : field.default? = none)
    (hread : IsStable s read)
    (hx : required read found = some x) : LinkQuery.required read found' = some x := by
  cases h with
  | stay => exact hx
  | inside hinside => exact hread hinside hx
  | leftOut hleft => rw [hdefault] at hleft; contradiction

/-- A field that is left out has the value that was written. -/
theorem defaulted {value : α} (h : field.Step s found found')
    (hdefault : ∀ d, field.default? = some d → read d = some value) (hread : IsStable s read)
    (hx : defaulted read value found = some x) :
    LinkQuery.defaulted read value found' = some x := by
  cases h with
  | stay => exact hx
  | inside hinside => exact hread hinside hx
  | leftOut hleft =>
    obtain rfl := Option.some.inj ((hdefault _ hleft).symm.trans hx)
    rfl

end Field.Step

/-! ### Readers -/

section Readers

variable {α β : Type}

/-- Nothing is respelled where no record is. -/
theorem IsStable.plain (read : Document → Option α) : IsStable .plain read := by
  intro d d' h
  cases h

/-- An item may be put in the place of another that gives the same. -/
theorem mapM_replace {f : α → Option β} {a a' : α} (h : ∀ b, f a = some b → f a' = some b)
    (before behind : List α) {bs : List β} (hbs : (before ++ a :: behind).mapM f = some bs) :
    (before ++ a' :: behind).mapM f = some bs := by
  induction before generalizing bs with
  | nil =>
    rw [List.nil_append, List.mapM_cons] at hbs ⊢
    obtain ⟨b, hb, hbs⟩ := Option.bind_eq_some_iff.1 hbs
    exact Option.bind_eq_some_iff.2 ⟨b, h b hb, hbs⟩
  | cons first before ih =>
    rw [List.cons_append, List.mapM_cons] at hbs ⊢
    obtain ⟨b, hb, hbs⟩ := Option.bind_eq_some_iff.1 hbs
    obtain ⟨rest, hrest, hbs⟩ := Option.bind_eq_some_iff.1 hbs
    exact Option.bind_eq_some_iff.2 ⟨b, hb, Option.bind_eq_some_iff.2 ⟨rest, ih hrest, hbs⟩⟩

/-- Items in another order give the same in another order. -/
theorem mapM_perm {f : α → Option β} {as as' : List α} (h : as.Perm as') {bs : List β}
    (hbs : as.mapM f = some bs) : ∃ bs', as'.mapM f = some bs' ∧ bs.Perm bs' := by
  -- along the way from one order to the other, which swaps two neighbours at a time
  induction h generalizing bs with
  | nil => exact ⟨bs, hbs, .refl bs⟩
  | cons a _ ih =>
    rw [List.mapM_cons] at hbs
    obtain ⟨b, hb, hbs⟩ := Option.bind_eq_some_iff.1 hbs
    obtain ⟨rest, hrest, hbs⟩ := Option.bind_eq_some_iff.1 hbs
    obtain rfl := Option.some.inj hbs
    obtain ⟨rest', hrest', hperm⟩ := ih hrest
    refine ⟨b :: rest', ?_, hperm.cons b⟩
    rw [List.mapM_cons, hb, hrest']
    rfl
  | swap a a' as =>
    rw [List.mapM_cons, List.mapM_cons] at hbs
    obtain ⟨b', hb', hbs⟩ := Option.bind_eq_some_iff.1 hbs
    obtain ⟨tail, htail, hbs⟩ := Option.bind_eq_some_iff.1 hbs
    obtain ⟨b, hb, htail⟩ := Option.bind_eq_some_iff.1 htail
    obtain ⟨rest, hrest, htail⟩ := Option.bind_eq_some_iff.1 htail
    obtain rfl := Option.some.inj htail
    obtain rfl := Option.some.inj hbs
    refine ⟨b :: b' :: rest, ?_, .swap b b' rest⟩
    rw [List.mapM_cons, List.mapM_cons, hb, hb', hrest]
    rfl
  | trans _ _ ih ih' =>
    obtain ⟨bs', hbs', hperm⟩ := ih hbs
    obtain ⟨bs'', hbs'', hperm'⟩ := ih' hbs'
    exact ⟨bs'', hbs'', hperm.trans hperm'⟩

/-- The entries of a map have the names that are written. -/
theorem map_names_of_mapM {read : Document → Option α} {members : List (Option String × Document)}
    {entries : List (String × α)}
    (h : (members.mapM fun (name, d) => do some (← name, ← read d)) = some entries) :
    members.map (·.1) = entries.map (some ·.1) := by
  induction members generalizing entries with
  | nil =>
    obtain rfl := Option.some.inj h
    rfl
  | cons member members ih =>
    obtain ⟨written, d⟩ := member
    rw [List.mapM_cons] at h
    obtain ⟨entry, hentry, h⟩ := Option.bind_eq_some_iff.1 h
    obtain ⟨rest, hrest, h⟩ := Option.bind_eq_some_iff.1 h
    obtain rfl := Option.some.inj h
    obtain ⟨name, hname, hentry⟩ := Option.bind_eq_some_iff.1 hentry
    obtain ⟨x, -, hentry⟩ := Option.bind_eq_some_iff.1 hentry
    obtain rfl := Option.some.inj hentry
    rw [List.map_cons, List.map_cons, ih hrest, hname]

theorem IsStable.list {s : Shape} {read : Document → Option α} (h : IsStable s read) :
    IsStable (.list s) (Document.listOf? read) := by
  intro d d' hstep as has
  cases hstep with
  | item before behind hinside => exact mapM_replace (h hinside) before behind has

/-- The map that a table is read as. -/
def Document.nameMapOf? (read : Document → Option α) (d : Document) : Option (NameMap α) :=
  (Document.mapOf? read d).map NameMap.ofList

theorem IsStable.map {s : Shape} {read : Document → Option α} (h : IsStable s read) :
    IsStable (.map s) (Document.nameMapOf? read) := by
  intro d d' hstep map hmap
  obtain ⟨entries, hentries, rfl⟩ := Option.map_eq_some_iff.1 hmap
  cases hstep with
  | @value before behind _ name d d' hinside =>
    -- the names stay, and the value that is respelled is read as before
    refine Option.map_eq_some_iff.2 ⟨entries, mapM_replace ?_ before behind hentries, rfl⟩
    intro entry hentry
    obtain ⟨written, hwritten, hentry⟩ := Option.bind_eq_some_iff.1 hentry
    obtain ⟨x, hx, hentry⟩ := Option.bind_eq_some_iff.1 hentry
    exact Option.bind_eq_some_iff.2 ⟨written, hwritten,
      Option.bind_eq_some_iff.2 ⟨x, h hinside hx, hentry⟩⟩
  -- no name is written twice, so the map does not hang on the order
  | reorderMap hnodup hperm =>
    obtain ⟨entries', hentries', hperm'⟩ := mapM_perm hperm hentries
    rw [map_names_of_mapM hentries] at hnodup
    have hnodup' : (entries.map (·.1)).Nodup := by
      rw [← Function.comp_def some, ← List.map_map] at hnodup
      exact hnodup.of_map
    exact Option.map_eq_some_iff.2 ⟨entries', hentries',
      (NameMap.ofList_eq_of_perm hnodup' hperm').symm⟩

/-- A record is read in the same way in all its spellings, if what is made of its fields is. -/
theorem IsStable.record {fields : List (Field × Shape)} (hdistinct : Field.AreDistinct fields)
    {dialect : Dialect} {read : List (Option Document) → Option α}
    (h : ∀ parts parts', Field.Steps fields parts parts' → ∀ x, read parts = some x →
      read parts' = some x) :
    IsStable (.record fields) (fun d => d.fields? dialect (Field.layout fields) >>= read) := by
  intro d d' hstep x hx
  obtain ⟨parts, hparts, hx⟩ := Option.bind_eq_some_iff.1 hx
  obtain ⟨parts', hparts', hsteps⟩ := hstep.fields? hdistinct hparts
  exact Option.bind_eq_some_iff.2 ⟨parts', hparts', h parts parts' hsteps x hx⟩

/-- **Any number of steps** leads to documents that are read as the first. -/
theorem IsStable.run {s : Shape} {read : Document → Option α} (h : IsStable s read)
    {d d' : Document}
    (hsteps : Relation.ReflTransGen (Respelling s) d d') {x : α} (hx : read d = some x) :
    read d' = some x := by
  induction hsteps with
  | refl => exact hx
  | tail _ hstep ih => exact h hstep ih

end Readers

end LinkQuery

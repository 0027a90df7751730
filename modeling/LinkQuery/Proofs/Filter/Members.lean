import LinkQuery.Proofs.Operands.Mention

/-!
# Members of a filter

A filter is read member by member, and what a member means does not hang on its neighbours. So a
member may be replaced, wherever it stands, by another one that is read in the same way.

This is what dotted names amount to. A name that goes through links is divided at its dots, while
nested objects lead through links one by one, each time because the object inside describes a row.
Both ways the same is read, be it a filter or a fault.

* `Filter.Replaces` relates two objects of which one has another member in one place, at any depth:
  inside combinators, and behind links.
* `Filter.ofMembers_replaces`: they are read alike if the two members are.
* `Filter.ofMember_dotted`: a dotted name is read as the objects it is short for.
* `Filter.ofJson_dotted` puts the two together.
-/

namespace LinkQuery

open Json (Value Members)

namespace Filter

/-! ### Reading one after the other -/

theorem ofItems_eq_mapM (values : List Value) : ofItems values = values.mapM ofJson := by
  induction values with
  | nil => rfl
  | cons value rest ih =>
    rw [ofItems, List.mapM_cons, ih]
    rfl

theorem ofMembers_eq_mapM (members : Members) :
    ofMembers members = members.mapM fun (key, value) => ofMember key value := by
  induction members with
  | nil => rfl
  | cons member rest ih =>
    rw [ofMembers, List.mapM_cons, ih]
    rfl

theorem ofItems_congr (before after : List Value) {value value' : Value}
    (h : ofJson value = ofJson value') :
    ofItems (before ++ value :: after) = ofItems (before ++ value' :: after) := by
  simp only [ofItems_eq_mapM, List.mapM_append, List.mapM_cons, h]

theorem ofMembers_congr (before after : Members) {key key' : String} {value value' : Value}
    (h : ofMember key value = ofMember key' value') :
    ofMembers (before ++ (key, value) :: after) =
      ofMembers (before ++ (key', value') :: after) := by
  simp only [ofMembers_eq_mapM, List.mapM_append, List.mapM_cons, h]

/-! ### Combinators and links -/

theorem combinator_eq_none {key : String} (h : isOperator key.toList = false) :
    Combinator.ofKey? key = none := by
  cases hkey : Combinator.ofKey? key with
  | none => rfl
  | some combinator => simp [(isOperatorKey_of_combinator hkey).1.isOperator] at h

/-- An object that describes a row is read as the filter behind a link. -/
theorem ofMember_link {key last : String} {links : List String} {members : Members}
    (hkey : splitKey key = .ok (links, last)) (hlast : isOperator last.toList = false)
    (hrow : describesRow members) :
    ofMember key (.object members) =
      (ofMembers members).map fun filters => behind links (.link last (conjunction filters)) := by
  have hpresence := (isPlainKey_of_not_isOperator hlast).presence_eq
  simp only [ofMember, hkey, combinator_eq_none hlast, hpresence, hlast, hrow, bind, Except.bind]
  cases ofMembers members <;> rfl

section

variable {key last : String} {links : List String} {combinator : Combinator}
  (hkey : splitKey key = .ok (links, last)) (hlast : Combinator.ofKey? last = some combinator)
include hkey hlast

theorem ofMember_array_congr {items items' : List Value} (h : ofItems items = ofItems items') :
    ofMember key (.array items) = ofMember key (.array items') := by
  simp only [ofMember, hkey, hlast, h, bind, Except.bind]

theorem ofMember_object_congr {members members' : Members}
    (h : ofMembers members = ofMembers members') :
    ofMember key (.object members) = ofMember key (.object members') := by
  simp only [ofMember, hkey, hlast, h, bind, Except.bind]

end

/-! ### A member in the place of another -/

/-- The second object has the member `entry'` in one place where the first one has `entry`, and
apart from that they are the same. The place is one in which filters stand: it is among the members
of the objects themselves, or inside the operands of a combinator, or behind a link. -/
inductive Replaces (entry entry' : String × Value) : Members → Members → Prop where
  | here (before after : Members) :
      Replaces entry entry' (before ++ entry :: after) (before ++ entry' :: after)
  /-- A combinator has its operands in an array. -/
  | item {members members' : Members} {key last : String} {links : List String}
      {combinator : Combinator} (before after : Members) (first rest : List Value)
      (hkey : splitKey key = .ok (links, last)) (hlast : Combinator.ofKey? last = some combinator)
      (h : Replaces entry entry' members members') :
      Replaces entry entry'
        (before ++ (key, .array (first ++ .object members :: rest)) :: after)
        (before ++ (key, .array (first ++ .object members' :: rest)) :: after)
  /-- A combinator has its operands in an object. -/
  | operand {members members' : Members} {key last : String} {links : List String}
      {combinator : Combinator} (before after : Members)
      (hkey : splitKey key = .ok (links, last)) (hlast : Combinator.ofKey? last = some combinator)
      (h : Replaces entry entry' members members') :
      Replaces entry entry' (before ++ (key, .object members) :: after)
        (before ++ (key, .object members') :: after)
  /-- The value of a link describes the row behind it. -/
  | behind {members members' : Members} {key last : String} {links : List String}
      (before after : Members) (hkey : splitKey key = .ok (links, last))
      (hlast : isOperator last.toList = false) (hrow : describesRow members)
      (h : Replaces entry entry' members members') :
      Replaces entry entry' (before ++ (key, .object members) :: after)
        (before ++ (key, .object members') :: after)

variable {entry entry' : String × Value} {members members' : Members}

/-- An object that describes a row still does. -/
theorem Replaces.describesRow_eq (h : Replaces entry entry' members members')
    (hentry : isOperator entry.1.toList = isOperator entry'.1.toList) :
    describesRow members = describesRow members' := by
  cases h <;> simp [describesRow, hentry]

/-- **Members that are read alike may replace each other**, wherever they stand. -/
theorem ofMembers_replaces (h : Replaces entry entry' members members')
    (hread : ofMember entry.1 entry.2 = ofMember entry'.1 entry'.2)
    (hentry : isOperator entry.1.toList = isOperator entry'.1.toList) :
    ofMembers members = ofMembers members' := by
  induction h with
  | here before after => exact ofMembers_congr before after hread
  | item before after first rest hkey hlast _ ih =>
    -- an item of the array is the conjunction of its members
    have hnode := congrArg (Except.map conjunction) ih
    exact ofMembers_congr before after
      (ofMember_array_congr hkey hlast (ofItems_congr first rest hnode))
  | operand before after hkey hlast _ ih =>
    exact ofMembers_congr before after (ofMember_object_congr hkey hlast ih)
  | @behind members members' key last links before after hkey hlast hrow h ih =>
    -- the link must not turn into a column
    have hrow' : describesRow members' := h.describesRow_eq hentry ▸ hrow
    refine ofMembers_congr before after ?_
    rw [ofMember_link hkey hlast hrow, ofMember_link hkey hlast hrow', ih]

/-! ### Dotted names -/

/-- A segment of a dotted name, neither empty nor an operator. -/
structure IsSegment (segment : String) : Prop where
  nonempty : segment.toList ≠ []
  undotted : '.' ∉ segment.toList
  plain : isOperator segment.toList = false

instance (segment : String) : Decidable (IsSegment segment) :=
  decidable_of_iff
    (segment.toList ≠ [] ∧ '.' ∉ segment.toList ∧ isOperator segment.toList = false)
    ⟨fun ⟨hnonempty, hundotted, hplain⟩ => ⟨hnonempty, hundotted, hplain⟩,
      fun ⟨hnonempty, hundotted, hplain⟩ => ⟨hnonempty, hundotted, hplain⟩⟩

/-- A value inside objects of one member each, the first name outermost. -/
def nested (names : List String) (value : Value) : Value :=
  names.foldr (fun name inner => .object [(name, inner)]) value

/-- The segments of a dotted name are its pieces. -/
theorem splitKey_intercalate {names : List String} (hne : names ≠ [])
    (h : ∀ name ∈ names, IsSegment name) :
    splitKey (".".intercalate names) = keyOfPieces (names.map (·.toList)) := by
  have hdot : ∀ piece ∈ names.map (·.toList), '.' ∉ piece := by
    intro piece hpiece
    obtain ⟨name, hname, rfl⟩ := List.mem_map.1 hpiece
    exact (h name hname).undotted
  rw [splitKey, String.toList_intercalate]
  exact congrArg keyOfPieces (List.splitOn_intercalate '.' hdot (by simpa using hne))

theorem splitKey_segment {name : String} (h : IsSegment name) : splitKey name = .ok ([], name) := by
  have hpieces := splitKey_intercalate (List.cons_ne_nil name []) (List.forall_mem_singleton.2 h)
  rw [String.intercalate_singleton] at hpieces
  rw [hpieces, List.map_cons, List.map_nil, keyOfPieces, String.ofList_toList]

/-- The first segment is a link, and the name goes on behind it. -/
theorem splitKey_dotted {link name : String} {names : List String}
    (h : ∀ segment ∈ link :: name :: names, IsSegment segment) :
    splitKey (".".intercalate (link :: name :: names)) =
      (splitKey (".".intercalate (name :: names))).map
        fun (links, last) => (link :: links, last) := by
  obtain ⟨hlink, hrest⟩ := List.forall_mem_cons.1 h
  have hname := (List.forall_mem_cons.1 hrest).1
  have hnonempty : ¬ (link.toList = [] ∨ name.toList = [] ∧ names.map (·.toList) = []) := by
    simp [hlink.nonempty, hname.nonempty]
  rw [splitKey_intercalate (List.cons_ne_nil _ _) h,
    splitKey_intercalate (List.cons_ne_nil _ _) hrest, List.map_cons, List.map_cons, keyOfPieces,
    if_neg (by simp [hlink.plain]), if_neg hnonempty, String.ofList_toList]

/-- What is read under a name that first goes through a link stands behind that link. -/
theorem ofMember_throughLink {key rest link : String}
    (h : splitKey key = (splitKey rest).map fun (links, last) => (link :: links, last))
    (value : Value) : ofMember key value = (ofMember rest value).map (.link link) := by
  -- whatever is read is set behind links in the end
  have hset (links : List String) (x : Except Error Filter) :
      (x >>= fun filter => Except.ok (behind (link :: links) filter)) =
        (x >>= fun filter => Except.ok (behind links filter)).map (.link link) := by
    cases x <;> rfl
  have hgroup (links : List String) (combinator : Combinator) (x : Except Error (List Filter)) :
      (x >>= fun members => combinator.checked members >>= fun members =>
        Except.ok (group combinator members) >>= fun filter =>
          Except.ok (behind (link :: links) filter)) =
        (x >>= fun members => combinator.checked members >>= fun members =>
          Except.ok (group combinator members) >>= fun filter =>
            Except.ok (behind links filter)).map (.link link) := by
    cases x with
    | error e => rfl
    | ok members =>
      show (combinator.checked members >>= _) = Except.map _ (combinator.checked members >>= _)
      cases combinator.checked members <;> rfl
  have hcolumn (links : List String) (last : String) :
      ((Predicate.ofJson last value).map (Filter.column last) >>= fun filter =>
        Except.ok (behind (link :: links) filter)) =
        ((Predicate.ofJson last value).map (Filter.column last) >>= fun filter =>
          Except.ok (behind links filter)).map (.link link) :=
    hset links ((Predicate.ofJson last value).map (.column last))
  rw [ofMember, ofMember, h, bind_of_map, map_of_bind]
  refine bind_congr ?_
  rintro ⟨links, last⟩
  dsimp only
  cases Combinator.ofKey? last with
  | some combinator =>
    cases value with
    | array items => exact hgroup links combinator (ofItems items)
    | object members => exact hgroup links combinator (ofMembers members)
    | null | bool _ | int _ | float _ | text _ => rfl
  | none =>
    cases presenceOfKey? last with
    | some expected => exact hset links (presenceOfJson last expected value)
    | none =>
      dsimp only
      split
      · rfl
      cases value with
      | object members =>
        dsimp only
        split
        · cases ofMembers members <;> rfl
        · exact hcolumn links last
      | array _ | null | bool _ | int _ | float _ | text _ => exact hcolumn links last

/-- An object of a single member that is no operator leads through a link. -/
theorem ofMember_single {link name : String} (hlink : IsSegment link)
    (hname : isOperator name.toList = false) (value : Value) :
    ofMember link (.object [(name, value)]) = (ofMember name value).map (.link link) := by
  have hrow : describesRow [(name, value)] := by simp [describesRow, hname]
  rw [ofMember_link (splitKey_segment hlink) hlink.plain hrow, ofMembers, ofMembers]
  cases ofMember name value <;> rfl

/-- **A dotted name is short for nested objects.** -/
theorem ofMember_dotted {first : String} {rest : List String}
    (h : ∀ segment ∈ first :: rest, IsSegment segment) (value : Value) :
    ofMember (".".intercalate (first :: rest)) value = ofMember first (nested rest value) := by
  induction rest generalizing first with
  | nil => rw [String.intercalate_singleton]; rfl
  | cons name names ih =>
    -- both forms lead through the first link, and what is left is one link shorter
    obtain ⟨hfirst, hrest⟩ := List.forall_mem_cons.1 h
    have hname := (hrest name List.mem_cons_self).plain
    calc ofMember (".".intercalate (first :: name :: names)) value
        = (ofMember (".".intercalate (name :: names)) value).map (.link first) :=
          ofMember_throughLink (splitKey_dotted h) value
      _ = (ofMember name (nested names value)).map (.link first) := by rw [ih hrest]
      _ = ofMember first (nested (name :: names) value) :=
          (ofMember_single hfirst hname _).symm

/-- A dotted name is an operator just if its first segment is. -/
theorem isOperator_intercalate {first : String} {rest : List String} (h : IsSegment first) :
    isOperator (".".intercalate (first :: rest)).toList = isOperator first.toList := by
  obtain ⟨c, cs, hcs⟩ := List.exists_cons_of_ne_nil h.nonempty
  cases rest with
  | nil => rw [String.intercalate_singleton]
  | cons name names =>
    rw [String.toList_intercalate, List.map_cons, List.map_cons, List.intercalate_cons_cons, hcs]
    rfl

/-- **Dotted names are the nested form.** Wherever a member with a dotted name stands in a filter,
among other members, inside combinators and behind links, it may be written as nested objects: the
same filter is read, or the same fault reported. -/
theorem ofJson_dotted {first : String} {rest : List String}
    (h : ∀ segment ∈ first :: rest, IsSegment segment) (value : Value) {members members' : Members}
    (hreplaces : Replaces (".".intercalate (first :: rest), value) (first, nested rest value)
      members members') :
    ofJson (.object members) = ofJson (.object members') := by
  have hfirst := (List.forall_mem_cons.1 h).1
  rw [ofJson, ofJson, ofMembers_replaces hreplaces (ofMember_dotted h value)
    (isOperator_intercalate hfirst)]

/-- A dotted name behind a link, in an operand of a combinator that stands next to a column. -/
theorem ofJson_dotted_owner_pet :
    let starts := Value.object [("$startsWith", .text "R")]
    let around (member : String × Value) := Value.object
      [("size", .int 3), ("$any", .array [.object [("lead.team", .object [member])]])]
    ofJson (around ("owner.pet.name", starts)) =
      ofJson (around ("owner", .object [("pet", .object [("name", starts)])])) := by
  intro starts around
  have hany : splitKey "$any" = .ok ([], "$any") := by decide
  have hteam : splitKey "lead.team" = .ok (["lead"], "team") := by decide +kernel
  have hreplaces : Replaces (".".intercalate ["owner", "pet", "name"], starts)
      ("owner", nested ["pet", "name"] starts)
      [("size", .int 3), ("$any", .array [.object [("lead.team",
        .object [(".".intercalate ["owner", "pet", "name"], starts)])]])]
      [("size", .int 3), ("$any", .array [.object [("lead.team",
        .object [("owner", nested ["pet", "name"] starts)])]])] :=
    .item [("size", .int 3)] [] [] [] hany rfl (.behind [] [] hteam rfl rfl (.here [] []))
  exact ofJson_dotted (by decide +kernel) starts hreplaces

end Filter

end LinkQuery

import LinkQuery.Page.Cursor
import LinkQuery.Proofs.Json.Sound
import LinkQuery.Proofs.Outcome
import LinkQuery.Proofs.Text.Base64Url
import LinkQuery.Proofs.Text.Blank

/-!
# Cursors and their tokens

A token is the text of a cursor in other digits, so it is read back as far as the text is: the
filter must not be nested too deep, and its floats must be read back from their literals.

* `Cursor.decode_encode` is what a token is decoded to, in every case.
* `Cursor.isProper_of_decode`: the filter of a cursor that was decoded is proper and not nested too
  deep.
* `Cursor.tokens_round_trip` puts both directions together.
-/

namespace LinkQuery

open Json (Value)
open Text (isBlank)

/-! ### Bytes -/

/-- The bytes are read in order, after what was read before. -/
theorem toList_loop (bytes : ByteArray) (i : Nat) (read : List UInt8) :
    ByteArray.toList.loop bytes i read = read.reverse ++ bytes.data.toList.drop i := by
  -- along the bytes, from the end that was read so far
  fun_induction ByteArray.toList.loop bytes i read with
  | case1 i read hi ih =>
    have hlength : i < bytes.data.toList.length := by simpa using hi
    have hget : bytes.get! i = bytes.data.toList[i] := getElem!_pos bytes.data i hi
    rw [ih, List.drop_eq_getElem_cons hlength, List.reverse_cons, List.append_assoc, hget]
    rfl
  | case2 i read hi =>
    rw [List.drop_eq_nil_of_le (by simpa using hi), List.append_nil]

theorem mk_toArray_toList (bytes : ByteArray) : (⟨bytes.toList.toArray⟩ : ByteArray) = bytes := by
  rw [ByteArray.toList, toList_loop, List.reverse_nil, List.nil_append, List.drop_zero,
    Array.toArray_toList]

theorem isBlank_of_mem_alphabet {c : Char} (h : c ∈ Text.Base64Url.alphabet) :
    isBlank c = false := by
  have hall : Text.Base64Url.alphabet.all (fun c => !isBlank c) = true := by decide +kernel
  simpa using List.all_eq_true.1 hall c h

theorem isBlank_of_mem_empty : ∀ c ∈ "".toList, isBlank c := by simp

namespace Cursor

/-- A token consists of the digits of the encoding. -/
theorem mem_alphabet_of_mem_encode {c : Cursor} {char : Char} (h : char ∈ c.encode.toList) :
    char ∈ Text.Base64Url.alphabet := by
  rw [encode, String.toList_ofList] at h
  exact Text.Base64Url.mem_alphabet_of_mem_encode h

/-- The bytes inside a token are those of the text of the cursor, also if blanks surround the token.
-/
theorem tokenBytes?_encode (c : Cursor) {before behind : String}
    (hbefore : ∀ char ∈ before.toList, isBlank char)
    (hbehind : ∀ char ∈ behind.toList, isBlank char) :
    tokenBytes? (before ++ c.encode ++ behind) = some c.toJson.compact.toUTF8 := by
  -- the token itself begins and ends without a blank
  have htrim : Text.trim (before ++ c.encode ++ behind) = c.encode :=
    Text.trim_surrounded hbefore hbehind fun char hchar =>
      isBlank_of_mem_alphabet (mem_alphabet_of_mem_encode hchar)
  rw [tokenBytes?, htrim, encode, String.toList_ofList, Text.Base64Url.decode?_encode,
    Option.map_some, mk_toArray_toList]

end Cursor

/-! ### The parts of a cursor -/

/-- A term of the order is read back. -/
theorem SortTerm.ofDocument?_toJson (term : SortTerm) :
    ofDocument? term.toJson.document = some term := by
  obtain ⟨column, direction⟩ := term
  cases direction <;> rfl

/-- A number is read where it has 64 bits. -/
theorem natUpTo?_int (n : Nat) :
    Document.natUpTo? maxWord (Value.int n).document = if n ≤ maxWord then some n else none := by
  -- a natural number is not below the range of integers
  have hmin : minSigned ≤ (n : Int) := Int.le_trans (by decide) (Int.natCast_nonneg n)
  rw [Value.document, Json.intDocument]
  by_cases hmax : n ≤ maxWord
  · rw [if_pos ⟨hmin, Int.ofNat_le.2 hmax⟩, if_pos hmax]
    simp [Document.natUpTo?, hmax]
  · rw [if_neg fun h => hmax (Int.ofNat_le.1 h.2), if_neg hmax]
    rfl

/-- Whether the numbers of a window have 64 bits. -/
def Window.HasWords (w : Window) : Prop := w.offset ≤ maxWord ∧ w.size ≤ maxWord

instance (w : Window) : Decidable w.HasWords := inferInstanceAs (Decidable (_ ∧ _))

/-- A valid window has an offset and a size that are words. -/
theorem Window.hasWords_of_check {w : Window} (h : w.check = .ok ()) : w.HasWords := by
  obtain ⟨⟨-, hsize⟩, hoffset⟩ := check_eq_ok_iff.1 h
  exact ⟨Nat.le_trans hoffset (by decide), Nat.le_trans hsize (by decide)⟩

/-- A window is read back when its numbers are words. -/
theorem Window.ofDocument?_toJson (w : Window) :
    ofDocument? w.toJson.document = if w.HasWords then some w else none := by
  obtain ⟨anchor, offset, size⟩ := w
  -- the three fields are found under their names
  have hfields : (toJson ⟨anchor, offset, size⟩).document.fields? Json.dialect
      [["anchor"], ["offset"], ["size"]] =
        some [some (.text (some anchor.text)), some (Value.int offset).document,
          some (Value.int size).document] := rfl
  have hanchor : Document.choice? Json.dialect Anchor.alternatives (.text (some anchor.text)) =
      some anchor := by
    cases anchor <;> rfl
  rw [ofDocument?, hfields]
  simp only [Option.bind_eq_bind, Option.bind_some, required, hanchor, natUpTo?_int, HasWords]
  by_cases hoffset : offset ≤ maxWord <;> by_cases hsize : size ≤ maxWord <;>
    simp [hoffset, hsize]

/-- A list is read back item by item. -/
theorem listOf?_documents {α : Type} {read : Document → Option α} {write : α → Value}
    (h : ∀ a, read (write a).document = some a) (as : List α) :
    Document.listOf? read (Value.array (as.map write)).document = some as := by
  rw [Value.document, Document.listOf?]
  induction as with
  | nil => rfl
  | cons a as ih => rw [List.map_cons, Value.documents, List.mapM_cons, h, ih]; rfl

/-- The columns are read back, also when there are none. -/
theorem columnsOfDocument?_columnsToJson (columns : Option (List String)) :
    columnsOfDocument? (columnsToJson columns).document = some columns := by
  cases columns with
  | none => rfl
  | some columns =>
    have htexts : Document.listOf? Document.text? (Value.array (columns.map .text)).document =
        some columns := listOf?_documents (fun _ => rfl) columns
    rw [Value.document] at htexts
    rw [columnsToJson, Value.document, columnsOfDocument?, htexts]
    · rfl
    · nofun

namespace Cursor

/-- A cursor with its filter as it is read. -/
def reread? (c : Cursor) : Option Cursor :=
  (if c.filter.depth ≤ maxFilterDepth then c.filter.reread? else none).map fun filter =>
    { c with filter := filter }

/-- **The document of a cursor denotes the cursor**, with its filter as it is read. -/
theorem ofDocument?_toJson {c : Cursor} (hfilter : c.filter.IsProper) :
    ofDocument? c.toJson.document =
      if c.window.HasWords then c.reread?.map fun read => (cursorVersion, read) else none := by
  have hfields : c.toJson.document.fields? Json.dialect
      [["v"], ["table"], ["filter"], ["sort"], ["columns"], ["window"]] =
        some [some (Value.int cursorVersion).document, some (.text (some c.table)),
          some c.filter.document, some (Value.array (c.sort.map SortTerm.toJson)).document,
          some (columnsToJson c.columns).document, some c.window.toJson.document] := rfl
  have hversion : Document.natUpTo? 255 (Value.int cursorVersion).document = some cursorVersion :=
    rfl
  -- each field is read back on its own
  have hsort := listOf?_documents SortTerm.ofDocument?_toJson c.sort
  have hcolumns := columnsOfDocument?_columnsToJson c.columns
  rw [ofDocument?, hfields, reread?]
  simp only [Option.bind_eq_bind, Option.bind_some, required, defaulted, hversion, Document.text?,
    Value.ofDocument?_document hfilter, hsort, hcolumns, Window.ofDocument?_toJson]
  by_cases hwords : c.window.HasWords <;>
    cases (if c.filter.depth ≤ maxFilterDepth then c.filter.reread? else none) <;> simp [hwords]

/-! ### Decoding what was encoded -/

theorem window_of_reread? {c read : Cursor} (h : c.reread? = some read) :
    read.window = c.window := by
  obtain ⟨filter, -, rfl⟩ := Option.map_eq_some_iff.1 h
  rfl

theorem table_of_reread? {c read : Cursor} (h : c.reread? = some read) : read.table = c.table := by
  obtain ⟨filter, -, rfl⟩ := Option.map_eq_some_iff.1 h
  rfl

/-- The document inside a token is that of the cursor. -/
theorem bind_tokenBytes?_encode {c : Cursor} (hfilter : c.filter.IsProper) {before behind : String}
    (hbefore : ∀ char ∈ before.toList, isBlank char)
    (hbehind : ∀ char ∈ behind.toList, isBlank char) :
    ((tokenBytes? (before ++ c.encode ++ behind)).bind fun bytes =>
        (Json.readBytes? bytes).bind ofDocument?) =
      if c.window.HasWords then c.reread?.map fun read => (cursorVersion, read) else none := by
  have hread : Json.readBytes? c.toJson.compact.toUTF8 = some c.toJson.document := by
    rw [Json.readBytes?_toUTF8, Value.read?_compact]
  rw [tokenBytes?_encode c hbefore hbehind, Option.bind_some, hread, Option.bind_some,
    ofDocument?_toJson hfilter]

/-- **What a token is decoded to**, if the window of its cursor is in range. Only the filter makes a
difference: it must not be nested too deep, and its floats are what their literals are read as. -/
theorem decode_encode {c : Cursor} (hwindow : c.window.check = .ok ()) (hfilter : c.filter.IsProper)
    {before behind : String} (hbefore : ∀ char ∈ before.toList, isBlank char)
    (hbehind : ∀ char ∈ behind.toList, isBlank char) :
    decode (before ++ c.encode ++ behind) =
      c.reread?.elim (.error (.invalidCursor .undecodable)) .ok := by
  have hread := bind_tokenBytes?_encode hfilter hbefore hbehind
  rw [if_pos (Window.hasWords_of_check hwindow)] at hread
  rw [decode, hread]
  cases hc : c.reread? with
  | none => rfl
  -- the window is the one written, which was valid
  | some read => simp [window_of_reread? hc, hwindow]

theorem decode_encode_bare {c : Cursor} (hwindow : c.window.check = .ok ())
    (hfilter : c.filter.IsProper) :
    decode c.encode = c.reread?.elim (.error (.invalidCursor .undecodable)) .ok := by
  have hdecode := decode_encode hwindow hfilter isBlank_of_mem_empty isBlank_of_mem_empty
  rwa [String.append_empty, String.empty_append] at hdecode

/-- A token with a window out of range is not decoded. -/
theorem check_of_decode_encode {c read : Cursor} (hfilter : c.filter.IsProper)
    (h : decode c.encode = .ok read) : c.window.check = .ok () := by
  have hread := bind_tokenBytes?_encode hfilter isBlank_of_mem_empty isBlank_of_mem_empty
  rw [String.append_empty, String.empty_append] at hread
  rw [decode, hread] at h
  -- a window beyond the words is not even read
  by_cases hwords : c.window.HasWords
  · rw [if_pos hwords] at h
    cases hc : c.reread? with
    | none => simp [hc] at h
    | some read =>
      cases hcheck : c.window.check with
      | ok => rfl
      | error fault => simp [hc, window_of_reread? hc, hcheck] at h
  · simp [hwords] at h

/-- A cursor whose filter is not nested too deep and whose floats are read back is decoded. -/
theorem reread?_eq {c : Cursor} (hdepth : c.filter.depth ≤ maxFilterDepth)
    (hfloats : ∀ x ∈ c.filter.floats, x.reread? = some x) : c.reread? = some c := by
  rw [reread?, if_pos hdepth, Value.reread?_eq hfloats]
  rfl

theorem decode_encode_self {c : Cursor} (hwindow : c.window.check = .ok ())
    (hfilter : c.filter.IsProper) (hdepth : c.filter.depth ≤ maxFilterDepth)
    (hfloats : ∀ x ∈ c.filter.floats, x.reread? = some x) : decode c.encode = .ok c := by
  rw [decode_encode_bare hwindow hfilter, reread?_eq hdepth hfloats]
  rfl

/-- A token that is decoded holds the cursor it was made of, if the floats are read back. -/
theorem eq_of_decode_encode {c read : Cursor} (hfilter : c.filter.IsProper)
    (hfloats : ∀ x ∈ c.filter.floats, x.reread? = some x) (h : decode c.encode = .ok read) :
    read = c := by
  have hwindow := check_of_decode_encode hfilter h
  rw [decode_encode_bare hwindow hfilter] at h
  -- a filter nested too deep is not read back
  by_cases hdepth : c.filter.depth ≤ maxFilterDepth
  · rw [reread?_eq hdepth hfloats] at h
    exact (Except.ok.inj h).symm
  · rw [reread?, if_neg hdepth] at h
    exact absurd h nofun

/-- The filter of a cursor is nested less deep than its document. -/
theorem depth_filter_lt (c : Cursor) : c.filter.depth < c.toJson.depth := by
  simp only [toJson, members, Value.depth, Value.membersDepth]
  omega

end Cursor

/-! ### Encoding what was decoded -/

/-- A field of a sound document is sound. -/
theorem isSound_of_field? {members : List (Option String × Document)} {names : List String}
    {field : Option Document} (hmembers : Document.MembersAreSound members)
    (h : Document.field? members names = some field) : ∀ d ∈ field, d.IsSound := by
  unfold Document.field? at h
  split at h
  next =>
    obtain rfl := Option.some.inj h
    nofun
  -- the field stands exactly once, so it is a member
  next name value hfilter =>
    obtain rfl := Option.some.inj h
    intro d hd
    obtain rfl := Option.some.inj hd
    have hmem : (name, value) ∈ members :=
      (List.mem_filter.1 (hfilter ▸ List.mem_singleton_self (name, value))).1
    exact Document.membersAreSound_iff.1 hmembers _ hmem
  next => exact absurd h nofun

/-- The fields of a record are parts of its document. -/
theorem isSound_of_fields? {dialect : Dialect} {layout : List (List String)} {d : Document}
    {fields : List (Option Document)} (hd : d.IsSound)
    (h : d.fields? dialect layout = some fields) :
    ∀ field ∈ fields, ∀ d ∈ field, d.IsSound := by
  unfold Document.fields? at h
  split at h
  next members =>
    split at h
    · intro field hfield
      obtain ⟨names, -, hfield⟩ := exists_left_of_forall₂ (mapM_eq_some_iff.1 h) hfield
      exact isSound_of_field? hd hfield
    · exact absurd h nofun
  next items =>
    -- a cursor written as a list has its fields by position
    split at h
    · obtain rfl := Option.some.inj h
      intro field hfield d hd'
      obtain ⟨i, -, rfl⟩ := List.mem_map.1 hfield
      exact Document.areSound_iff.1 hd d (List.mem_of_getElem? hd')
    · exact absurd h nofun
  next => exact absurd h nofun

namespace Cursor

/-- The filter of a cursor that was read is proper and within the bound. -/
theorem isProper_of_ofDocument? {d : Document} {version : Nat} {c : Cursor} (hd : d.IsSound)
    (h : ofDocument? d = some (version, c)) :
    c.filter.IsProper ∧ c.filter.depth ≤ maxFilterDepth := by
  obtain ⟨fields, hfields, h⟩ := Option.bind_eq_some_iff.1 h
  have hsound := isSound_of_fields? hd hfields
  split at h
  next version table filter sort columns window =>
    obtain ⟨_, -, h⟩ := Option.bind_eq_some_iff.1 h
    obtain ⟨_, -, h⟩ := Option.bind_eq_some_iff.1 h
    obtain ⟨value, hvalue, h⟩ := Option.bind_eq_some_iff.1 h
    obtain ⟨_, -, h⟩ := Option.bind_eq_some_iff.1 h
    obtain ⟨_, -, h⟩ := Option.bind_eq_some_iff.1 h
    obtain ⟨_, -, h⟩ := Option.bind_eq_some_iff.1 h
    obtain ⟨-, rfl⟩ := Prod.mk.inj (Option.some.inj h)
    -- the value of the filter is that of a part of the document
    obtain ⟨part, hpart, hvalue⟩ := Option.bind_eq_some_iff.1 hvalue
    exact Value.isProper_of_ofDocument? (hsound filter (by simp) part hpart) hvalue
  next => exact absurd h nofun

/-- **A cursor that was decoded can be encoded**: its window is in range, and its filter is proper
and not nested too deep. -/
theorem isProper_of_decode {token : String} {c : Cursor} (h : decode token = .ok c) :
    c.window.check = .ok () ∧ c.filter.IsProper ∧ c.filter.depth ≤ maxFilterDepth := by
  unfold decode at h
  split at h
  next => exact absurd h nofun
  -- the token holds a document, and that a cursor of the version and a valid window
  next version cursor hread =>
    obtain ⟨bytes, -, hread⟩ := Option.bind_eq_some_iff.1 hread
    obtain ⟨d, hd, hread⟩ := Option.bind_eq_some_iff.1 hread
    have hproper := isProper_of_ofDocument? (Json.isSound_of_readBytes? hd) hread
    split at h
    next => exact absurd h nofun
    next =>
      split at h
      next => exact absurd h nofun
      next hwindow =>
        obtain rfl := Except.ok.inj h
        exact ⟨hwindow, hproper⟩

theorem decode_encode_of_decode {token : String} {c : Cursor} (h : decode token = .ok c)
    (hfloats : ∀ x ∈ c.filter.floats, x.reread? = some x) : decode c.encode = .ok c := by
  obtain ⟨hwindow, hproper, hdepth⟩ := isProper_of_decode h
  exact decode_encode_self hwindow hproper hdepth hfloats

/-- **Tokens round-trip.** A cursor in range is read back from its token, also between blanks, and
the token is made of the alphabet alone. A cursor read from any token is read back from its own
token, which is then encoded to itself. The floats of the filter are taken to be read back from
their literals. -/
theorem tokens_round_trip :
    (∀ c : Cursor, c.window.check = .ok () → c.filter.IsProper →
      (∀ x ∈ c.filter.floats, x.reread? = some x) → c.toJson.depth ≤ Value.maxDepth →
        (∀ char ∈ c.encode.toList, char ∈ Text.Base64Url.alphabet) ∧
          ∀ before behind : String, (∀ char ∈ before.toList, isBlank char) →
            (∀ char ∈ behind.toList, isBlank char) →
              decode (before ++ c.encode ++ behind) = .ok c) ∧
    ∀ (token : String) (c : Cursor), decode token = .ok c →
      (∀ x ∈ c.filter.floats, x.reread? = some x) →
        decode c.encode = .ok c ∧ (decode c.encode).map encode = .ok c.encode := by
  refine ⟨fun c hwindow hproper hfloats hdepth => ?_, fun token c hdecode hfloats => ?_⟩
  · refine ⟨fun char => mem_alphabet_of_mem_encode, fun before behind hbefore hbehind => ?_⟩
    -- the cursor is around the filter
    have hfilter : c.filter.depth ≤ maxFilterDepth :=
      Nat.le_pred_of_lt (Nat.lt_of_lt_of_le (depth_filter_lt c) hdepth)
    rw [decode_encode hwindow hproper hbefore hbehind, reread?_eq hfilter hfloats]
    rfl
  · -- what was decoded has the properties that encoding needs
    have hround := decode_encode_of_decode hdecode hfloats
    exact ⟨hround, by rw [hround]; rfl⟩

/-- Both ends of the integers, a float, escapes and characters beyond the first plane. -/
theorem tokens_round_trip_nested_filter :
    let c : Cursor :=
      { table := "Größen 😀"
        filter := .object [("b", .array [.int 18446744073709551615, .int (-9223372036854775808)]),
          ("a", .text "\"\\\n\x01é"), ("f", .float ⟨false, 6755399441055744, -52⟩)]
        sort := [.desc "name"]
        columns := some ["*"]
        window := .back 3 2 }
    decode ("\t " ++ c.encode ++ "\n") = .ok c ∧
      (decode c.encode).map encode = .ok c.encode := by
  intro c
  have hproper : c.filter.IsProper := by
    have hfloat : (⟨false, 6755399441055744, -52⟩ : Binary64).IsInRange := by decide
    exact ⟨by simp, ⟨⟨by decide, by decide⟩, ⟨by decide, by decide⟩, trivial⟩, trivial, hfloat,
      trivial⟩
  have hfloats : ∀ x ∈ c.filter.floats, x.reread? = some x := by decide +kernel
  have hround : decode ("\t " ++ c.encode ++ "\n") = .ok c :=
    (tokens_round_trip.1 c rfl hproper hfloats (by decide)).2 "\t " "\n" (List.all_eq_true.1 rfl)
      (List.all_eq_true.1 rfl)
  exact ⟨hround, (tokens_round_trip.2 _ c hround hfloats).2⟩

end Cursor

end LinkQuery

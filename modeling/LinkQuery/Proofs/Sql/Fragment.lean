import LinkQuery.Sql.Fragment
import Mathlib.Data.List.Basic
import Mathlib.Data.List.Chain

/-!
# Putting fragments together

A statement is put together from fragments, and these from smaller ones. It does not matter in which
order: fragments with the empty one form a monoid under `++`, in spite of the texts that become one
part where they meet. A finished fragment is a list of parts in which no two texts stand side by
side, and it could as well have been made by adding these parts one after the other.

A parameter gets its number when the finished statement is rendered, by what stands before it. So a
fragment does not know the numbers of its own placeholders, only how far they are from each other:
behind another fragment all of them are raised by the number of parameters of that one.

* `Fragment.IsAssembled` are the fragments that can be made at all.
* `gluedParts_assoc` and `gluedParts_eq_foldl` are the laws for parts.
* `Fragment.pieces` is the text of a rendered fragment, in which placeholders can be told from text
  that happens to look like them. `Fragment.sqlBehind` is the text with all placeholders raised.
* `fragments_concatenate` has the laws for fragments and for what is rendered.
-/

namespace LinkQuery.Sql

open Json (Value)

/-! ### Lists of parts -/

/-- Whether a part is a text. -/
def Part.isText : Part → Bool
  | .text _ => true
  | .param _ => false

@[simp] theorem gluedParts_nil (ps : List Part) : gluedParts ps [] = ps := by
  induction ps with
  | nil => rfl
  | cons p ps ih =>
    rw [gluedParts]
    · rw [ih]
    · exact nofun

/-- Only the last part of a list can meet a text. -/
theorem gluedParts_cons_cons (p p' : Part) (ps qs : List Part) :
    gluedParts (p :: p' :: ps) qs = p :: gluedParts (p' :: ps) qs := by
  cases qs with
  | nil => rw [gluedParts_nil, gluedParts_nil]
  | cons q qs => cases p <;> rfl

/-- A parameter keeps its place in front. -/
theorem gluedParts_param (value : Value) (ps qs : List Part) :
    gluedParts (.param value :: ps) qs = .param value :: gluedParts ps qs := by
  cases ps <;> cases qs <;> rfl

/-- Two texts in front are one text. -/
theorem gluedParts_text_text (a b : String) (qs : List Part) :
    gluedParts [.text a] (gluedParts [.text b] qs) = gluedParts [.text (a ++ b)] qs := by
  match qs with
  | [] => rfl
  | .text c :: qs =>
    show Part.text (a ++ (b ++ c)) :: qs = .text (a ++ b ++ c) :: qs
    rw [String.append_assoc]
  | .param value :: qs => rfl

/-- The first part stays one, and a text stays a text. -/
theorem exists_gluedParts_cons (p : Part) (ps qs : List Part) :
    ∃ q rest, gluedParts (p :: ps) qs = q :: rest ∧ q.isText = p.isText := by
  cases ps with
  | cons p' ps => exact ⟨p, _, gluedParts_cons_cons p p' ps qs, rfl⟩
  | nil =>
    match p, qs with
    | .param value, qs => exact ⟨_, _, gluedParts_param value [] qs, rfl⟩
    | .text a, [] | .text a, .text b :: qs | .text a, .param value :: qs => exact ⟨_, _, rfl, rfl⟩

/-- Gluing is associative, since texts are. -/
theorem gluedParts_assoc (ps qs rs : List Part) :
    gluedParts (gluedParts ps qs) rs = gluedParts ps (gluedParts qs rs) := by
  induction ps with
  | nil => rfl
  | cons p ps ih =>
    cases ps with
    | cons p' ps =>
      -- what is glued lies behind the first part
      obtain ⟨q, rest, hglued, -⟩ := exists_gluedParts_cons p' ps qs
      rw [gluedParts_cons_cons, gluedParts_cons_cons, hglued, gluedParts_cons_cons, ← hglued, ih]
    | nil =>
      match p, qs with
      | .param value, qs =>
        rw [gluedParts_param, gluedParts_param, gluedParts_param]
        rfl
      | .text a, [] => rfl
      | .text a, .param value :: qs =>
        show gluedParts (.text a :: .param value :: qs) rs = _
        rw [gluedParts_cons_cons, gluedParts_param]
        rfl
      | .text a, [.text b] => exact (gluedParts_text_text a b rs).symm
      | .text a, .text b :: q :: qs =>
        show gluedParts (.text (a ++ b) :: q :: qs) rs = _
        rw [gluedParts_cons_cons, gluedParts_cons_cons]
        rfl

/-! ### Parts one after the other -/

/-- No two texts stand side by side. -/
def IsMerged (ps : List Part) : Prop := ps.IsChain fun p q => ¬ (p.isText ∧ q.isText)

/-- Adds one part: a text is added to the text at the end, if there is one. -/
def addPart (ps : List Part) : Part → List Part
  | .param value => ps ++ [.param value]
  | .text b =>
    match ps.getLast? with
    | some (.text a) => ps.dropLast ++ [.text (a ++ b)]
    | _ => ps ++ [.text b]

/-- Adding a part changes the last part at most. -/
theorem addPart_cons_cons (p p' : Part) (ps : List Part) (q : Part) :
    addPart (p :: p' :: ps) q = p :: addPart (p' :: ps) q := by
  cases q with
  | param value => rfl
  | text b =>
    simp only [addPart, List.getLast?_cons_cons, List.dropLast_cons_cons]
    rcases (p' :: ps).getLast? with _ | (a | value) <;> rfl

/-- Gluing one part is adding it. -/
theorem gluedParts_singleton (ps : List Part) (q : Part) : gluedParts ps [q] = addPart ps q := by
  induction ps with
  | nil => cases q <;> rfl
  | cons p ps ih =>
    cases ps with
    | nil => cases p <;> cases q <;> rfl
    | cons p' ps => rw [gluedParts_cons_cons, addPart_cons_cons, ih]

/-- Where no two texts meet, nothing is glued. -/
theorem IsMerged.gluedParts_eq_cons {p : Part} {ps : List Part} (h : IsMerged (p :: ps)) :
    gluedParts [p] ps = p :: ps := by
  match p, ps with
  | p, [] => exact gluedParts_nil [p]
  | .text a, .text b :: ps => exact absurd ⟨rfl, rfl⟩ (List.isChain_cons_cons.1 h).1
  | .text a, .param value :: ps => rfl
  | .param value, q :: ps => exact gluedParts_param value [] (q :: ps)

/-- **Lists of parts are glued part by part.** -/
theorem gluedParts_eq_foldl {qs : List Part} (h : IsMerged qs) (ps : List Part) :
    gluedParts ps qs = qs.foldl addPart ps := by
  induction qs generalizing ps with
  | nil => exact gluedParts_nil ps
  | cons q qs ih =>
    -- the first part goes over, and the others are glued behind it
    calc gluedParts ps (q :: qs)
        = gluedParts ps (gluedParts [q] qs) := by rw [h.gluedParts_eq_cons]
      _ = gluedParts (addPart ps q) qs := by rw [← gluedParts_assoc, gluedParts_singleton]
      _ = qs.foldl addPart (addPart ps q) := ih h.tail (addPart ps q)

/-- No texts come to stand side by side where lists of parts are glued. -/
theorem IsMerged.glued {ps qs : List Part} (hps : IsMerged ps) (hqs : IsMerged qs) :
    IsMerged (gluedParts ps qs) := by
  induction ps with
  | nil => exact hqs
  | cons p ps ih =>
    cases ps with
    | cons p' ps =>
      -- the first part stands before what it stood before, or before the text made of it
      obtain ⟨hapart, hrest⟩ := List.isChain_cons_cons.1 hps
      have hglued := ih hrest
      obtain ⟨q, rest, heq, htext⟩ := exists_gluedParts_cons p' ps qs
      rw [gluedParts_cons_cons]
      rw [heq] at hglued ⊢
      exact List.isChain_cons_cons.2 ⟨by rwa [htext], hglued⟩
    | nil =>
      match p, qs with
      | p, [] => rwa [gluedParts_nil]
      | .text a, .text b :: qs =>
        -- the two texts become one, behind which stands what stood behind the second
        cases qs with
        | nil => exact List.isChain_singleton _
        | cons q qs => exact List.isChain_cons_cons.2 (List.isChain_cons_cons.1 hqs)
      | .text a, .param value :: qs => exact List.isChain_cons_cons.2 ⟨by simp [Part.isText], hqs⟩
      | .param value, q :: qs =>
        rw [gluedParts_param]
        exact List.isChain_cons_cons.2 ⟨by simp [Part.isText], hqs⟩

namespace Fragment

/-! ### Fragments -/

/-- Fragments form a monoid. -/
theorem append_assoc (f g h : Fragment) : f ++ g ++ h = f ++ (g ++ h) :=
  congrArg mk (gluedParts_assoc f.parts g.parts h.parts)

@[simp] theorem append_empty (f : Fragment) : f ++ empty = f := congrArg mk (gluedParts_nil f.parts)

@[simp] theorem empty_append (f : Fragment) : empty ++ f = f := rfl

theorem text_append_text (a b : String) : text a ++ text b = text (a ++ b) := rfl

theorem text_append_text_append (a b : String) (f : Fragment) :
    text a ++ (text b ++ f) = text (a ++ b) ++ f :=
  congrArg mk (gluedParts_text_text a b f.parts)

/-- The fragments that can be made. -/
inductive IsAssembled : Fragment → Prop
  | empty : IsAssembled empty
  | text (s : String) : IsAssembled (.text s)
  | addText {f : Fragment} (hf : IsAssembled f) (s : String) : IsAssembled (f ++ .text s)
  | addParam {f : Fragment} (hf : IsAssembled f) (value : Value) : IsAssembled (f ++ .param value)
  | append {f g : Fragment} (hf : IsAssembled f) (hg : IsAssembled g) : IsAssembled (f ++ g)
  | wrapped (before after : String) {f : Fragment} (hf : IsAssembled f) :
      IsAssembled (f.wrapped before after)
  | joined (separator : String) {fs : List Fragment} (hfs : ∀ f ∈ fs, IsAssembled f) :
      IsAssembled (.joined separator fs)

theorem isMerged_singleton (p : Part) : IsMerged [p] := List.isChain_singleton p

/-- Joining merged fragments leaves no two texts side by side. -/
theorem isMerged_joined (separator : String) {fs : List Fragment} (h : ∀ f ∈ fs, IsMerged f.parts) :
    IsMerged (joined separator fs).parts := by
  fun_induction joined separator fs with
  | case1 => exact List.isChain_nil
  | case2 f => exact h f (by simp)
  | case3 f g rest ih =>
    have hrest := ih fun f' hf' => h f' (List.mem_cons_of_mem f hf')
    exact ((h f (by simp)).glued (isMerged_singleton (.text separator))).glued hrest

/-- **Texts that meet become one part**, however a fragment is made. -/
theorem IsAssembled.isMerged {f : Fragment} (h : f.IsAssembled) : IsMerged f.parts := by
  induction h with
  | empty => exact List.isChain_nil
  | text s => exact isMerged_singleton (.text s)
  | addText _ s ih => exact ih.glued (isMerged_singleton (.text s))
  | addParam _ value ih => exact ih.glued (isMerged_singleton (.param value))
  | append _ _ ihf ihg => exact ihf.glued ihg
  | wrapped before after _ ih =>
    exact ((isMerged_singleton (.text before)).glued ih).glued (isMerged_singleton (.text after))
  | joined separator _ ih => exact isMerged_joined separator ih

/-! ### Parameters -/

/-- The parameters among parts. -/
def paramsOfParts (ps : List Part) : List Value :=
  ps.filterMap fun
    | .param value => some value
    | .text _ => none

/-- Gluing keeps the parameters in order. -/
theorem paramsOfParts_gluedParts (ps qs : List Part) :
    paramsOfParts (gluedParts ps qs) = paramsOfParts ps ++ paramsOfParts qs := by
  fun_induction gluedParts ps qs with
  | case1 qs => rfl
  | case2 a b qs => simp [paramsOfParts]
  | case3 p ps qs _ ih =>
    unfold paramsOfParts at ih ⊢
    rw [List.filterMap_cons, List.filterMap_cons, ih]
    cases p <;> rfl

@[simp] theorem params_empty : empty.params = [] := rfl

@[simp] theorem params_text (s : String) : (text s).params = [] := rfl

@[simp] theorem params_param (value : Value) : (param value).params = [value] := rfl

@[simp] theorem params_append (f g : Fragment) : (f ++ g).params = f.params ++ g.params :=
  paramsOfParts_gluedParts f.parts g.parts

@[simp] theorem params_wrapped (before after : String) (f : Fragment) :
    (f.wrapped before after).params = f.params := by
  simp [wrapped]

/-- The parameters of joined fragments follow each other. -/
theorem params_joined (separator : String) (fs : List Fragment) :
    (joined separator fs).params = fs.flatMap params := by
  fun_induction joined separator fs with
  | case1 => rfl
  | case2 f => simp
  | case3 f g rest ih => simp [ih]

/-! ### Texts -/

/-- What stands behind a prefix is numbered on from its parameters. -/
theorem sqlOfParts_gluedParts (index : Nat) (ps qs : List Part) :
    sqlOfParts index (gluedParts ps qs) =
      sqlOfParts index ps ++ sqlOfParts (index + (paramsOfParts ps).length) qs := by
  fun_induction gluedParts ps qs generalizing index with
  | case1 qs => simp [sqlOfParts, paramsOfParts]
  | case2 a b qs => simp [sqlOfParts, paramsOfParts, String.append_assoc]
  | case3 p ps qs _ ih =>
    cases p with
    | text s =>
      rw [sqlOfParts, sqlOfParts, ih, String.append_assoc]
      rfl
    | param value =>
      -- a parameter moves the numbers of those behind it by one
      have hlength : (paramsOfParts (.param value :: ps)).length =
          1 + (paramsOfParts ps).length := by
        simp [paramsOfParts, Nat.add_comm]
      rw [sqlOfParts, sqlOfParts, ih, String.append_assoc, hlength, Nat.add_assoc]

end Fragment

/-- A piece of the text of a statement. -/
inductive Piece where
  | text (text : String)
  | placeholder (number : Nat)
  deriving DecidableEq, Repr

namespace Piece

/-- How a piece is written. -/
def written : Piece → String
  | text s => s
  | placeholder number => Sql.placeholder number

/-- The number of a placeholder. -/
def number? : Piece → Option Nat
  | text _ => none
  | placeholder number => some number

/-- The piece behind `count` further parameters. -/
def raised (count : Nat) : Piece → Piece
  | text s => text s
  | placeholder number => placeholder (number + count)

end Piece

/-- How pieces are written, one after the other. -/
def writtenPieces : List Piece → String
  | [] => ""
  | piece :: rest => piece.written ++ writtenPieces rest

/-- The pieces of a list of parts, whose first parameter has the number `index`. -/
def piecesOfParts (index : Nat) : List Part → List Piece
  | [] => []
  | .text s :: rest => .text s :: piecesOfParts index rest
  | .param _ :: rest => .placeholder index :: piecesOfParts (index + 1) rest

/-- The pieces of a fragment, written out, are its text. -/
theorem writtenPieces_piecesOfParts (index : Nat) (ps : List Part) :
    writtenPieces (piecesOfParts index ps) = Fragment.sqlOfParts index ps := by
  fun_induction Fragment.sqlOfParts index ps with
  | case1 index => rfl
  | case2 index s rest ih => rw [piecesOfParts, writtenPieces, ih]; rfl
  | case3 index value rest ih => rw [piecesOfParts, writtenPieces, ih]; rfl

/-- Parameters in front raise all placeholders alike. -/
theorem piecesOfParts_add (index count : Nat) (ps : List Part) :
    piecesOfParts (index + count) ps = (piecesOfParts index ps).map (.raised count) := by
  fun_induction piecesOfParts index ps with
  | case1 index => rfl
  | case2 index s rest ih => rw [piecesOfParts, ih]; rfl
  | case3 index value rest ih =>
    rw [piecesOfParts, Nat.add_right_comm, ih]
    rfl

/-- Placeholders are numbered from left to right, without a gap. -/
theorem filterMap_number?_piecesOfParts (index : Nat) (ps : List Part) :
    (piecesOfParts index ps).filterMap Piece.number? =
      List.range' index (Fragment.paramsOfParts ps).length := by
  fun_induction piecesOfParts index ps with
  | case1 index => rfl
  | case2 index s rest ih => exact ih
  | case3 index value rest ih =>
    rw [List.filterMap_cons, ih]
    rfl

namespace Fragment

/-- The pieces of the text of a fragment that is rendered. -/
def pieces (f : Fragment) : List Piece := piecesOfParts 1 f.parts

/-- The text of a fragment that is rendered behind others with `count` parameters. -/
def sqlBehind (f : Fragment) (count : Nat) : String := writtenPieces (f.pieces.map (.raised count))

theorem sqlBehind_eq (f : Fragment) (count : Nat) :
    f.sqlBehind count = sqlOfParts (1 + count) f.parts := by
  rw [sqlBehind, pieces, ← piecesOfParts_add, writtenPieces_piecesOfParts]

theorem sql_render (f : Fragment) : f.render.sql = writtenPieces f.pieces :=
  (writtenPieces_piecesOfParts 1 f.parts).symm

theorem sqlBehind_zero (f : Fragment) : f.sqlBehind 0 = f.render.sql := sqlBehind_eq f 0

/-- A fragment on its own is numbered from one. -/
theorem render_eq (f : Fragment) : f.render = ⟨f.sqlBehind 0, f.params⟩ := by
  rw [sqlBehind_zero]
  rfl

theorem sqlBehind_text (s : String) (count : Nat) : (text s).sqlBehind count = s :=
  String.append_empty

/-- **The placeholders of the second fragment are raised by the parameters of the first.** -/
theorem sqlBehind_append (f g : Fragment) (count : Nat) :
    (f ++ g).sqlBehind count = f.sqlBehind count ++ g.sqlBehind (count + f.params.length) := by
  rw [sqlBehind_eq, sqlBehind_eq, sqlBehind_eq, parts_append, sqlOfParts_gluedParts, Nat.add_assoc]
  rfl

/-- Text around a fragment leaves its numbers as they are. -/
theorem sqlBehind_wrapped (before after : String) (f : Fragment) (count : Nat) :
    (f.wrapped before after).sqlBehind count = before ++ f.sqlBehind count ++ after := by
  rw [wrapped, sqlBehind_append, sqlBehind_append, sqlBehind_text, sqlBehind_text, params_text]
  rfl

/-- Each of the joined fragments is raised by the parameters of all before it. -/
theorem sqlBehind_joined (separator : String) (fs : List Fragment) (count : Nat) :
    (joined separator fs).sqlBehind count =
      separator.intercalate
        (fs.mapIdx fun i f => f.sqlBehind (count + ((fs.take i).flatMap params).length)) := by
  fun_induction joined separator fs generalizing count with
  | case1 => rfl
  | case2 f => rfl
  | case3 f g rest ih =>
    -- behind the first fragment all are raised by its parameters as well
    have hraised : ∀ i, count + (((f :: g :: rest).take (i + 1)).flatMap params).length =
        count + (f ++ text separator).params.length +
          (((g :: rest).take i).flatMap params).length := by
      intro i
      simp [Nat.add_assoc]
    rw [List.mapIdx_cons]
    simp only [hraised]
    rw [sqlBehind_append, sqlBehind_append, sqlBehind_text, ih, List.mapIdx_cons,
      String.intercalate_cons_cons]
    rfl

/-! ### The laws -/

/-- **Fragments are put together as texts are.** Texts that meet in an assembled fragment are one
part, so appending is adding part after part; it is associative, and the empty fragment changes
nothing. What is rendered are the texts of the fragments, one after the other, with the placeholders
of each raised by the parameters of those before it. -/
theorem fragments_concatenate {f g : Fragment} (hf : f.IsAssembled) (hg : g.IsAssembled)
    (h : Fragment) (fs : List Fragment) (before after separator : String) :
    IsMerged f.parts ∧
    (f ++ g).parts = g.parts.foldl addPart f.parts ∧
    f ++ g ++ h = f ++ (g ++ h) ∧ empty ++ f = f ∧ f ++ empty = f ∧
    f.render.sql = writtenPieces f.pieces ∧
    f.pieces.filterMap Piece.number? = List.range' 1 f.params.length ∧
    (f ++ g).render = ⟨f.render.sql ++ g.sqlBehind f.params.length, f.params ++ g.params⟩ ∧
    (f.wrapped before after).render = ⟨before ++ f.render.sql ++ after, f.params⟩ ∧
    (joined separator fs).render = ⟨separator.intercalate
      (fs.mapIdx fun i f => f.sqlBehind ((fs.take i).flatMap params).length),
        fs.flatMap params⟩ := by
  refine ⟨hf.isMerged, gluedParts_eq_foldl hg.isMerged f.parts, append_assoc f g h, empty_append f,
    append_empty f, sql_render f, filterMap_number?_piecesOfParts 1 f.parts, ?_, ?_, ?_⟩
  · rw [render_eq, sqlBehind_append, sqlBehind_zero, Nat.zero_add, params_append]
  · rw [render_eq, sqlBehind_wrapped, sqlBehind_zero, params_wrapped]
  · rw [render_eq, sqlBehind_joined, params_joined]
    simp only [Nat.zero_add]

theorem fragments_concatenate_two_conditions :
    let f := text "\"a\" = " ++ param (.int 1) ++ text ""
    let g := (text "\"b\" = " ++ param (.int 2)).wrapped " and (" ")"
    f.IsAssembled ∧ g.IsAssembled ∧
      (f ++ g).parts = [.text "\"a\" = ", .param (.int 1), .text " and (\"b\" = ", .param (.int 2),
        .text ")"] ∧
      (f ++ g).render = ⟨"\"a\" = $1 and (\"b\" = $2)", [.int 1, .int 2]⟩ ∧
      (joined ", " [f, g, f]).render =
        ⟨"\"a\" = $1,  and (\"b\" = $2), \"a\" = $3", [.int 1, .int 2, .int 1]⟩ := by
  intro f g
  have hf : f.IsAssembled := ((IsAssembled.text _).addParam _).addText _
  have hg : g.IsAssembled := ((IsAssembled.text _).addParam _).wrapped _ _
  obtain ⟨-, hparts, -, -, -, -, -, happend, -, hjoined⟩ :=
    fragments_concatenate hf hg .empty [f, g, f] "(" ")" ", "
  exact ⟨hf, hg, hparts.trans (by decide +kernel), happend.trans (by decide +kernel),
    hjoined.trans (by decide +kernel)⟩

end Fragment

end LinkQuery.Sql

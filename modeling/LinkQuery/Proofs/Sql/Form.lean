import LinkQuery.Proofs.Naturality
import LinkQuery.Proofs.Sql.Lexing

/-!
# The text of a statement without its operands

A statement refers to its parameters by number, so its text does not tell their values: pieces that
differ in these alone are written alike. What is left of a condition without its operands is its
*form*, and the text of a statement goes by the forms of its conditions.

* `Fragment.SameText` says of two fragments that they are written alike, and
  `Fragment.SameText.append` that this is kept when they are put together.
* `Condition.form` is the form of a condition: one operand stands for all.
* `SelectStatement.sql_render_congr`: statements whose conditions have one form have one text.
-/

namespace LinkQuery.Sql

open Json (Value)

/-! ### Fragments -/

namespace Fragment

/-- Two fragments are written alike, from whatever number their parameters are numbered, and with as
many parameters, so that what follows is numbered alike as well. -/
structure SameText (f g : Fragment) : Prop where
  chars_eq : ∀ index, f.chars index = g.chars index
  length_eq : f.params.length = g.params.length

namespace SameText

variable {f f' g g' : Fragment}

protected theorem refl (f : Fragment) : f.SameText f := ⟨fun _ => rfl, rfl⟩

protected theorem symm (h : f.SameText g) : g.SameText f :=
  ⟨fun index => (h.chars_eq index).symm, h.length_eq.symm⟩

protected theorem trans {k : Fragment} (h : f.SameText g) (h' : g.SameText k) : f.SameText k :=
  ⟨fun index => (h.chars_eq index).trans (h'.chars_eq index), h.length_eq.trans h'.length_eq⟩

/-- **A parameter is written by its number alone.** -/
theorem param (value value' : Value) : (param value).SameText (.param value') :=
  ⟨fun index => by rw [chars_param, chars_param], rfl⟩

/-- Fragments of the same text can be put side by side. -/
theorem append (h : f.SameText f') (h' : g.SameText g') : (f ++ g).SameText (f' ++ g') where
  chars_eq index := by
    rw [chars_append, chars_append, h.chars_eq, h.length_eq, h'.chars_eq]
  length_eq := by
    rw [params_append, params_append, List.length_append, List.length_append, h.length_eq,
      h'.length_eq]

/-- The same text around both keeps their texts the same. -/
theorem wrapped (before after : String) (h : f.SameText g) :
    (f.wrapped before after).SameText (g.wrapped before after) :=
  ((SameText.refl _).append h).append (.refl _)

/-- Lists of fragments are joined to the same text when the fragments have the same texts. -/
theorem joined (separator : String) {fs gs : List Fragment} (h : List.Forall₂ SameText fs gs) :
    (joined separator fs).SameText (.joined separator gs) := by
  induction h with
  | nil => exact .refl _
  | @cons f g fs gs hfirst hrest ih =>
    cases hrest with
    | nil => exact hfirst
    | cons _ _ => exact (hfirst.append (.refl _)).append ih

/-- Rendered, two such fragments give one SQL text. -/
theorem sql_eq (h : f.SameText g) : f.render.sql = g.render.sql :=
  String.toList_injective (h.chars_eq 1)

end SameText

end Fragment

/-! ### Conditions -/

namespace Condition

/-- The form of a condition on a column. -/
def atomForm : Atom → Atom
  | .compare column asText op _ castTo => .compare column asText op .null castTo
  | .like column asText _ => .like column asText ""
  | .isNull column => .isNull column
  | .isNotNull column => .isNotNull column

mutual

/-- The form of a condition. -/
def form : Condition → Condition
  | atom a => atom (atomForm a)
  | group negated joiner members => group negated joiner (membersForm members)

/-- The forms of conditions. -/
def membersForm : List Condition → List Condition
  | [] => []
  | c :: rest => form c :: membersForm rest

end

theorem membersForm_eq_map (cs : List Condition) : membersForm cs = cs.map form := by
  induction cs with
  | nil => rfl
  | cons c rest ih => rw [membersForm, ih, List.map_cons]

/-- The form of a combination is the combination of the forms. -/
theorem form_group (negated : Bool) (joiner : Joiner) (members : List Condition) :
    (group negated joiner members).form = group negated joiner (members.map form) := by
  rw [form, membersForm_eq_map]

/-- A test and its form differ only in the operand that is bound. -/
theorem sameText_atomForm (a : Atom) : a.fragment.SameText (atomForm a).fragment := by
  match a with
  | .compare _ _ _ value none => exact .append (.refl _) (.param value .null)
  | .compare _ _ _ value (some _) =>
    -- the type that is cast to is text, which is the same in both
    exact .append (.append (.refl _) (.param value .null)) (.refl _)
  | .like _ _ pattern => exact .append (.refl _) (.param (.text pattern) (.text ""))
  | .isNull _ | .isNotNull _ => exact .refl _

mutual

/-- A condition is written as its form is. -/
theorem sameText_form (c : Condition) : c.fragment.SameText c.form.fragment := by
  match c with
  | .atom a =>
    rw [form, fragment, fragment]
    exact sameText_atomForm a
  | .group negated joiner members =>
    rw [form, fragment, fragment]
    exact (Fragment.SameText.joined _ (sameText_membersForm members)).wrapped _ _

/-- So is each member of a combination. -/
theorem sameText_membersForm (cs : List Condition) :
    List.Forall₂ Fragment.SameText (fragments cs) (fragments (membersForm cs)) := by
  match cs with
  | [] => exact .nil
  | c :: rest =>
    rw [membersForm, fragments, fragments]
    exact .cons (sameText_form c) (sameText_membersForm rest)

end

end Condition

/-! ### Selects -/

namespace Select

/-- The form of a condition is written like the condition, with or without a correlation. -/
theorem sameText_whereFragment (correlation : Option Correlation) (condition : Option Condition) :
    (whereFragment correlation condition).SameText
      (whereFragment correlation (condition.map .form)) := by
  -- the correlation has no operand, so only the condition changes
  cases condition with
  | none => exact .refl _
  | some c =>
    have hform := c.sameText_form
    cases correlation with
    | none => exact .append (.refl _) hform
    | some correlation => exact .append (.refl _) (.append (.refl _) hform)

mutual

/-- A select is written as it is with the forms of its conditions. -/
theorem sameText_mapConditions (s : Select) :
    s.fragment.SameText (s.mapConditions .form).fragment := by
  match s with
  | .level columns links table asName correlation condition =>
    rw [mapConditions, fragment, fragment]
    refine .append (.append (.append (.refl _) ?_) (.refl _)) ?_
    · exact sameText_linksMapConditions links
    · exact sameText_whereFragment correlation condition
  | .whereLinked inner link =>
    rw [mapConditions, fragment, fragment]
    exact (sameText_mapConditions inner).wrapped _ _

/-- The same holds of the subqueries of all links. -/
theorem sameText_linksMapConditions (links : List (String × Bool × Select)) :
    (linkFragments links).SameText (linkFragments (linksMapConditions .form links)) := by
  match links with
  | [] =>
    rw [linksMapConditions]
    exact .refl _
  | (name, demanded, inner) :: rest =>
    rw [linksMapConditions, linkFragments, linkFragments]
    refine .append (.append (.append (.refl _) ?_) (.refl _)) ?_
    · exact (sameText_mapConditions inner).wrapped _ _
    · exact sameText_linksMapConditions rest

end

end Select

/-! ### Statements -/

namespace SelectStatement

/-- **The text of a statement goes by the forms of its conditions.** -/
theorem sql_render_congr {s s' : SelectStatement}
    (h : s'.mapConditions .form = s.mapConditions .form) : s'.render.sql = s.render.sql := by
  have hform (s : SelectStatement) : s.fragment.SameText (s.mapConditions .form).fragment :=
    .append (.append s.select.sameText_mapConditions (.refl _)) (.refl _)
  -- both are written as their one form
  have hs' := hform s'
  rw [h] at hs'
  exact (hs'.trans (hform s).symm).sql_eq

end SelectStatement

end LinkQuery.Sql

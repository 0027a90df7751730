import LinkQuery.Filter.Compile
import LinkQuery.Proofs.Sql.Fragment
import LinkQuery.Proofs.Sql.Identifier
import LinkQuery.Sql.Select

/-!
# The tokens of what is written

Every piece of a statement is made of the tokens that it is meant to be made of: `Condition.tokens`
and `Select.tokens` list them along the tree, with the values of the parameters in their places, and
the text of the piece is read as exactly these tokens, however its parameters are numbered.

* `Fragment.Lexes f ts` says so of a fragment `f` and tokens `ts`. It is kept by every way to put
  fragments together, since all seams are at blanks and punctuation marks (`Lexes.append`).
* `Fragment.Lexes.tokens?_render`: the finished statement is read as these tokens.
* `SelectStatement.lexes` is the law for whole statements. The one text that is written as it is
  given is the name of a type, so the law asks that these names are plain (`Atom.PlainCast`).
-/

namespace LinkQuery.Sql

open Json (Value)

/-! ### Texts of fragments -/

namespace Fragment

/-- The characters of a fragment whose first parameter has the number `index`. -/
def chars (f : Fragment) (index : Nat) : List Char := (sqlOfParts index f.parts).toList

@[simp] theorem chars_empty (index : Nat) : empty.chars index = [] := rfl

@[simp] theorem chars_text (s : String) (index : Nat) : (text s).chars index = s.toList := by
  simp [chars, sqlOfParts]

@[simp] theorem chars_param (value : Value) (index : Nat) :
    (param value).chars index = (placeholder index).toList := by
  simp [chars, sqlOfParts]

/-- The numbers of a fragment go on where those of the one before it end. -/
theorem chars_append (f g : Fragment) (index : Nat) :
    (f ++ g).chars index = f.chars index ++ g.chars (index + f.params.length) := by
  unfold chars
  rw [parts_append, sqlOfParts_gluedParts, String.toList_append]
  rfl

/-! ### Seams -/

/-- A fragment starts apart from whatever stands before it. -/
def StartsApart (f : Fragment) : Prop := ∀ index, Sql.StartsApart (f.chars index)

/-- A fragment ends apart from whatever stands behind it. -/
def EndsApart (f : Fragment) : Prop := ∀ index, Sql.EndsApart (f.chars index)

/-- Whether a text starts with a blank or a punctuation mark. -/
def startsApart (s : String) : Bool := (s.toList.head?.map isSeparator).getD false

/-- Whether a text ends with a blank or a punctuation mark. -/
def endsApart (s : String) : Bool := (s.toList.getLast?.map isSeparator).getD false

theorem startsApart_empty : empty.StartsApart := fun _ c hc => by simp at hc

/-- What a text without parameters starts with does not depend on any number. -/
theorem startsApart_text {s : String} (h : startsApart s) : (text s).StartsApart := by
  intro index c hc
  rw [chars_text, Option.mem_def] at hc
  simpa [startsApart, hc] using h

/-- A fragment may be empty, and then the next one is what stands first. -/
theorem StartsApart.append {f g : Fragment} (hf : f.StartsApart) (hg : g.StartsApart) :
    (f ++ g).StartsApart := by
  intro index c hc
  rw [chars_append, List.head?_append, Option.mem_def, Option.or_eq_some_iff] at hc
  -- the first character is that of the first fragment that has one
  rcases hc with hc | ⟨-, hc⟩
  · exact hf index c hc
  · exact hg _ c hc

theorem startsApart_append {a : String} (h : startsApart a) (b : String) :
    startsApart (a ++ b) := by
  unfold startsApart at h ⊢
  cases ha : a.toList with
  | nil => simp [ha] at h
  | cons c cs => simpa [ha] using h

/-- A text that starts apart is not empty, so whatever follows it is not seen. -/
theorem startsApart_text_append {s : String} (h : startsApart s) (g : Fragment) :
    (text s ++ g).StartsApart := by
  intro index c hc
  rw [chars_append, chars_text] at hc
  cases hs : s.toList with
  | nil => simp [startsApart, hs] at h
  | cons d ds =>
    obtain rfl : d = c := by simpa [hs] using hc
    simpa [startsApart, hs] using h

theorem endsApart_text {s : String} (h : endsApart s) : (text s).EndsApart := by
  intro index c hc
  rw [chars_text, Option.mem_def] at hc
  simpa [endsApart, hc] using h

theorem endsApart_append (a : String) {b : String} (h : endsApart b) : endsApart (a ++ b) := by
  unfold endsApart at h ⊢
  cases hb : b.toList.getLast? with
  | none => simp [hb] at h
  | some c => simpa [hb] using h

/-- So it is with the end. -/
theorem endsApart_append_text (f : Fragment) {s : String} (h : endsApart s) :
    (f ++ text s).EndsApart := by
  intro index c hc
  rw [chars_append, chars_text, List.getLast?_append] at hc
  cases hs : s.toList.getLast? with
  | none => simp [endsApart, hs] at h
  | some d =>
    obtain rfl : d = c := by simpa [hs] using hc
    simpa [endsApart, hs] using h

/-! ### Fragments made of tokens -/

/-- The text of a fragment is made of the given tokens, however its parameters are numbered. -/
structure Lexes (f : Fragment) (ts : List (Token Value)) : Prop where
  lex_chars : ∀ index, lex (f.chars index) = some (number index ts)
  params_eq : f.params = paramsOf ts

theorem lexes_empty : empty.Lexes [] := ⟨fun _ => rfl, rfl⟩

/-- A parameter is one token, whatever its number. -/
theorem lexes_param (value : Value) : (param value).Lexes [.param value] :=
  ⟨fun index => by rw [chars_param, lex_placeholder]; rfl, rfl⟩

/-- A text without parameters is made of the tokens that it is read as. -/
theorem lexes_text {s : String} {ts : List (Token Value)} (hparams : paramsOf ts = [])
    (h : lex s.toList = some (ts.map (Token.replace 0))) : (text s).Lexes ts :=
  ⟨fun index => by rw [chars_text, h, number_eq_map hparams], hparams.symm⟩

/-- A name in quotes is one token, whatever is in it. -/
theorem lexes_quote (name : String) : (text (quote name)).Lexes [.name name] := by
  refine lexes_text rfl ?_
  rw [lex_quote]
  rfl

/-- **Two fragments one after the other are made of the tokens of both**, if one of them keeps apart
where they meet. -/
theorem Lexes.append {f g : Fragment} {ts us : List (Token Value)}
    (h : f.EndsApart ∨ g.StartsApart) (hf : f.Lexes ts) (hg : g.Lexes us) :
    (f ++ g).Lexes (ts ++ us) := by
  refine ⟨fun index => ?_, ?_⟩
  · -- the numbers of the second fragment go on where those of the first one end
    rw [chars_append, number_append, ← hf.params_eq]
    exact lex_append (h.imp (fun h => h _) fun h => h _) (hf.lex_chars _) (hg.lex_chars _)
  · rw [params_append, paramsOf_append, hf.params_eq, hg.params_eq]

/-- Two texts one after the other. -/
theorem Lexes.appendText {a b : String} {ts us : List (Token Value)}
    (h : endsApart a ∨ startsApart b) (ha : (text a).Lexes ts) (hb : (text b).Lexes us) :
    (text (a ++ b)).Lexes (ts ++ us) := by
  rw [← text_append_text]
  exact .append (h.imp endsApart_text startsApart_text) ha hb

/-- Fragments between a mark that starts apart and ends apart, one like the other. -/
theorem Lexes.joined {separator : String} {mark : List (Token Value)}
    (hstart : startsApart separator) (hend : endsApart separator)
    (hmark : (text separator).Lexes mark) {fs : List Fragment} {tss : List (List (Token Value))}
    (h : List.Forall₂ Lexes fs tss) :
    (Fragment.joined separator fs).Lexes (mark.intercalate tss) := by
  induction h with
  | nil => exact lexes_empty
  | @cons f ts fs tss hf hrest ih =>
    cases hrest with
    | nil => simpa [Fragment.joined] using hf
    | @cons g us fs tss hg hrest =>
      -- both seams are those of the separator
      rw [Fragment.joined, List.intercalate_cons_cons]
      refine Lexes.append (.inl (endsApart_append_text f hend)) ?_ ih
      exact Lexes.append (.inr (startsApart_text hstart)) hf hmark

/-- The tokens of a fragment that stands in a statement, with the values of their parameters, where
`before` and `behind` are the parameters of what stands around it. -/
def tokensIn? (f : Fragment) (before behind : List Value) : Option (List (Token Value)) :=
  (lex (f.chars (before.length + 1))).bind (bindAll (before ++ f.params ++ behind))

/-- **A fragment is read as its tokens**, wherever it stands in a statement. -/
theorem Lexes.tokensIn?_eq {f : Fragment} {ts : List (Token Value)} (h : f.Lexes ts)
    (before behind : List Value) : f.tokensIn? before behind = some ts := by
  unfold tokensIn?
  rw [h.lex_chars, h.params_eq]
  exact bindAll_number before behind ts

end Fragment

/-- The tokens of a statement, with the values of its parameters. -/
def Statement.tokens? (s : Statement) : Option (List (Token Value)) :=
  (lex s.sql.toList).bind (bindAll s.params)

/-- A finished statement is read as its tokens. -/
theorem Fragment.Lexes.tokens?_render {f : Fragment} {ts : List (Token Value)} (h : f.Lexes ts) :
    f.render.tokens? = some ts := by
  -- a whole statement stands between no other parameters
  have htokens := h.tokensIn?_eq [] []
  unfold tokensIn? at htokens
  rw [List.nil_append, List.append_nil] at htokens
  exact htokens

end LinkQuery.Sql

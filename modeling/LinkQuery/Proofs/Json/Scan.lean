import LinkQuery.Proofs.Json.Literal

/-!
# Scanning what was written

The characters of a value, written without blanks, are cut into the tokens of the value.

* `Value.tokens` are the tokens of a value.
* `Reads cs ts` says that the scanner finds `ts` in `cs`, whatever it has found before and whatever
  follows, except that a number or word ends only where no character of a word follows.
* `Value.reads_chars`: a value is read as its tokens.
-/

namespace LinkQuery.Json

/-! ### Scanning -/

/-- The tokens found once the rest of a text is scanned, behind those already found. -/
def scan (found : List Token) (cs : List Char) : Option (List Token) :=
  (cs.foldlM Scanner.step ⟨found, .between⟩).bind (·.finish)

/-- A number or word may end in front of these characters. -/
def EndsWord (cs : List Char) : Prop := ∀ c ∈ cs.head?, isWordChar c = false

/-- The scanner finds the given tokens in the given characters. -/
def Reads (cs : List Char) (ts : List Token) : Prop :=
  ∀ found rest, EndsWord rest → scan found (cs ++ rest) = scan (ts.reverse ++ found) rest

/-- A text that is read as the tokens has them as its tokens. -/
theorem tokens?_of_reads {cs : List Char} {ts : List Token} (h : Reads cs ts) :
    tokens? (cs.map some) = some ts := by
  have hend := h [] [] (by simp [EndsWord])
  rw [List.append_nil, List.append_nil] at hend
  calc tokens? (cs.map some)
      = scan [] cs := tokens?_map_some cs
    _ = some ts.reverse.reverse := hend
    _ = some ts := by rw [List.reverse_reverse]

theorem EndsWord.append {cs ds : List Char} (hc : EndsWord cs) (hd : EndsWord ds) :
    EndsWord (cs ++ ds) := by
  cases cs with
  | nil => exact hd
  | cons c cs => exact hc

namespace Reads

variable {cs ds : List Char} {ts us : List Token}

theorem nil : Reads [] [] := fun _ _ _ => rfl

/-- Two texts are read one after the other when the second ends any word of the first. -/
theorem append (hcs : Reads cs ts) (hends : EndsWord ds) (hds : Reads ds us) :
    Reads (cs ++ ds) (ts ++ us) := by
  intro found rest hrest
  rw [List.append_assoc, hcs found (ds ++ rest) (hends.append hrest), hds _ rest hrest,
    List.reverse_append, List.append_assoc]

theorem scan_cons {found found' : List Token} {c : Char} (rest : List Char)
    (h : Scanner.stepBetween found c = some ⟨found', .between⟩) :
    scan found (c :: rest) = scan found' rest := by
  unfold scan
  rw [List.foldlM_cons]
  have hstep : Scanner.step ⟨found, .between⟩ c = some ⟨found', .between⟩ := h
  rw [hstep]
  rfl

/-- A punctuation mark is a token of its own. -/
theorem stepBetween_punctuation {c : Char} {t : Token} (h : punctuation? c = some t)
    (found : List Token) : Scanner.stepBetween found c = some ⟨t :: found, .between⟩ := by
  have hc : c = '[' ∨ c = ']' ∨ c = '\x7b' ∨ c = '\x7d' ∨ c = ',' ∨ c = ':' := by
    unfold punctuation? at h
    repeat' split at h
    all_goals simp_all
  unfold Scanner.stepBetween
  rw [h]
  rcases hc with rfl | rfl | rfl | rfl | rfl | rfl <;> rfl

/-- A bracket, brace, comma or colon is a token of its own, whatever follows. -/
theorem punctuation {c : Char} {t : Token} (h : punctuation? c = some t) (hcs : Reads cs ts) :
    Reads (c :: cs) (t :: ts) := by
  intro found rest hrest
  rw [List.cons_append, scan_cons _ (stepBetween_punctuation h found), hcs _ rest hrest,
    List.reverse_cons, List.append_assoc]
  rfl

/-! ### Words -/

/-- The characters of a word are collected. -/
theorem foldlM_word {found : List Token} {read : List Char} (h : ∀ c ∈ cs, isWordChar c) :
    cs.foldlM Scanner.step ⟨found, .word read⟩ = some ⟨found, .word (cs.reverse ++ read)⟩ := by
  induction cs generalizing read with
  | nil => rfl
  | cons c cs ih =>
    have hc : isWordChar c = true := h c List.mem_cons_self
    have hstep : Scanner.step ⟨found, .word read⟩ c = some ⟨found, .word (c :: read)⟩ := by
      simp [Scanner.step, hc]
    rw [List.foldlM_cons, hstep]
    show cs.foldlM Scanner.step _ = _
    rw [ih fun d hd => h d (List.mem_cons_of_mem c hd), List.reverse_cons, List.append_assoc]
    rfl

/-- The first character of a word is no blank and opens no text. -/
theorem stepBetween_word {c : Char} (h : isWordChar c) (found : List Token) :
    Scanner.stepBetween found c = some ⟨found, .word [c]⟩ := by
  have hspace : isSpace c = false := by
    refine Bool.eq_false_iff.2 fun hspace => ?_
    simp only [isSpace, Bool.or_eq_true, decide_eq_true_eq] at hspace
    rcases hspace with ((rfl | rfl) | rfl) | rfl <;> (revert h; decide)
  have hquote : c ≠ '"' := by
    rintro rfl
    revert h
    decide
  simp [Scanner.stepBetween, hspace, hquote, h]

/-- A word is read as its token. -/
theorem word {t : Token} (hword : word? cs = some t) (hchars : ∀ c ∈ cs, isWordChar c)
    (hne : cs ≠ []) : Reads cs [t] := by
  intro found rest hrest
  obtain ⟨c, cs, rfl⟩ := List.exists_cons_of_ne_nil hne
  have hc : isWordChar c := hchars c List.mem_cons_self
  -- the scanner is in the middle of the word
  have hmiddle : (c :: cs).foldlM Scanner.step ⟨found, .between⟩ =
      some ⟨found, .word (c :: cs).reverse⟩ := by
    have hstep : Scanner.step ⟨found, .between⟩ c = some ⟨found, .word [c]⟩ :=
      stepBetween_word hc found
    rw [List.foldlM_cons, hstep]
    show cs.foldlM Scanner.step _ = _
    rw [foldlM_word fun d hd => hchars d (List.mem_cons_of_mem c hd), List.reverse_cons]
  unfold scan
  rw [List.foldlM_append, hmiddle]
  show (rest.foldlM Scanner.step ⟨found, .word (c :: cs).reverse⟩).bind _ = _
  cases rest with
  | nil =>
    show ((word? (c :: cs).reverse.reverse).map fun token => (token :: found).reverse) = _
    rw [List.reverse_reverse, hword]
    rfl
  | cons d rest =>
    -- the next character ends it
    have hd : isWordChar d = false := hrest d rfl
    have hstep : Scanner.step ⟨found, .word (c :: cs).reverse⟩ d =
        Scanner.stepBetween (t :: found) d := by
      simp only [Scanner.step, hd, List.reverse_reverse, hword]
      rfl
    rw [List.foldlM_cons, hstep]
    rfl

end Reads

/-! ### Texts -/

/-- A hexadecimal digit has its value. -/
theorem hexDigit?_digitChar {n : Nat} (h : n < 16) : hexDigit? (Nat.digitChar n) = some n := by
  have hall : ∀ i : Fin 16, hexDigit? (Nat.digitChar i) = some i.val := by decide
  exact hall ⟨n, h⟩

/-- A unit that is no half of a surrogate pair is a character. -/
theorem assemble_unit {c : Char} (h : c.toNat < 0x20) (rest : List Piece) :
    Piece.assemble (.unit c.toNat :: rest) = (Piece.assemble rest).map (c :: ·) := by
  have hhigh : Piece.isHigh c.toNat = false := by
    simp only [Piece.isHigh, Bool.and_eq_false_iff, decide_eq_false_iff_not]
    omega
  have hlow : Piece.isLow c.toNat = false := by
    simp only [Piece.isLow, Bool.and_eq_false_iff, decide_eq_false_iff_not]
    omega
  rw [Piece.assemble.eq_def]
  simp [hhigh, hlow]

/-- A character of a text is read as one piece, which is this character. -/
theorem exists_piece (c : Char) (found : List Token) (pieces : List Piece) :
    ∃ piece, (escapedChar c).foldlM Scanner.step ⟨found, .text pieces⟩ =
        some ⟨found, .text (piece :: pieces)⟩ ∧
      ∀ rest, Piece.assemble (piece :: rest) = (Piece.assemble rest).map (c :: ·) := by
  unfold escapedChar
  split
  next h => exact ⟨.char c, by rw [h]; rfl, fun rest => rfl⟩
  split
  next h => exact ⟨.char c, by rw [h]; rfl, fun rest => rfl⟩
  split
  next h => exact ⟨.char c, by rw [h]; rfl, fun rest => rfl⟩
  split
  next h => exact ⟨.char c, by rw [h]; rfl, fun rest => rfl⟩
  split
  next h => exact ⟨.char c, by rw [h]; rfl, fun rest => rfl⟩
  split
  next h => exact ⟨.char c, by rw [h]; rfl, fun rest => rfl⟩
  split
  next h => exact ⟨.char c, by rw [h]; rfl, fun rest => rfl⟩
  split
  next hcontrol =>
    -- four digits, of which the last two give the character
    refine ⟨.unit c.toNat, ?_, assemble_unit hcontrol⟩
    have hjoin : c.toNat / 16 * 16 + c.toNat % 16 = c.toNat := by omega
    have hfirst := hexDigit?_digitChar (n := c.toNat / 16) (by omega)
    have hsecond := hexDigit?_digitChar (n := c.toNat % 16) (by omega)
    have hzero : hexDigit? '0' = some 0 := rfl
    simp [Scanner.step, hzero, hfirst, hsecond, hjoin]
  next hquote hslash _ _ _ _ _ hcontrol =>
    exact ⟨.char c, by simp [Scanner.step, hquote, hslash, hcontrol], fun rest => rfl⟩

/-- The characters of a text, escaped or not, are read as pieces that give them back. -/
theorem exists_pieces (cs : List Char) (found : List Token) (before : List Piece) :
    ∃ pieces, (cs.flatMap escapedChar).foldlM Scanner.step ⟨found, .text before⟩ =
        some ⟨found, .text (pieces.reverse ++ before)⟩ ∧ Piece.assemble pieces = some cs := by
  induction cs generalizing before with
  | nil => exact ⟨[], rfl, rfl⟩
  | cons c cs ih =>
    obtain ⟨piece, hpiece, hfirst⟩ := exists_piece c found before
    obtain ⟨pieces, hpieces, hrest⟩ := ih (piece :: before)
    refine ⟨piece :: pieces, ?_, by rw [hfirst, hrest]; rfl⟩
    rw [List.flatMap_cons, List.foldlM_append, hpiece, List.reverse_cons, List.append_assoc]
    exact hpieces

/-- A text in quotes is read as one token. -/
theorem Reads.text {cs : List Char} {ts : List Token} (s : String) (hcs : Reads cs ts) :
    Reads (textChars s ++ cs) (.text (some s) :: ts) := by
  intro found rest hrest
  obtain ⟨pieces, hpieces, hassemble⟩ := exists_pieces s.toList found []
  rw [List.append_nil] at hpieces
  -- what stands between the quotes, and the closing quote
  have htext : (textChars s).foldlM Scanner.step ⟨found, .between⟩ =
      some ⟨.text (some s) :: found, .between⟩ := by
    have hopen : Scanner.step ⟨found, .between⟩ '"' = some ⟨found, .text []⟩ := rfl
    have hclose : Scanner.step ⟨found, .text pieces.reverse⟩ '"' =
        some ⟨.text (some s) :: found, .between⟩ := by
      simp [Scanner.step, hassemble]
    rw [textChars, List.cons_append, List.foldlM_cons, hopen]
    show (s.toList.flatMap escapedChar ++ ['"']).foldlM Scanner.step _ = _
    rw [List.foldlM_append, hpieces, Option.bind_eq_bind, Option.bind_some, List.foldlM_cons,
      hclose]
    rfl
  have hscan : scan found (textChars s ++ (cs ++ rest)) =
      scan (.text (some s) :: found) (cs ++ rest) := by
    unfold scan
    rw [List.foldlM_append, htext]
    rfl
  rw [List.append_assoc, hscan, hcs _ rest hrest, List.reverse_cons, List.append_assoc]
  rfl

/-! ### Values -/

namespace Value

mutual

/-- The tokens of a value. -/
def tokens : Value → List Token
  | null => [.scalar .null]
  | bool b => [.scalar (.bool b)]
  | int i => [.scalar (intDocument i)]
  | float x => [.scalar (.real x.reread?)]
  | text s => [.text (some s)]
  | array [] => [.openList, .closeList]
  | array (v :: vs) => .openList :: (tokens v ++ (itemsTokens vs ++ [.closeList]))
  | object [] => [.openTable, .closeTable]
  | object ((n, v) :: ms) =>
    .openTable :: .text (some n) :: .colon :: (tokens v ++ (membersTokens ms ++ [.closeTable]))

/-- The tokens of the items of an array after the first. -/
def itemsTokens : List Value → List Token
  | [] => []
  | v :: vs => .comma :: (tokens v ++ itemsTokens vs)

/-- The tokens of the members of an object after the first. -/
def membersTokens : List (String × Value) → List Token
  | [] => []
  | (n, v) :: ms => .comma :: .text (some n) :: .colon :: (tokens v ++ membersTokens ms)

end

theorem endsWord_itemsChars (vs : List Value) : EndsWord (itemsChars vs) := by
  cases vs with
  | nil => simp [itemsChars, EndsWord]
  | cons v vs => rw [itemsChars]; simp [EndsWord, isWordChar]

theorem endsWord_membersChars (ms : List (String × Value)) : EndsWord (membersChars ms) := by
  cases ms with
  | nil => simp [membersChars, EndsWord]
  | cons m ms => rw [membersChars]; simp [EndsWord, isWordChar]

mutual

/-- **A value is read as its tokens.** -/
theorem reads_chars (v : Value) : Reads v.chars v.tokens := by
  match v with
  | null => exact .word rfl (List.all_eq_true.1 rfl) (by decide)
  | bool true => exact .word rfl (List.all_eq_true.1 rfl) (by decide)
  | bool false => exact .word rfl (List.all_eq_true.1 rfl) (by decide)
  | int i =>
    obtain ⟨l, hread, -⟩ := Literal.exists_intChars i
    exact .word (word?_intChars i) (fun c => Literal.isWordChar_of_ofChars? hread)
      (Literal.ne_nil_of_ofChars? hread)
  | float x =>
    obtain ⟨l, hread, -⟩ := Literal.exists_floatChars x
    exact .word (word?_floatChars x) (fun c => Literal.isWordChar_of_ofChars? hread)
      (Literal.ne_nil_of_ofChars? hread)
  | text s =>
    have htext := Reads.nil.text s
    rw [List.append_nil] at htext
    exact htext
  | array [] => exact .punctuation rfl (.punctuation rfl .nil)
  | array (v :: vs) =>
    have hclose : Reads [']'] [.closeList] := .punctuation rfl .nil
    have hbracket : EndsWord [']'] := by simp [EndsWord, isWordChar]
    have hrest := (reads_itemsChars vs).append hbracket hclose
    have hends := (endsWord_itemsChars vs).append hbracket
    have hlist := ((reads_chars v).append hends hrest).punctuation (c := '[') rfl
    rw [chars, tokens, List.cons_append, List.cons_append, List.append_assoc]
    exact hlist
  | object [] => exact .punctuation rfl (.punctuation rfl .nil)
  | object ((n, v) :: ms) =>
    have hclose : Reads ['\x7d'] [.closeTable] := .punctuation rfl .nil
    have hbrace : EndsWord ['\x7d'] := by simp [EndsWord, isWordChar]
    have hrest := (reads_membersChars ms).append hbrace hclose
    have hends := (endsWord_membersChars ms).append hbrace
    have hvalue := ((reads_chars v).append hends hrest).punctuation (c := ':') rfl
    have htable := (hvalue.text n).punctuation (c := '\x7b') rfl
    simp only [chars, tokens, List.cons_append, List.append_assoc]
    exact htable

/-- The same for the items of a list. -/
theorem reads_itemsChars (vs : List Value) : Reads (itemsChars vs) (itemsTokens vs) := by
  match vs with
  | [] => exact .nil
  | v :: vs =>
    have hitem := (reads_chars v).append (endsWord_itemsChars vs) (reads_itemsChars vs)
    simpa [itemsChars, itemsTokens] using hitem.punctuation (c := ',') rfl

/-- The same for the members of an object. -/
theorem reads_membersChars (ms : List (String × Value)) :
    Reads (membersChars ms) (membersTokens ms) := by
  match ms with
  | [] => exact .nil
  | (n, v) :: ms =>
    have hvalue := (reads_chars v).append (endsWord_membersChars ms) (reads_membersChars ms)
    have hmember := ((hvalue.punctuation (c := ':') rfl).text n).punctuation (c := ',') rfl
    simpa [membersChars, membersTokens] using hmember

end

end Value

end LinkQuery.Json

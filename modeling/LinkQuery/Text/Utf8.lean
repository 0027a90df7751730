/-!
# Characters of UTF-8 bytes

Bytes that need not be valid UTF-8 are read as a list of symbols: the characters, and `none` for
each byte that belongs to no character. Reading goes on right behind such a *stray* byte, so that it
never takes a byte of a later character with it.

* `symbols bytes` reads bytes. By `symbols_toUTF8` the bytes of a text are its characters, with no
  stray byte among them.
-/

namespace LinkQuery.Text

/-- The symbols of the bytes from place `i` on. -/
def symbolsFrom (bytes : ByteArray) (i : Nat) : List (Option Char) :=
  if i < bytes.size then
    match bytes.utf8DecodeChar? i with
    | some c => some c :: symbolsFrom bytes (i + c.utf8Size)
    | none => none :: symbolsFrom bytes (i + 1)
  else []
termination_by bytes.size - i
decreasing_by
  · have := c.utf8Size_pos
    omega
  · omega

/-- The symbols of bytes: characters, and `none` for each stray byte. -/
def symbols (bytes : ByteArray) : List (Option Char) := symbolsFrom bytes 0

/-- Behind any bytes, the bytes of characters are these characters. -/
theorem symbolsFrom_append_utf8Encode (cs : List Char) (bytes : ByteArray) :
    symbolsFrom (bytes ++ cs.utf8Encode) bytes.size = cs.map some := by
  induction cs generalizing bytes with
  | nil => simp [symbolsFrom]
  | cons c cs ih =>
    have size_pos := c.utf8Size_pos
    have size_eq : ([c].utf8Encode).size = c.utf8Size := by
      simp [List.utf8Encode_singleton]
    have first : (bytes ++ (c :: cs).utf8Encode).utf8DecodeChar? bytes.size = some c := by
      rw [ByteArray.utf8DecodeChar?_eq_utf8DecodeChar?_extract,
        ByteArray.extract_append_eq_right rfl ByteArray.size_append]
      exact List.utf8DecodeChar?_utf8Encode_cons
    rw [symbolsFrom, if_pos (by rw [List.utf8Encode_cons]; simp; omega), first]
    have rest := ih (bytes ++ [c].utf8Encode)
    rw [ByteArray.append_assoc, ← List.utf8Encode_cons, ByteArray.size_append, size_eq] at rest
    simp [rest]

/-- The bytes of a text are its characters. -/
theorem symbols_toUTF8 (s : String) : symbols s.toUTF8 = s.toList.map some := by
  have from_start := symbolsFrom_append_utf8Encode s.toList ByteArray.empty
  simpa [symbols, String.toUTF8_eq_toByteArray] using from_start

end LinkQuery.Text

import Foundrix.Text.Str

/-!
# Decoders

What a receiver makes of encoded bytes, as the standards say it and not as a program of the
repository does it.

* `base64Decode`: RFC 4648, strict: complete groups, padding only at the end and with no bit
  set beside it.
* `formUrldecode`: `application/x-www-form-urlencoded`.
* `fromUtf8`: the text of bytes, if they are UTF-8.
* `utf8_ofList`: the bytes of a text of ASCII characters.
-/

namespace Foundrix.Text

/-! ## Base64 -/

def base64Alphabet : List Char :=
  "ABCDEFGHIJKLMNOPQRSTUVWXYZabcdefghijklmnopqrstuvwxyz0123456789+/".toList

/-- The six bits a character of the alphabet stands for. -/
def sextet (c : Char) : Option Nat := base64Alphabet.idxOf? c

/-- The byte of a last group with two pads. -/
def lastByte (c0 c1 : Char) : Option (List UInt8) := do
  let s0 ← sextet c0
  let s1 ← sextet c1
  if s1 % 16 = 0 then return [UInt8.ofNat (s0 * 4 + s1 / 16)] else none

/-- The bytes of a last group with one pad. -/
def lastBytes (c0 c1 c2 : Char) : Option (List UInt8) := do
  let s0 ← sextet c0
  let s1 ← sextet c1
  let s2 ← sextet c2
  if s2 % 4 = 0 then
    return [UInt8.ofNat (s0 * 4 + s1 / 16), UInt8.ofNat (s1 % 16 * 16 + s2 / 4)]
  else none

/-- The bytes of a full group. -/
def groupBytes (c0 c1 c2 c3 : Char) : Option (List UInt8) := do
  let s0 ← sextet c0
  let s1 ← sextet c1
  let s2 ← sextet c2
  let s3 ← sextet c3
  return [UInt8.ofNat (s0 * 4 + s1 / 16), UInt8.ofNat (s1 % 16 * 16 + s2 / 4),
    UInt8.ofNat (s2 % 4 * 64 + s3)]

def base64Decode : List Char → Option (List UInt8)
  | [] => some []
  | c0 :: c1 :: c2 :: c3 :: rest =>
    if rest = [] ∧ c3 = '=' then
      if c2 = '=' then lastByte c0 c1 else lastBytes c0 c1 c2
    else do
      let bytes ← groupBytes c0 c1 c2 c3
      return bytes ++ (← base64Decode rest)
  | _ => none

section Groups

variable {c0 c1 c2 c3 : Char} {s0 s1 s2 s3 : Nat}

theorem base64Decode_pads (h0 : sextet c0 = some s0) (h1 : sextet c1 = some s1)
    (hpad : s1 % 16 = 0) :
    base64Decode [c0, c1, '=', '='] = some [UInt8.ofNat (s0 * 4 + s1 / 16)] := by
  show lastByte c0 c1 = _
  simp [lastByte, h0, h1, hpad]

theorem base64Decode_pad (h0 : sextet c0 = some s0) (h1 : sextet c1 = some s1)
    (h2 : sextet c2 = some s2) (hne : c2 ≠ '=') (hpad : s2 % 4 = 0) :
    base64Decode [c0, c1, c2, '='] =
      some [UInt8.ofNat (s0 * 4 + s1 / 16), UInt8.ofNat (s1 % 16 * 16 + s2 / 4)] := by
  show (if c2 = '=' then _ else lastBytes c0 c1 c2) = _
  rw [if_neg hne]
  simp [lastBytes, h0, h1, h2, hpad]

theorem base64Decode_group (h0 : sextet c0 = some s0) (h1 : sextet c1 = some s1)
    (h2 : sextet c2 = some s2) (h3 : sextet c3 = some s3) (hne : c3 ≠ '=') (rest : List Char) :
    base64Decode (c0 :: c1 :: c2 :: c3 :: rest) =
      (base64Decode rest).map fun bytes =>
        UInt8.ofNat (s0 * 4 + s1 / 16) :: UInt8.ofNat (s1 % 16 * 16 + s2 / 4) ::
          UInt8.ofNat (s2 % 4 * 64 + s3) :: bytes := by
  rw [base64Decode, if_neg fun h => hne h.2, groupBytes, h0, h1, h2, h3]
  cases base64Decode rest <;> rfl

end Groups

/-! ## Forms -/

/-- The value of a hexadecimal digit, of either case. -/
def hexValue (b : UInt8) : Option Nat :=
  if 48 ≤ b ∧ b ≤ 57 then some (b.toNat - 48)
  else if 65 ≤ b ∧ b ≤ 70 then some (b.toNat - 55)
  else if 97 ≤ b ∧ b ≤ 102 then some (b.toNat - 87)
  else none

/-- A `+` is a blank and `%XY` the byte with these digits; any other byte is itself. -/
def formUrldecode : List UInt8 → List UInt8
  | [] => []
  | 37 :: h :: l :: rest =>
    match hexValue h, hexValue l with
    | some x, some y => UInt8.ofNat (x * 16 + y) :: formUrldecode rest
    | _, _ => 37 :: formUrldecode (h :: l :: rest)
  | b :: rest => (if b = 43 then 32 else b) :: formUrldecode rest

theorem formUrldecode_plain {b : UInt8} (hb : b ≠ 37) (rest : List UInt8) :
    formUrldecode (b :: rest) = (if b = 43 then 32 else b) :: formUrldecode rest := by
  rw [formUrldecode]
  intro h l rest' heq
  exact absurd heq hb

theorem formUrldecode_escape {h l : UInt8} {x y : Nat} (hx : hexValue h = some x)
    (hy : hexValue l = some y) (rest : List UInt8) :
    formUrldecode (37 :: h :: l :: rest) = UInt8.ofNat (x * 16 + y) :: formUrldecode rest := by
  rw [formUrldecode, hx, hy]

/-! ## UTF-8 -/

/-- The text of which the bytes are the UTF-8 encoding. -/
def fromUtf8 (bytes : List UInt8) : Option String := String.fromUTF8? bytes.toByteArray

theorem toByteArray_utf8 (s : String) : (utf8 s).toByteArray = s.toByteArray := by
  apply ByteArray.ext
  simp [utf8]

theorem fromUtf8_utf8 (s : String) : fromUtf8 (utf8 s) = some s := by
  unfold fromUtf8 String.fromUTF8?
  rw [toByteArray_utf8, dif_pos s.isValidUTF8]
  rfl

/-- The byte of an ASCII character. -/
def charByte (c : Char) : UInt8 := UInt8.ofNat c.toNat

/-- The bytes of a text of ASCII characters are these characters. -/
theorem utf8_ofList {l : List Char} (h : ∀ c ∈ l, c.toNat < 128) :
    utf8 (String.ofList l) = l.map charByte := by
  induction l with
  | nil => rfl
  | cons c l ih =>
    have hsize : c.utf8Size = 1 := by
      apply Char.utf8Size_eq_one_iff.mpr
      exact Nat.le_of_lt_succ (h c List.mem_cons_self)
    have hl := ih fun x hx => h x (List.mem_cons_of_mem _ hx)
    simp only [utf8, String.toUTF8_eq_toByteArray, String.toByteArray_ofList] at hl ⊢
    rw [List.utf8Encode_cons, List.utf8Encode_singleton, String.utf8EncodeChar_eq_singleton hsize,
      ByteArray.data_append, Array.toList_append, hl, List.data_toByteArray]
    rfl

theorem utf8_flatMap (l : List Char) :
    utf8 (String.ofList l) = l.flatMap String.utf8EncodeChar := by
  simp [utf8, List.utf8Encode]

theorem utf8EncodeChar_ascii {c : Char} (h : c.toNat < 128) :
    String.utf8EncodeChar c = [charByte c] := if_pos (Nat.le_of_lt_succ h)

/-- The bytes of a character beyond ASCII are beyond ASCII. -/
theorem utf8EncodeChar_high {c : Char} (h : 128 ≤ c.toNat) :
    ∀ b ∈ String.utf8EncodeChar c, 128 ≤ b.toNat := by
  have hval : ¬ c.val.toNat ≤ 0x7f := by
    intro hle
    exact absurd (show c.toNat ≤ 0x7f from hle) (by omega)
  unfold String.utf8EncodeChar
  simp only [hval, if_false]
  split_ifs <;> simp only [List.mem_cons, List.not_mem_nil, or_false, forall_eq_or_imp, forall_eq,
    UInt8.toNat_ofNat'] <;> omega

theorem utf8_append (s t : String) : utf8 (s ++ t) = utf8 s ++ utf8 t := by
  simp [utf8, String.toByteArray_append]

end Foundrix.Text

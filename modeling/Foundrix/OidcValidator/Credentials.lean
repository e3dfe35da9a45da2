import Foundrix.OidcValidator.Verdict
import Foundrix.Text.Decode

/-!
# The credentials a server reads

A server that follows RFC 7617 and RFC 6749 decodes the `Authorization` header, splits it at
the first colon and decodes both halves as parts of a form. Whatever the client id and the
secret are, it reads exactly these.

* `base64Decode_base64Chars`: every group of bytes is a group of characters that decodes to it.
* `formUrldecode_formUrlencode`, `colon_notMem_formUrlencode`: both halves are what they were,
  and the first colon is the one between them.
* `basic_credential_decodable`: the requests of both endpoints.
-/

namespace Foundrix.OidcValidator

open Text

/-! ## Base64 -/

theorem sextet_base64Char (n : Nat) : sextet (base64Char n) = some (n % 64) := by
  have hall : ∀ k < 64, sextet (base64Alphabet.getD k '=') = some k := by decide +kernel
  have hmask : n &&& 63 = n % 64 := Nat.and_two_pow_sub_one_eq_mod n 6
  unfold base64Char
  rw [hmask]
  exact hall (n % 64) (Nat.mod_lt n (by decide))

theorem base64Char_ne_pad (n : Nat) : base64Char n ≠ '=' := by
  intro h
  have hs := sextet_base64Char n
  rw [h] at hs
  exact absurd hs (by simp [show sextet '=' = none by decide +kernel])

/-- The number of three bytes, of which the characters are the digits to the base 64. -/
theorem packed_eq (b0 b1 b2 : UInt8) :
    b0.toNat <<< 16 ||| b1.toNat <<< 8 ||| b2.toNat =
      b0.toNat * 65536 + b1.toNat * 256 + b2.toNat := by
  have h0 := b0.toNat_lt
  have h1 := b1.toNat_lt
  have h2 := b2.toNat_lt
  have hlow : b1.toNat <<< 8 < 2 ^ 16 := by
    rw [Nat.shiftLeft_eq]
    omega
  have hmid : b0.toNat <<< 16 + b1.toNat <<< 8 = (b0.toNat <<< 8 + b1.toNat) <<< 8 := by
    simp only [Nat.shiftLeft_eq]
    omega
  rw [← Nat.shiftLeft_add_eq_or_of_lt hlow, hmid,
    ← Nat.shiftLeft_add_eq_or_of_lt (show b2.toNat < 2 ^ 8 by omega)]
  simp only [Nat.shiftLeft_eq]
  omega

/-- The six bits of each character of a chunk. -/
theorem base64Chunk_eq (count : Nat) {b0 b1 b2 : UInt8} {n : Nat}
    (hn : b0.toNat * 65536 + b1.toNat * 256 + b2.toNat = n) :
    base64Chunk count b0 b1 b2 =
      [base64Char (n / 262144), base64Char (n / 4096),
        if 1 < count then base64Char (n / 64) else '=',
        if 2 < count then base64Char n else '='] := by
  simp only [base64Chunk, packed_eq, Nat.shiftRight_eq_div_pow, hn]

theorem ofNat_eq {b : UInt8} {n : Nat} (h : n = b.toNat) : UInt8.ofNat n = b := by
  rw [h]
  exact UInt8.ofNat_toNat

theorem base64Decode_one (b0 : UInt8) : base64Decode (base64Chunk 1 b0 0 0) = some [b0] := by
  have h0 := b0.toNat_lt
  rw [base64Chunk_eq 1 rfl, if_neg (Nat.lt_irrefl 1), if_neg (by decide),
    base64Decode_pads (sextet_base64Char _) (sextet_base64Char _) (by simp; omega)]
  rw [ofNat_eq (b := b0) (by simp; omega)]

theorem base64Decode_two (b0 b1 : UInt8) :
    base64Decode (base64Chunk 2 b0 b1 0) = some [b0, b1] := by
  have h0 := b0.toNat_lt
  have h1 := b1.toNat_lt
  have hn : b0.toNat * 65536 + b1.toNat * 256 + (0 : UInt8).toNat =
      b0.toNat * 65536 + b1.toNat * 256 := by simp
  rw [base64Chunk_eq _ hn, if_pos (by decide), if_neg (Nat.lt_irrefl 2),
    base64Decode_pad (sextet_base64Char _) (sextet_base64Char _) (sextet_base64Char _)
      (base64Char_ne_pad _) (by omega)]
  rw [ofNat_eq (b := b0) (by omega), ofNat_eq (b := b1) (by omega)]

theorem base64Decode_three (b0 b1 b2 : UInt8) (rest : List Char) :
    base64Decode (base64Chunk 3 b0 b1 b2 ++ rest) =
      (base64Decode rest).map fun bytes => b0 :: b1 :: b2 :: bytes := by
  have h0 := b0.toNat_lt
  have h1 := b1.toNat_lt
  have h2 := b2.toNat_lt
  rw [base64Chunk_eq _ rfl, if_pos (by decide), if_pos (by decide)]
  simp only [List.cons_append, List.nil_append]
  rw [base64Decode_group (sextet_base64Char _) (sextet_base64Char _) (sextet_base64Char _)
    (sextet_base64Char _) (base64Char_ne_pad _)]
  rw [ofNat_eq (b := b0) (by omega), ofNat_eq (b := b1) (by omega), ofNat_eq (b := b2) (by omega)]

/-- RFC 4648 decoding of the encoded bytes. -/
theorem base64Decode_base64Chars (input : List UInt8) :
    base64Decode (base64Chars input) = some input := by
  induction input using base64Chars.induct with
  | case1 => rfl
  | case2 b0 => exact base64Decode_one b0
  | case3 b0 b1 => exact base64Decode_two b0 b1
  | case4 b0 b1 b2 rest ih =>
    rw [base64Chars, base64Decode_three, ih]
    rfl

/-! ## Forms -/

theorem hexDigit_eq (n : Nat) : hexDigit n =
    ['0', '1', '2', '3', '4', '5', '6', '7', '8', '9', 'A', 'B', 'C', 'D', 'E', 'F'].getD n '0' := by
  rw [hexDigit]
  simp

/-- A hexadecimal digit is an ASCII character, no colon, and stands for its value. -/
theorem hexDigit_spec {n : Nat} (hn : n < 16) : (hexDigit n).toNat < 128 ∧
    charByte (hexDigit n) ≠ 58 ∧ hexValue (charByte (hexDigit n)) = some n := by
  have hall : ∀ k < 16, (hexDigit k).toNat < 128 ∧ charByte (hexDigit k) ≠ 58 ∧
      hexValue (charByte (hexDigit k)) = some k := by
    simp only [hexDigit_eq]
    decide +kernel
  exact hall n hn

/-- What the escaping of a byte is, told by the characters' bytes. -/
inductive Escaped (b : UInt8) : List UInt8 → Prop where
  | same (hpercent : b ≠ 37) (hplus : b ≠ 43) (hcolon : b ≠ 58) : Escaped b [b]
  | blank (hb : b = 32) : Escaped b [43]
  | digits : Escaped b
      [37, charByte (hexDigit (b.toNat / 16)), charByte (hexDigit (b.toNat % 16))]

theorem formUrlencodeByte_escaped (b : UInt8) :
    Escaped b ((formUrlencodeByte b).map charByte) := by
  have hb : b = UInt8.ofNat b.toNat := UInt8.ofNat_toNat.symm
  have hchar : ∀ n < 256, charByte (Char.ofNat n) = UInt8.ofNat n := by decide +kernel
  have hblank : ∀ n < 256, Char.ofNat n = ' ' → n = 32 := by decide +kernel
  have hlt : b.toNat < 256 := b.toNat_lt
  simp only [formUrlencodeByte]
  split
  · rename_i hsafe
    rw [List.map_singleton, hchar _ hlt, ← hb]
    apply Escaped.same
    all_goals
      rintro rfl
      exact absurd hsafe (by decide +kernel)
  · split
    · rename_i hspace
      have h32 := hblank _ hlt (by simpa using hspace)
      apply Escaped.blank
      rw [hb, h32]
      rfl
    · exact Escaped.digits

theorem formUrlencodeByte_ascii (b : UInt8) : ∀ c ∈ formUrlencodeByte b, c.toNat < 128 := by
  have hsafe : ∀ n < 256, (isAsciiAlphanumeric (Char.ofNat n) || Char.ofNat n == '-' ||
      Char.ofNat n == '.' || Char.ofNat n == '_' || Char.ofNat n == '~') = true →
      (Char.ofNat n).toNat < 128 := by decide +kernel
  have hb := b.toNat_lt
  intro c hc
  simp only [formUrlencodeByte] at hc
  split at hc
  · rename_i h
    rw [List.mem_singleton.mp hc]
    exact hsafe _ hb h
  · split at hc
    · rw [List.mem_singleton.mp hc]
      decide
    · simp only [List.mem_cons, List.not_mem_nil, or_false] at hc
      rcases hc with rfl | rfl | rfl
      · decide
      · exact (hexDigit_spec (by omega)).1
      · exact (hexDigit_spec (by omega)).1

/-- The bytes of an escaped text, byte by byte of the text. -/
theorem utf8_formUrlencode (s : String) :
    utf8 (formUrlencode s) = (utf8 s).flatMap fun b => (formUrlencodeByte b).map charByte := by
  unfold formUrlencode
  rw [utf8_ofList, List.map_flatMap]
  intro c hc
  obtain ⟨b, -, hb⟩ := List.mem_flatMap.mp hc
  exact formUrlencodeByte_ascii b c hb

theorem formUrldecode_escaped {b : UInt8} {bytes : List UInt8} (h : Escaped b bytes)
    (rest : List UInt8) : formUrldecode (bytes ++ rest) = b :: formUrldecode rest := by
  have hb := b.toNat_lt
  cases h with
  | same hpercent hplus hcolon =>
    rw [List.singleton_append, formUrldecode_plain hpercent, if_neg hplus]
  | blank hblank =>
    rw [List.singleton_append, formUrldecode_plain (by decide), if_pos rfl, hblank]
  | digits =>
    simp only [List.cons_append, List.nil_append]
    rw [formUrldecode_escape (hexDigit_spec (by omega)).2.2 (hexDigit_spec (by omega)).2.2,
      ofNat_eq (b := b) (by omega)]

/-- Decoding as a part of a form undoes the escaping. -/
theorem formUrldecode_formUrlencode (s : String) :
    formUrldecode (utf8 (formUrlencode s)) = utf8 s := by
  rw [utf8_formUrlencode]
  generalize utf8 s = bytes
  induction bytes with
  | nil => rfl
  | cons b bytes ih =>
    rw [List.flatMap_cons, formUrldecode_escaped (formUrlencodeByte_escaped b), ih]

theorem colon_notMem_escaped {b : UInt8} {bytes : List UInt8} (h : Escaped b bytes) :
    58 ∉ bytes := by
  have hb := b.toNat_lt
  cases h with
  | same hpercent hplus hcolon => simpa using fun h => hcolon h.symm
  | blank hblank => decide
  | digits =>
    intro hmem
    simp only [List.mem_cons, List.not_mem_nil, or_false] at hmem
    rcases hmem with h | h | h
    · exact absurd h (by decide)
    · exact (hexDigit_spec (by omega)).2.1 h.symm
    · exact (hexDigit_spec (by omega)).2.1 h.symm

/-- An escaped text has no colon. -/
theorem colon_notMem_formUrlencode (s : String) : 58 ∉ utf8 (formUrlencode s) := by
  rw [utf8_formUrlencode]
  intro hmem
  obtain ⟨b, -, hb⟩ := List.mem_flatMap.mp hmem
  exact colon_notMem_escaped (formUrlencodeByte_escaped b) hb

/-! ## The header -/

/-- The id and the secret in the value of an `Authorization` header: the two sides of the
first colon. -/
def readCredentials (value : String) : Option (String × String) := do
  let encoded ← stripPrefix value "Basic "
  let creds ← base64Decode encoded.toList
  match creds.dropWhile (· != 58) with
  | [] => none
  | _ :: clientSecret =>
    return (← fromUtf8 (formUrldecode (creds.takeWhile (· != 58))),
      ← fromUtf8 (formUrldecode clientSecret))

theorem readCredentials_basicCredentials (clientId clientSecret : String) :
    readCredentials (basicCredentials clientId clientSecret) = some (clientId, clientSecret) := by
  have hcreds : utf8 (formUrlencode clientId ++ ":" ++ formUrlencode clientSecret) =
      utf8 (formUrlencode clientId) ++ 58 :: utf8 (formUrlencode clientSecret) := by
    rw [utf8_append, utf8_append, List.append_assoc]
    rfl
  have hne : ∀ b ∈ utf8 (formUrlencode clientId), (b != 58) = true := by
    intro b hb
    apply bne_iff_ne.mpr
    rintro rfl
    exact colon_notMem_formUrlencode clientId hb
  unfold readCredentials basicCredentials
  rw [stripPrefix_append]
  simp only [Option.bind_eq_bind, Option.bind_some, base64, String.toList_ofList,
    base64Decode_base64Chars, hcreds]
  rw [List.dropWhile_append_of_pos hne, List.takeWhile_append_of_pos hne]
  show ((fromUtf8 (formUrldecode (_ ++ []))).bind fun id => _) = _
  rw [List.append_nil, formUrldecode_formUrlencode, fromUtf8_utf8, Option.bind_some]
  show ((fromUtf8 (formUrldecode _)).bind fun secret => _) = _
  rw [formUrldecode_formUrlencode, fromUtf8_utf8]
  rfl

/-- The credentials in the header of a request. -/
def Request.credentials (request : Request) : Option (String × String) :=
  (request.headers.lookup "Authorization").bind readCredentials

theorem credentials_request [Externals] (p : Endpoint) (args : Args)
    (clientId clientSecret : String) :
    (p.request args clientId clientSecret .basic).credentials = some (clientId, clientSecret) := by
  have hheaders : (p.request args clientId clientSecret .basic).headers =
      [("Accept", "application/json"),
        ("Authorization", basicCredentials clientId clientSecret)] := by
    cases p <;> rfl
  unfold Request.credentials
  rw [hheaders, ← readCredentials_basicCredentials clientId clientSecret]
  simp [List.lookup_cons]

/-- What is encoded is decoded to the same bytes, and the requests to both endpoints hand
over exactly the client id and the secret. -/
theorem basic_credential_decodable [Externals] :
    (∀ bytes : List UInt8, base64Decode (base64 bytes).toList = some bytes) ∧
      ∀ (servers : Servers) (args : Args) (endpoint clientId clientSecret : String)
        (sent : List Exchange),
        (∃ exchange : Exchange,
          (introspectionRequest servers endpoint clientId clientSecret .basic sent).2 =
            sent ++ [exchange] ∧
          exchange.request.credentials = some (clientId, clientSecret)) ∧
        ∃ exchange : Exchange,
          (tokenRequest servers args endpoint clientId clientSecret .basic sent).2 =
            sent ++ [exchange] ∧
          exchange.request.credentials = some (clientId, clientSecret) := by
  constructor
  · intro bytes
    rw [base64, String.toList_ofList, base64Decode_base64Chars]
  · intro servers args endpoint clientId clientSecret sent
    have hread (p : Endpoint) := credentials_request p args clientId clientSecret
    have hattempt (p : Endpoint) :=
      congrArg Prod.snd (p.attempt_eq servers args clientId clientSecret .basic sent)
    exact ⟨⟨_, hattempt (.introspection endpoint), hread _⟩,
      ⟨_, hattempt (.token endpoint), hread _⟩⟩

end Foundrix.OidcValidator

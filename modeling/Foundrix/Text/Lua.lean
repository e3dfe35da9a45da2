import Foundrix.Text.Decode

/-!
# Reading Lua calls

A reader of the part of Lua in which a call with one table is written: a lexer that takes one
byte after the other, and a reader of its tokens. Of the escapes in a string it knows the
quote, the backslash, `\n`, `\r`, `\t` and a backslash with up to three decimal digits; every
other byte stands for itself, except that a string does not go over the end of a line.

* `Token`, `lexByte`, `lexBytes`: the lexer.
* `Call`, `readCall`: calls, and which one a text is.
* `lex_plain`, `lex_decimal`: runs of the lexer within a string.
-/

namespace Foundrix.Text.Lua

/-! ## Tokens -/

inductive Mark where
  | openCall
  | closeCall
  | comma
  | dot
  | equals
  | openTable
  | closeTable
deriving DecidableEq, Repr

inductive Token where
  | name (text : List UInt8)
  | string (bytes : List UInt8)
  | mark (m : Mark)
deriving DecidableEq, Repr

/-- Where the lexer is: between tokens, in a name, in a string, behind its backslash, or behind
one or two digits of a decimal escape. -/
inductive Mode where
  | between
  | name (text : List UInt8)
  | string (bytes : List UInt8)
  | escape (bytes : List UInt8)
  | decimal (bytes : List UInt8) (value digits : Nat)
deriving DecidableEq, Repr

def isDigit (b : UInt8) : Bool := 48 ≤ b && b ≤ 57

/-- A letter or an underscore. -/
def isLetter (b : UInt8) : Bool := (65 ≤ b && b ≤ 90) || (97 ≤ b && b ≤ 122) || b == 95

def isBlank (b : UInt8) : Bool := b == 32 || (9 ≤ b && b ≤ 13)

def markOf (b : UInt8) : Option Mark :=
  if b = 40 then some .openCall
  else if b = 41 then some .closeCall
  else if b = 44 then some .comma
  else if b = 46 then some .dot
  else if b = 61 then some .equals
  else if b = 123 then some .openTable
  else if b = 125 then some .closeTable
  else none

/-- The first byte of a token. -/
def lexStart (tokens : List Token) (b : UInt8) : Option (Mode × List Token) :=
  if isBlank b then some (.between, tokens)
  else if isLetter b then some (.name [b], tokens)
  else if b = 34 then some (.string [], tokens)
  else (markOf b).map fun m => (.between, tokens ++ [.mark m])

/-- A byte in a string. -/
def lexString (tokens : List Token) (bytes : List UInt8) (b : UInt8) :
    Option (Mode × List Token) :=
  if b = 34 then some (.between, tokens ++ [.string bytes])
  else if b = 92 then some (.escape bytes, tokens)
  else if b = 10 ∨ b = 13 then none
  else some (.string (bytes ++ [b]), tokens)

/-- The byte of a decimal escape with its digits. -/
def decimalByte (value : Nat) : Option UInt8 := if value < 256 then some (UInt8.ofNat value) else none

def lexByte (at_ : Mode × List Token) (b : UInt8) : Option (Mode × List Token) :=
  let tokens := at_.2
  match at_.1 with
  | .between => lexStart tokens b
  | .name text =>
    if isLetter b || isDigit b then some (.name (text ++ [b]), tokens)
    else lexStart (tokens ++ [.name text]) b
  | .string bytes => lexString tokens bytes b
  | .escape bytes =>
    if b = 34 then some (.string (bytes ++ [34]), tokens)
    else if b = 92 then some (.string (bytes ++ [92]), tokens)
    else if b = 110 then some (.string (bytes ++ [10]), tokens)
    else if b = 114 then some (.string (bytes ++ [13]), tokens)
    else if b = 116 then some (.string (bytes ++ [9]), tokens)
    else if isDigit b then some (.decimal bytes (b.toNat - 48) 1, tokens)
    else none
  | .decimal bytes value digits =>
    if isDigit b then
      let value := value * 10 + (b.toNat - 48)
      if digits < 2 then some (.decimal bytes value (digits + 1), tokens)
      else (decimalByte value).map fun byte => (.string (bytes ++ [byte]), tokens)
    else (decimalByte value).bind fun byte => lexString tokens (bytes ++ [byte]) b

def lexBytes (at_ : Mode × List Token) (input : List UInt8) : Option (Mode × List Token) :=
  input.foldlM lexByte at_

/-- The tokens of a text, in which the last name may go to its end. -/
def tokens (input : List UInt8) : Option (List Token) :=
  match lexBytes (.between, []) input with
  | some (.between, tokens) => some tokens
  | some (.name text, tokens) => some (tokens ++ [.name text])
  | _ => none

/-! ## Calls -/

inductive Value where
  | string (bytes : List UInt8)
  | bool (b : Bool)
deriving DecidableEq, Repr

/-- A call of the function at a path with one table. -/
structure Call where
  function : List (List UInt8)
  fields : List (List UInt8 × Value)
deriving DecidableEq, Repr

def readValue : Token → Option Value
  | .string bytes => some (.string bytes)
  | .name text =>
    if text = utf8 "true" then some (.bool true)
    else if text = utf8 "false" then some (.bool false)
    else none
  | .mark _ => none

/-- The fields of a table, up to the end of the call and of the text. -/
def readFields : List Token → Option (List (List UInt8 × Value))
  | [.mark .closeTable, .mark .closeCall] => some []
  | .name key :: .mark .equals :: value :: [.mark .closeTable, .mark .closeCall] =>
    (readValue value).map fun v => [(key, v)]
  | .name key :: .mark .equals :: value :: .mark .comma :: rest => do
    let v ← readValue value
    let fields ← readFields rest
    return (key, v) :: fields
  | _ => none

/-- The path of the function up to `({`, and what follows. -/
def readPath : List Token → Option (List (List UInt8) × List Token)
  | .name n :: .mark .dot :: rest => (readPath rest).map fun r => (n :: r.1, r.2)
  | .name n :: .mark .openCall :: .mark .openTable :: rest => some ([n], rest)
  | _ => none

/-- The call that a text consists of. -/
def readCall (input : List UInt8) : Option Call := do
  let ts ← tokens input
  let (function, rest) ← readPath ts
  let fields ← readFields rest
  return ⟨function, fields⟩

/-! ### The tokens of a call -/

def Value.token : Value → Token
  | .string bytes => .string bytes
  | .bool true => .name (utf8 "true")
  | .bool false => .name (utf8 "false")

def pathTokens : List (List UInt8) → List Token
  | [] => []
  | [n] => [.name n, .mark .openCall, .mark .openTable]
  | n :: m :: path => .name n :: .mark .dot :: pathTokens (m :: path)

def fieldTokens : List (List UInt8 × Value) → List Token
  | [] => [.mark .closeTable, .mark .closeCall]
  | [(key, value)] => [.name key, .mark .equals, value.token, .mark .closeTable, .mark .closeCall]
  | (key, value) :: f :: fields =>
    .name key :: .mark .equals :: value.token :: .mark .comma :: fieldTokens (f :: fields)

def Call.tokens (c : Call) : List Token := pathTokens c.function ++ fieldTokens c.fields

theorem readValue_token (value : Value) : readValue value.token = some value := by
  rcases value with bytes | (_ | _)
  · rfl
  · decide
  · decide

theorem readPath_tokens {path : List (List UInt8)} (h : path ≠ []) (rest : List Token) :
    readPath (pathTokens path ++ rest) = some (path, rest) := by
  induction path using pathTokens.induct with
  | case1 => exact absurd rfl h
  | case2 n => rfl
  | case3 n m path ih =>
    show (readPath (pathTokens (m :: path) ++ rest)).map _ = _
    rw [ih nofun]
    rfl

theorem readFields_tokens (fields : List (List UInt8 × Value)) :
    readFields (fieldTokens fields) = some fields := by
  induction fields using fieldTokens.induct with
  | case1 => rfl
  | case2 key value =>
    show (readValue value.token).map _ = _
    rw [readValue_token]
    rfl
  | case3 key value f fields ih =>
    rw [fieldTokens, readFields, readValue_token, ih]
    rfl

/-- A text with the tokens of a call is that call. -/
theorem readCall_of_tokens {input : List UInt8} {c : Call} (hpath : c.function ≠ [])
    (h : lexBytes (.between, []) input = some (.between, c.tokens)) : readCall input = some c := by
  have htokens : tokens input = some (pathTokens c.function ++ fieldTokens c.fields) := by
    rw [tokens, h]
    rfl
  rw [readCall, htokens]
  show ((readPath _).bind fun r => _) = _
  rw [readPath_tokens hpath]
  show ((readFields _).bind fun fields => _) = _
  rw [readFields_tokens]
  rfl

/-! ## Runs of the lexer -/

theorem lexBytes_append (at_ : Mode × List Token) (xs ys : List UInt8) :
    lexBytes at_ (xs ++ ys) = (lexBytes at_ xs).bind fun r => lexBytes r ys := by
  rw [lexBytes, List.foldlM_append]
  rfl

/-- The tokens that were read before do not matter. -/
theorem lexByte_tokens (mode : Mode) (ts : List Token) (b : UInt8) :
    lexByte (mode, ts) b = (lexByte (mode, []) b).map fun r => (r.1, ts ++ r.2) := by
  have hstart : ∀ ts₀, lexStart (ts ++ ts₀) b =
      (lexStart ts₀ b).map fun r => (r.1, ts ++ r.2) := by
    intro ts₀
    unfold lexStart
    split_ifs
    · simp
    · simp
    · simp
    · cases markOf b <;> simp
  have hstring : ∀ bytes, lexString ts bytes b =
      (lexString [] bytes b).map fun r => (r.1, ts ++ r.2) := by
    intro bytes
    unfold lexString
    split_ifs <;> simp
  cases mode with
  | between => simpa [lexByte] using hstart []
  | name text =>
    simp only [lexByte, List.nil_append]
    split
    · simp
    · exact hstart _
  | string bytes => exact hstring bytes
  | escape bytes =>
    simp only [lexByte]
    split_ifs <;> simp
  | decimal bytes value digits =>
    simp only [lexByte]
    split_ifs
    · simp
    · cases decimalByte (value * 10 + (b.toNat - 48)) <;> simp
    · cases decimalByte value with
      | none => rfl
      | some byte => exact hstring _

theorem lexBytes_tokens (mode : Mode) (ts : List Token) (input : List UInt8) :
    lexBytes (mode, ts) input = (lexBytes (mode, []) input).map fun r => (r.1, ts ++ r.2) := by
  induction input generalizing mode ts with
  | nil => simp [lexBytes]
  | cons b input ih =>
    have hcons : ∀ at_, lexBytes at_ (b :: input) = (lexByte at_ b).bind fun r => lexBytes r input :=
      fun _ => rfl
    rw [hcons, hcons, lexByte_tokens mode ts b]
    cases lexByte (mode, []) b with
    | none => rfl
    | some r =>
      obtain ⟨mode', ts'⟩ := r
      simp only [Option.map_some, Option.bind_some]
      rw [ih mode' (ts ++ ts'), ih mode' ts', Option.map_map]
      congr 1
      funext r
      simp

/-- A text that reads as these tokens, wherever it stands between tokens. -/
theorem lexBytes_between {input : List UInt8} {read : List Token}
    (h : lexBytes (.between, []) input = some (.between, read)) (ts : List Token) :
    lexBytes (.between, ts) input = some (.between, ts ++ read) := by
  rw [lexBytes_tokens, h]
  rfl

/-- Within a string, a byte stands for itself. -/
theorem lex_plain {input : List UInt8} (h : ∀ b ∈ input, b ≠ 34 ∧ b ≠ 92 ∧ b ≠ 10 ∧ b ≠ 13)
    (bytes : List UInt8) (ts : List Token) :
    lexBytes (.string bytes, ts) input = some (.string (bytes ++ input), ts) := by
  induction input generalizing bytes with
  | nil => simp [lexBytes]
  | cons b input ih =>
    obtain ⟨hquote, hback, hn, hr⟩ := h b List.mem_cons_self
    have hstep : lexByte (.string bytes, ts) b = some (.string (bytes ++ [b]), ts) := by
      simp [lexByte, lexString, hquote, hback, hn, hr]
    have hcons : lexBytes (.string bytes, ts) (b :: input) =
        (lexByte (.string bytes, ts) b).bind fun r => lexBytes r input := rfl
    rw [hcons, hstep, Option.bind_some, ih (fun x hx => h x (List.mem_cons_of_mem _ hx))]
    simp

theorem isDigit_ofNat {d : Nat} (h : d < 10) :
    isDigit (UInt8.ofNat (48 + d)) = true ∧ (UInt8.ofNat (48 + d)).toNat - 48 = d := by
  have hall : ∀ d < 10, isDigit (UInt8.ofNat (48 + d)) = true ∧
      (UInt8.ofNat (48 + d)).toNat - 48 = d := by decide
  exact hall d h

/-- Within a string, a backslash and the three digits of a number stand for its byte. -/
theorem lex_decimal {n : Nat} (h : n < 256) (bytes : List UInt8) (ts : List Token) :
    lexBytes (.string bytes, ts) [92, UInt8.ofNat (48 + n / 100), UInt8.ofNat (48 + n / 10 % 10),
      UInt8.ofNat (48 + n % 10)] = some (.string (bytes ++ [UInt8.ofNat n]), ts) := by
  obtain ⟨h₁, hv₁⟩ := isDigit_ofNat (d := n / 100) (by omega)
  obtain ⟨h₂, hv₂⟩ := isDigit_ofNat (d := n / 10 % 10) (by omega)
  obtain ⟨h₃, hv₃⟩ := isDigit_ofNat (d := n % 10) (by omega)
  have hnot : ∀ d < 10, UInt8.ofNat (48 + d) ≠ 34 ∧ UInt8.ofNat (48 + d) ≠ 92 ∧
      UInt8.ofNat (48 + d) ≠ 110 ∧ UInt8.ofNat (48 + d) ≠ 114 ∧ UInt8.ofNat (48 + d) ≠ 116 := by
    decide
  obtain ⟨hq, hb, hn, hr, ht⟩ := hnot (n / 100) (by omega)
  have hvalue : (n / 100 * 10 + n / 10 % 10) * 10 + n % 10 = n := by omega
  have hback : lexByte (.string bytes, ts) 92 = some (.escape bytes, ts) := rfl
  have hfirst : lexByte (.escape bytes, ts) (UInt8.ofNat (48 + n / 100)) =
      some (.decimal bytes (n / 100) 1, ts) := by
    simp only [lexByte, hq, hb, hn, hr, ht, h₁, hv₁, if_false, if_true]
  have hsecond : lexByte (.decimal bytes (n / 100) 1, ts) (UInt8.ofNat (48 + n / 10 % 10)) =
      some (.decimal bytes (n / 100 * 10 + n / 10 % 10) 2, ts) := by
    simp only [lexByte, h₂, hv₂, if_true, Nat.one_lt_two]
  have hthird : lexByte (.decimal bytes (n / 100 * 10 + n / 10 % 10) 2, ts)
      (UInt8.ofNat (48 + n % 10)) = some (.string (bytes ++ [UInt8.ofNat n]), ts) := by
    simp only [lexByte, h₃, hv₃, if_true, Nat.lt_irrefl, if_false, hvalue, decimalByte, h,
      Option.map_some]
  simp only [lexBytes, List.foldlM_cons, List.foldlM_nil, hback, hfirst, hsecond, hthird,
    Option.bind_eq_bind, Option.bind_some, Option.pure_def]

end Foundrix.Text.Lua

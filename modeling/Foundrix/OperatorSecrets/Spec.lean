import Foundrix.Text.Str

/-!
# The spec of the operator-provided secrets

The types of `packages/operator-secrets/src/lib.rs` that describe a host's secrets, and
`Spec::parse`, which checks what the JSON decoder returned. `serde_json` and the `{:?}`
form of a string are code outside the repository; they are the parameters of `Externals`.
-/

namespace Foundrix.OperatorSecrets

open Text

/-- The values of a parsed env-file (`BTreeMap<String, String>`). -/
abbrev EnvMap := String → Option String

/-- An ordered list of field names and values. -/
abbrev Values := List (String × String)

structure FieldSpec where
  /-- Env-file key, e.g. `CLIENT_SECRET`. -/
  name : String
  description : String := ""
  /-- Whether the value may be echoed and pre-filled. -/
  sensitive : Bool := false
deriving DecidableEq, Repr

structure SecretSpec where
  name : String
  description : String := ""
  /-- The order is the one of the prompt and of the `KEY=VALUE` lines. -/
  fields : List FieldSpec
  /-- Destination env-file. -/
  path : String
  owner : String := "root"
  group : Option String := none
  mode : String := "0400"
  /-- Validator argv; `none` means presence of all fields is the acceptance criterion. -/
  validateCommand : Option (List String) := none
deriving DecidableEq, Repr

structure Spec where
  version : Nat
  secrets : List SecretSpec
deriving DecidableEq, Repr

/-- The answer of a validator, as far as it could be decoded. -/
inductive ValidatorStatus where
  | valid
  | invalid
  | error
deriving DecidableEq, Repr

structure ValidatorResponse where
  status : ValidatorStatus
  message : Option String := none
deriving DecidableEq, Repr

/-- What the crate calls and does not contain: `serde_json` decoding a spec and a
validator's answer, and the `{:?}` form of a string. -/
class Externals where
  specFromStr : String → Except String Spec
  responseFromStr : String → Except String ValidatorResponse
  debugStr : String → String

def specVersion : Nat := 1

namespace SecretSpec

def groupName (s : SecretSpec) : String := s.group.getD s.owner

def field (s : SecretSpec) (name : String) : Option FieldSpec :=
  s.fields.find? fun f => f.name == name

/-- A field of this name that may be shown: the filter of every `known` map. -/
def shows (s : SecretSpec) (name : String) : Bool :=
  (s.field name).any fun f => !f.sensitive

def fieldNames (s : SecretSpec) : List String := s.fields.map FieldSpec.name

end SecretSpec

/-- The value of an octal digit. -/
def octalDigit (c : Char) : Option Nat :=
  if '0' ≤ c ∧ c ≤ '7' then some (c.toNat - '0'.toNat) else none

def octal (digits : List Char) : Option Nat :=
  digits.foldl (fun v c => do return (← v) * 8 + (← octalDigit c)) (some 0)

/-- A `"0400"`-style mode: octal, at most five digits and twelve bits. -/
def parseMode (mode : String) : Option Nat :=
  if mode.toList = [] ∨ mode.toList.length > 5 then none
  else
    match octal mode.toList with
    | none => none
    | some v => if v > 0o7777 then none else some v

def isValidKey (k : String) : Bool :=
  !k.toList.isEmpty && !k.toList.head?.any isAsciiDigit &&
    k.toList.all fun c => isAsciiAlphanumeric c || c == '_'

section Parse

variable [Externals]

def checkField (s : SecretSpec) (f : FieldSpec) : Except String Unit :=
  if isValidKey f.name then .ok ()
  else .error (s!"secret {s.name}: field name " ++ Externals.debugStr f.name ++
    " is not a valid env-file key")

def checkSecret (s : SecretSpec) : Except String Unit := do
  if s.fields = [] then
    throw s!"secret {s.name}: no fields declared"
  if s.validateCommand = some [] then
    throw (s!"secret {s.name}: empty validate_command (omit the key entirely for a " ++
      "presence-only secret)")
  if s.path.toList.head? ≠ some '/' then
    throw s!"secret {s.name}: path must be absolute"
  if parseMode s.mode = none then
    throw (s!"secret {s.name}: mode " ++ Externals.debugStr s.mode ++ " is not octal")
  s.fields.forM (checkField s)

/-- `Spec::parse`. -/
def Spec.parse (text : String) : Except String Spec := do
  let spec ← (Externals.specFromStr text).mapError fun e => s!"parsing spec: {e}"
  if spec.version ≠ specVersion then
    throw (s!"spec version {spec.version} unsupported " ++
      s!"(this daemon speaks {specVersion})")
  spec.secrets.forM checkSecret
  return spec

end Parse

/-! ## What an accepted spec guarantees -/

/-- What `Spec::parse` has checked of a secret. -/
structure SecretSpec.Checked (s : SecretSpec) : Prop where
  fields : s.fields ≠ []
  validator : s.validateCommand ≠ some []
  path : s.path.toList.head? = some '/'
  mode : (parseMode s.mode).isSome
  keys : ∀ f ∈ s.fields, isValidKey f.name = true

theorem forM_ok {ε α : Type} {f : α → Except ε Unit} {l : List α} {u : Unit}
    (h : l.forM f = .ok u) : ∀ a ∈ l, f a = .ok () := by
  induction l with
  | nil => simp
  | cons a l ih =>
    change (f a >>= fun _ => l.forM f) = _ at h
    cases ha : f a with
    | error e => rw [ha] at h; cases h
    | ok v =>
      rw [ha] at h
      intro b hb
      rcases List.mem_cons.mp hb with rfl | hb
      · exact ha
      · exact ih h b hb

section Parse

variable [Externals]

theorem checkField_ok {s : SecretSpec} {f : FieldSpec} (h : checkField s f = .ok ()) :
    isValidKey f.name = true := by
  unfold checkField at h
  split at h
  · assumption
  · cases h

theorem checkSecret_ok {s : SecretSpec} (h : checkSecret s = .ok ()) : s.Checked := by
  simp only [checkSecret, bind, Except.bind, throw, throwThe, MonadExceptOf.throw] at h
  split at h
  · simp at h
  split at h
  · simp at h
  split at h
  · simp at h
  split at h
  · simp at h
  rename_i hfields hcmd hpath hmode
  exact ⟨by simpa using hfields, by simpa using hcmd, by simpa using hpath,
    Option.isSome_iff_ne_none.mpr (by simpa using hmode),
    fun f hf => checkField_ok (forM_ok h f hf)⟩

/-- Every secret of an accepted spec is checked. -/
theorem Spec.parse_checked {text : String} {spec : Spec} (h : Spec.parse text = .ok spec) :
    ∀ s ∈ spec.secrets, s.Checked := by
  simp only [Spec.parse, bind, Except.bind, throw, throwThe, MonadExceptOf.throw, pure,
    Except.pure] at h
  split at h
  · cases h
  split at h
  · simp at h
  split at h
  · cases h
  · rename_i hall
    cases h
    exact fun s hs => checkSecret_ok (forM_ok hall s hs)

end Parse

/-! ## Valid keys -/

theorem isValidKey_iff {k : String} : isValidKey k = true ↔
    k.toList ≠ [] ∧ (∀ c, k.toList.head? = some c → isAsciiDigit c = false) ∧
      ∀ c ∈ k.toList, (isAsciiAlphanumeric c || c == '_') = true := by
  unfold isValidKey
  cases k.toList <;> simp

/-- A valid key has no character that `is_ascii_alphanumeric` and `_` leave out. -/
theorem notMem_of_isValidKey {k : String} (h : isValidKey k = true) {c : Char}
    (hc : (isAsciiAlphanumeric c || c == '_') = false) : c ∉ k.toList := by
  intro hmem
  rw [(isValidKey_iff.mp h).2.2 c hmem] at hc
  cases hc

theorem isWhitespace_of_alphanumeric {c : Char}
    (h : (isAsciiAlphanumeric c || c == '_') = true) : isWhitespace c = false := by
  have hc : ('0' ≤ c ∧ c ≤ '9') ∨ ('a' ≤ c ∧ c ≤ 'z') ∨ ('A' ≤ c ∧ c ≤ 'Z') ∨ c = '_' := by
    simpa [isAsciiAlphanumeric, isAsciiDigit, or_assoc] using h
  have hn : 48 ≤ c.toNat ∧ c.toNat ≤ 122 := by
    simp only [Char.le_def, UInt32.le_iff_toNat_le] at hc
    have : ∀ d : Char, d.toNat = d.val.toNat := fun _ => rfl
    rw [this]
    rcases hc with ⟨h1, h2⟩ | ⟨h1, h2⟩ | ⟨h1, h2⟩ | rfl
    · exact ⟨h1, h2.trans (by decide)⟩
    · exact ⟨le_trans (by decide) h1, h2⟩
    · exact ⟨le_trans (by decide) h1, h2.trans (by decide)⟩
    · decide
  simp only [isWhitespace, Bool.or_eq_false_iff, Bool.and_eq_false_iff, decide_eq_false_iff_not,
    beq_eq_false_iff_ne]
  omega

end Foundrix.OperatorSecrets

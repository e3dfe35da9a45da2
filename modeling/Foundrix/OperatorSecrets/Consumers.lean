import Foundrix.OperatorSecrets.EnvFile

/-!
# Env-files and their consumers

A line of an env-file as a systemd `EnvironmentFile` and a POSIX shell that sources the
file read it. The two readers are not part of the repository; what is assumed of them is
`readValue`: the escapes inside double quotes, and the expansion of a tilde outside.

* `readValue`, `readAssignment`: the two readers, which differ in the tilde only.
* `readValue_quoted`, `readValue_bare`: what they read of an encoded value.
* `consumers_agree_iff`: the values that both read as they were entered.
-/

namespace Foundrix.OperatorSecrets

open Text

/-- What the home directory of a login name is; the empty name is the own one. -/
abbrev Homes := List Char → List Char

/-- Where a reader is in a value. -/
inductive ReadMode where
  /-- Outside quotes, where a tilde may start an expansion. -/
  | bare (tilde : Bool)
  /-- After a tilde that starts an expansion. -/
  | login (name : List Char)
  | quoted
deriving DecidableEq, Repr

/-- The rest of a value, read from a mode. `none` where the text is no plain value: a quote
is not closed, an expansion is started, or a character outside quotes is not literal. A
reader without tilde expansion has no `homes`. -/
def readValue (homes : Option Homes) : ReadMode → List Char → Option (List Char)
  | .quoted, [] => none
  | .quoted, '\\' :: c :: cs =>
    if needsEscape c then (readValue homes .quoted cs).map (c :: ·)
    else (readValue homes .quoted cs).map ('\\' :: c :: ·)
  | .quoted, c :: cs =>
    if c = '"' then readValue homes (.bare false) cs
    else if needsEscape c then none
    else (readValue homes .quoted cs).map (c :: ·)
  | .bare _, [] => some []
  | .bare tilde, c :: cs =>
    if c = '"' then readValue homes .quoted cs
    else if c = '~' ∧ tilde = true ∧ homes.isSome = true then readValue homes (.login []) cs
    else if isBareSafeChar c then (readValue homes (.bare (c == ':')) cs).map (c :: ·)
    else none
  | .login name, [] => homes.map fun home => home name
  | .login name, c :: cs =>
    if c = '/' ∨ c = ':' then do
      let home ← homes
      let rest ← readValue homes (.bare (c == ':')) cs
      return home name ++ c :: rest
    else if isBareSafeChar c then readValue homes (.login (name ++ [c])) cs
    else none

/-- What a line assigns, if it is an assignment and nothing else. -/
def readAssignment (homes : Option Homes) (line : String) : Option (String × String) :=
  match splitOnce line '=' with
  | none => none
  | some (key, text) =>
    if isValidKey key then
      (readValue homes (.bare true) text.toList).map fun value => (key, String.ofList value)
    else none

/-- A systemd unit reads the line as an entry of an `EnvironmentFile`. -/
def systemdReads (line : String) : Option (String × String) := readAssignment none line

/-- A shell reads the line where the home directories are `homes`. -/
def shReads (homes : Homes) (line : String) : Option (String × String) :=
  readAssignment (some homes) line

/-- A tilde at the start or directly after a colon. -/
def TildePrefix (v : List Char) : Prop := v.head? = some '~' ∨ [':', '~'] <:+: v

/-! ## Quoted values -/

theorem readValue_escapeChar (homes : Option Homes) (c : Char) (cs : List Char) :
    readValue homes .quoted (escapeChar c ++ cs) = (readValue homes .quoted cs).map (c :: ·) := by
  unfold escapeChar
  by_cases hc : needsEscape c = true
  · rw [if_pos hc, List.cons_append, List.singleton_append, readValue, if_pos hc]
  · have hquote : c ≠ '"' := by
      rintro rfl
      exact hc (by decide)
    have hbackslash : c ≠ '\\' := by
      rintro rfl
      exact hc (by decide)
    rw [if_neg hc, List.singleton_append, readValue, if_neg hquote, if_neg hc]
    exact fun d ds h => absurd h hbackslash

/-- A value in double quotes is read back, whatever it consists of. -/
theorem readValue_quoted (homes : Option Homes) (tilde : Bool) (v : List Char) :
    readValue homes (.bare tilde) (encodeChars v) = some v := by
  have hinside : readValue homes .quoted (v.flatMap escapeChar ++ ['"']) = some v := by
    induction v with
    | nil => rfl
    | cons c v ih => rw [List.flatMap_cons, List.append_assoc, readValue_escapeChar, ih]; rfl
  rw [encodeChars, List.cons_append, readValue, if_pos rfl, hinside]

/-! ## Bare values -/

theorem colonTilde_cons {c : Char} {cs : List Char} :
    [':', '~'] <:+: c :: cs ↔ (c = ':' ∧ cs.head? = some '~') ∨ [':', '~'] <:+: cs := by
  have hprefix : [':', '~'] <+: c :: cs ↔ c = ':' ∧ cs.head? = some '~' := by
    cases cs with
    | nil => simp
    | cons d ds => simp [List.cons_prefix_cons, eq_comm]
  rw [List.infix_cons_iff, hprefix]

/-- A bare value is read as it is where no tilde stands where it expands. -/
theorem readValue_bare {homes : Option Homes} {v : List Char} {tilde : Bool}
    (hsafe : ∀ c ∈ v, isBareSafeChar c = true)
    (hplain : homes = none ∨ ¬ ((tilde = true ∧ v.head? = some '~') ∨ [':', '~'] <:+: v)) :
    readValue homes (.bare tilde) v = some v := by
  induction v generalizing tilde with
  | nil => rfl
  | cons c v ih =>
    have hc := hsafe c List.mem_cons_self
    have hquote : c ≠ '"' := (isControl_of_bareSafe hc).2.2.1
    have htilde : ¬ (c = '~' ∧ tilde = true ∧ homes.isSome = true) := by
      rintro ⟨rfl, htilde, hhomes⟩
      rcases hplain with hnone | hplain
      · rw [hnone] at hhomes
        cases hhomes
      · exact hplain (Or.inl ⟨htilde, rfl⟩)
    have hrest : readValue homes (.bare (c == ':')) v = some v := by
      apply ih (fun d hd => hsafe d (List.mem_cons_of_mem _ hd))
      rcases hplain with hnone | hplain
      · exact Or.inl hnone
      · refine Or.inr fun h => hplain (Or.inr (colonTilde_cons.mpr ?_))
        simpa using h
    rw [readValue, if_neg hquote, if_neg htilde, if_pos hc, hrest]
    rfl

/-! ## Expanded values -/

/-- After a tilde the value contains a home directory. -/
theorem readValue_login {home : Homes} {n : Nat} (hlong : ∀ name, n ≤ (home name).length)
    {cs name w : List Char} (h : readValue (some home) (.login name) cs = some w) :
    n ≤ w.length := by
  induction cs generalizing name with
  | nil =>
    rw [readValue] at h
    cases h
    exact hlong name
  | cons c cs ih =>
    rw [readValue] at h
    split at h
    · cases hrest : readValue (some home) (.bare (c == ':')) cs with
      | none => simp [hrest] at h
      | some rest =>
        have hw : home name ++ c :: rest = w := by simpa [hrest] using h
        have := hlong name
        rw [← hw, List.length_append]
        omega
    · split at h
      · exact ih h
      · cases h

/-- Where a tilde stands where it expands, the value contains a home directory. -/
theorem readValue_expanded {home : Homes} {n : Nat} (hlong : ∀ name, n ≤ (home name).length)
    {v w : List Char} {tilde : Bool} (hsafe : ∀ c ∈ v, isBareSafeChar c = true)
    (htilde : (tilde = true ∧ v.head? = some '~') ∨ [':', '~'] <:+: v)
    (h : readValue (some home) (.bare tilde) v = some w) : n ≤ w.length := by
  induction v generalizing tilde w with
  | nil => simp at htilde
  | cons c v ih =>
    have hc := hsafe c List.mem_cons_self
    have hquote : c ≠ '"' := (isControl_of_bareSafe hc).2.2.1
    rw [readValue, if_neg hquote] at h
    by_cases hlogin : c = '~' ∧ tilde = true ∧ (some home).isSome = true
    · rw [if_pos hlogin] at h
      exact readValue_login hlong h
    · rw [if_neg hlogin, if_pos hc] at h
      cases hrest : readValue (some home) (.bare (c == ':')) v with
      | none => simp [hrest] at h
      | some rest =>
        have hw : c :: rest = w := by simpa [hrest] using h
        have hn : n ≤ rest.length := by
          apply ih (fun d hd => hsafe d (List.mem_cons_of_mem _ hd)) _ hrest
          rcases htilde with ⟨htrue, hhead⟩ | hinfix
          · exact absurd ⟨by simpa using hhead, htrue, rfl⟩ hlogin
          · simpa using colonTilde_cons.mp hinfix
        rw [← hw, List.length_cons]
        omega

/-! ## Encoded lines -/

theorem readAssignment_encoded {homes : Option Homes} {key : String} (v : String)
    (hkey : isValidKey key = true) :
    readAssignment homes (key ++ "=" ++ encodeEnvValue v) =
      (readValue homes (.bare true) (encodeEnvValue v).toList).map
        fun value => (key, String.ofList value) := by
  have hsplit : splitOnce (key ++ "=" ++ encodeEnvValue v) '=' = some (key, encodeEnvValue v) :=
    splitOnce_of_notMem (notMem_of_isValidKey hkey (by decide)) (by simp)
  rw [readAssignment, hsplit]
  simp [hkey]

/-- A systemd unit reads every value as it was entered. -/
theorem systemdReads_encoded {key : String} (v : String) (hkey : isValidKey key = true) :
    systemdReads (key ++ "=" ++ encodeEnvValue v) = some (key, v) := by
  rw [systemdReads, readAssignment_encoded v hkey]
  unfold encodeEnvValue
  by_cases hbare : isBareSafe v = true
  · rw [if_pos hbare, readValue_bare (isBareSafe_iff.mp hbare).2 (Or.inl rfl)]
    simp
  · rw [if_neg hbare, String.toList_ofList, readValue_quoted]
    simp

/-- A shell reads a value as it was entered, wherever the homes are, if it is quoted or no
tilde stands where it expands, and only then. -/
theorem shReads_encoded_iff {key v : String} (hkey : isValidKey key = true) :
    (∀ homes, shReads homes (key ++ "=" ++ encodeEnvValue v) = some (key, v)) ↔
      isBareSafe v = false ∨ ¬ TildePrefix v.toList := by
  simp only [shReads, readAssignment_encoded v hkey]
  unfold encodeEnvValue
  by_cases hbare : isBareSafe v = true
  · simp only [hbare, if_true, Bool.true_eq_false, false_or]
    have hsafe := (isBareSafe_iff.mp hbare).2
    constructor
    · intro hread htilde
      -- A home directory that is longer than the value.
      have hread := hread fun _ => List.replicate (v.toList.length + 1) '/'
      cases hvalue : readValue (some fun _ => List.replicate (v.toList.length + 1) '/')
          (.bare true) v.toList with
      | none => simp [hvalue] at hread
      | some w =>
        have hw : w = v.toList := by
          have hofList : String.ofList w = v := by simpa [hvalue] using hread
          rw [← hofList, String.toList_ofList]
        have hlong := readValue_expanded (n := v.toList.length + 1) (by simp) hsafe
          (by simpa [TildePrefix] using htilde) hvalue
        rw [hw] at hlong
        omega
    · intro hplain homes
      rw [readValue_bare hsafe (Or.inr (by simpa [TildePrefix] using hplain))]
      simp
  · simp only [hbare, Bool.false_eq_true, if_false, String.toList_ofList]
    constructor
    · exact fun _ => Or.inl (by simp)
    · intro _ homes
      rw [readValue_quoted]
      simp

/-- The line of an entered value is read as that value by systemd and by every shell if and
only if the value is quoted or has no tilde at its start or directly after a colon. -/
theorem consumers_agree_iff {key v : String} (hkey : isValidKey key = true) :
    (systemdReads (key ++ "=" ++ encodeEnvValue v) = some (key, v) ∧
      ∀ homes, shReads homes (key ++ "=" ++ encodeEnvValue v) = some (key, v)) ↔
        isBareSafe v = false ∨ ¬ TildePrefix v.toList := by
  rw [shReads_encoded_iff hkey]
  exact ⟨fun h => h.2, fun h => ⟨systemdReads_encoded v hkey, h⟩⟩

theorem consumers_agree_iff_sample :
    systemdReads ("TOKEN" ++ "=" ++ encodeEnvValue "a $b") = some ("TOKEN", "a $b") ∧
      ∀ homes, shReads homes ("TOKEN" ++ "=" ++ encodeEnvValue "a $b") = some ("TOKEN", "a $b") :=
  (consumers_agree_iff (by decide)).mpr (Or.inl (by decide))

/-- A value that starts with a tilde is left bare, and the shell puts a home directory in
its place. -/
theorem tilde_value_expanded :
    checkFieldValue "~/token" = .ok () ∧
      shReads (fun _ => "/root".toList) ("TOKEN" ++ "=" ++ encodeEnvValue "~/token") =
        some ("TOKEN", "/root/token") ∧ "/root/token" ≠ "~/token" := by
  decide

end Foundrix.OperatorSecrets

import Foundrix.OperatorSecrets.Spec

/-!
# Env-files: the encoder and the parser

`encode_env_value`, `encode_env_file`, `parse_env_file`, `decode_env_value` and
`check_field_value`. The two sides are different algorithms: the encoder leaves a value
bare or escapes four characters inside double quotes; the parser trims, splits into lines
and at the first `=`, and decodes three forms of a value.

* `decode_encode`: the decoder reads an encoded value back.
* `parseLine_key`: what the parser makes of a line `KEY=text`.
* `parse_encodeEnvFile`: the parser undoes the encoder, a later pair for a key winning.
-/

namespace Foundrix.OperatorSecrets

open Text

/-- Characters that need no quoting in a systemd `EnvironmentFile=` value. -/
def isBareSafeChar (c : Char) : Bool :=
  isAsciiAlphanumeric c || ['_', '-', '.', '/', ':', '@', '+', ',', '=', '~'].contains c

def isBareSafe (v : String) : Bool := !v.toList.isEmpty && v.toList.all isBareSafeChar

/-- The characters that stand behind a backslash in a quoted value; `\x60` is the
backquote. -/
def needsEscape (c : Char) : Bool := c == '\\' || c == '"' || c == '$' || c == '\x60'

def escapeChar (c : Char) : List Char := if needsEscape c then ['\\', c] else [c]

def encodeChars (v : List Char) : List Char := '"' :: v.flatMap escapeChar ++ ['"']

def encodeEnvValue (v : String) : String :=
  if isBareSafe v then v else String.ofList (encodeChars v.toList)

/-- One `KEY=VALUE` line, with its line end. -/
def encodeLine (kv : String × String) : String := kv.1 ++ "=" ++ encodeEnvValue kv.2 ++ "\n"

def encodeEnvFile : Values → String
  | [] => ""
  | kv :: rest => encodeLine kv ++ encodeEnvFile rest

/-- The inside of a double-quoted value: a backslash takes the next character, if there
is one. -/
def unescape : List Char → List Char
  | '\\' :: c :: cs => c :: unescape cs
  | c :: cs => c :: unescape cs
  | [] => []

def decodeEnvValue (v : String) : String :=
  match v.toList with
  | '"' :: rest =>
    if rest.getLast? = some '"' then String.ofList (unescape rest.dropLast) else v
  | '\'' :: rest => if rest.getLast? = some '\'' then String.ofList rest.dropLast else v
  | _ => v

/-- `BTreeMap::insert`. -/
def EnvMap.insert (m : EnvMap) (k v : String) : EnvMap :=
  fun k' => if k' = k then some v else m k'

def EnvMap.empty : EnvMap := fun _ => none

/-- `BTreeMap::extend`: the pairs one after the other, so that a later one wins. -/
def EnvMap.insertAll (m : EnvMap) (kvs : Values) : EnvMap :=
  kvs.foldl (fun m kv => EnvMap.insert m kv.1 kv.2) m

/-- What the parser adds for one line of the file. -/
def parseLine (m : EnvMap) (line : String) : EnvMap :=
  let line := trim line
  if line.toList = [] ∨ line.toList.head? = some '#' then m
  else
    match splitOnce line '=' with
    | none => m
    | some (k, v) =>
      if isValidKey (trim k) then m.insert (trim k) (decodeEnvValue (trim v)) else m

def parseEnvFile (text : String) : EnvMap := (lines text).foldl parseLine EnvMap.empty

def checkFieldValue (v : String) : Except String Unit :=
  if v.toList = [] then .error "must not be empty"
  else if v.toList.any isControl then
    .error "must not contain control characters or newlines"
  else .ok ()

/-! ## Checked values -/

theorem checkFieldValue_ok {v : String} :
    checkFieldValue v = .ok () ↔ v.toList ≠ [] ∧ ∀ c ∈ v.toList, isControl c = false := by
  unfold checkFieldValue
  split
  · rename_i h
    simp [h]
  split
  · rename_i hc
    obtain ⟨c, hmem, hc⟩ := List.any_eq_true.mp hc
    simp only [reduceCtorEq, false_iff, not_and, not_forall]
    exact fun _ => ⟨c, hmem, by simp [hc]⟩
  · rename_i hne hc
    simp only [true_iff]
    exact ⟨hne, fun c hmem => by simpa using fun h => hc (List.any_eq_true.mpr ⟨c, hmem, h⟩)⟩

/-! ## Bare values -/

theorem isBareSafe_iff {v : String} :
    isBareSafe v = true ↔ v.toList ≠ [] ∧ ∀ c ∈ v.toList, isBareSafeChar c = true := by
  unfold isBareSafe
  cases v.toList <;> simp

theorem isBareSafeChar_cases {c : Char} (h : isBareSafeChar c = true) :
    (isAsciiAlphanumeric c || c == '_') = true ∨
      c ∈ ['-', '.', '/', ':', '@', '+', ',', '=', '~'] := by
  simp only [isBareSafeChar, Bool.or_eq_true, List.contains_iff_mem, List.mem_cons] at h ⊢
  rcases h with h | h | h
  · exact Or.inl (Or.inl h)
  · exact Or.inl (Or.inr (by simp [h]))
  · exact Or.inr h

theorem isWhitespace_of_bareSafe {c : Char} (h : isBareSafeChar c = true) :
    isWhitespace c = false := by
  have hpunct : ['-', '.', '/', ':', '@', '+', ',', '=', '~'].all
      (fun c => !isWhitespace c) = true := by decide
  rcases isBareSafeChar_cases h with h | h
  · exact isWhitespace_of_alphanumeric h
  · simpa using List.all_eq_true.mp hpunct c h

theorem isControl_of_bareSafe {c : Char} (h : isBareSafeChar c = true) :
    c ≠ '\n' ∧ c ≠ '\r' ∧ c ≠ '"' ∧ c ≠ '\'' := by
  refine ⟨?_, ?_, ?_, ?_⟩ <;>
    · rintro rfl
      exact absurd h (by decide)

theorem decode_bare {v : String} (h : ∀ c ∈ v.toList, isBareSafeChar c = true) :
    decodeEnvValue v = v := by
  unfold decodeEnvValue
  split
  · rename_i rest hv
    exact absurd rfl (isControl_of_bareSafe (h '"' (hv ▸ List.mem_cons_self))).2.2.1
  · rename_i rest hv
    exact absurd rfl (isControl_of_bareSafe (h '\'' (hv ▸ List.mem_cons_self))).2.2.2
  · rfl

/-! ## Quoted values -/

theorem unescape_cons {c : Char} (hc : c ≠ '\\') (cs : List Char) :
    unescape (c :: cs) = c :: unescape cs := by
  rw [unescape]
  exact fun d ds h _ => hc h

theorem unescape_escapeChar (c : Char) (cs : List Char) :
    unescape (escapeChar c ++ cs) = c :: unescape cs := by
  unfold escapeChar
  split
  · rfl
  · rename_i h
    refine unescape_cons (fun hc => ?_) cs
    exact h (by simp [needsEscape, hc])

/-- Unescaping undoes escaping, whatever follows. -/
theorem unescape_flatMap (v cs : List Char) :
    unescape (v.flatMap escapeChar ++ cs) = v ++ unescape cs := by
  induction v with
  | nil => rfl
  | cons c v ih => rw [List.flatMap_cons, List.append_assoc, unescape_escapeChar, ih,
      List.cons_append]

theorem decode_quoted {v : String} {l : List Char} (h : v.toList = '"' :: l ++ ['"']) :
    decodeEnvValue v = String.ofList (unescape l) := by
  unfold decodeEnvValue
  rw [h]
  simp

/-- The decoder reads an encoded value back. -/
theorem decode_encode (v : String) : decodeEnvValue (encodeEnvValue v) = v := by
  unfold encodeEnvValue
  split
  · rename_i h
    exact decode_bare (isBareSafe_iff.mp h).2
  · have h := unescape_flatMap v.toList []
    rw [List.append_nil] at h
    rw [decode_quoted (l := v.toList.flatMap escapeChar) (by simp [encodeChars]), h]
    simp [unescape, String.ofList_toList]

/-! ## Encoded lines -/

theorem mem_encodeChars {v : List Char} {c : Char} (h : c ∈ encodeChars v) :
    c ∈ v ∨ c = '"' ∨ c = '\\' := by
  simp only [encodeChars, List.cons_append, List.mem_cons, List.mem_append, List.mem_flatMap,
    List.not_mem_nil, or_false] at h
  rcases h with h | ⟨d, hd, hc⟩ | h
  · exact Or.inr (Or.inl h)
  · unfold escapeChar at hc
    split at hc
    · rcases List.mem_cons.mp hc with hc | hc
      · exact Or.inr (Or.inr hc)
      · exact Or.inl (List.mem_singleton.mp hc ▸ hd)
    · exact Or.inl (List.mem_singleton.mp hc ▸ hd)
  · exact Or.inr (Or.inl h)

theorem mem_encodeEnvValue {v : String} {c : Char} (h : c ∈ (encodeEnvValue v).toList) :
    c ∈ v.toList ∨ c = '"' ∨ c = '\\' := by
  unfold encodeEnvValue at h
  split at h
  · exact Or.inl h
  · exact mem_encodeChars (by simpa using h)

/-- An encoded value neither starts nor ends with white space, and is not empty. -/
theorem encodeEnvValue_ends (v : String) :
    (encodeEnvValue v).toList ≠ [] ∧
    (∀ c, (encodeEnvValue v).toList.head? = some c → isWhitespace c = false) ∧
    ∀ c, (encodeEnvValue v).toList.getLast? = some c → isWhitespace c = false := by
  unfold encodeEnvValue
  split
  · rename_i h
    obtain ⟨hne, hsafe⟩ := isBareSafe_iff.mp h
    refine ⟨hne, fun c hc => isWhitespace_of_bareSafe (hsafe c ?_),
      fun c hc => isWhitespace_of_bareSafe (hsafe c ?_)⟩
    · exact List.mem_of_mem_head? (by simp [hc])
    · exact List.mem_of_getLast? hc
  · have hq : isWhitespace '"' = false := by decide
    refine ⟨by simp [encodeChars], fun c hc => ?_, fun c hc => ?_⟩
    · simp [encodeChars] at hc
      exact hc ▸ hq
    · have : c = '"' := by
        rw [String.toList_ofList, encodeChars, List.getLast?_concat] at hc
        exact (Option.some.inj hc).symm
      exact this ▸ hq

theorem trim_encodeEnvValue (v : String) : trim (encodeEnvValue v) = encodeEnvValue v :=
  trim_of_ends (encodeEnvValue_ends v).2.1 (encodeEnvValue_ends v).2.2

theorem trim_key {k : String} (h : isValidKey k = true) : trim k = k :=
  trim_of_all fun c hc => isWhitespace_of_alphanumeric ((isValidKey_iff.mp h).2.2 c hc)

theorem key_head {k : String} (hk : isValidKey k = true) {c : Char} {rest : List Char}
    (h : (k.toList ++ rest).head? = some c) : (isAsciiAlphanumeric c || c == '_') = true := by
  obtain ⟨hne, -, hall⟩ := isValidKey_iff.mp hk
  obtain ⟨d, ds, hd⟩ := List.exists_cons_of_ne_nil hne
  rw [hd] at h
  obtain rfl : d = c := by simpa using h
  exact hall d (hd ▸ List.mem_cons_self)

/-- A line `KEY=text` inserts the decoded text. -/
theorem parseLine_key {m : EnvMap} {k v line : String} (hk : isValidKey k = true)
    (hline : line.toList = k.toList ++ '=' :: v.toList) :
    parseLine m line = m.insert k (decodeEnvValue (trim v)) := by
  have hhead : ∀ c, line.toList.head? = some c → isWhitespace c = false := fun c hc =>
    isWhitespace_of_alphanumeric (key_head hk (hline ▸ hc))
  have htrim : (trim line).toList =
      k.toList ++ '=' :: (String.ofList (v.toList.rdropWhile isWhitespace)).toList := by
    rw [trim, String.toList_ofList, trimChars, dropWhile_of_head hhead, hline,
      rdropWhile_append_cons (by decide), String.toList_ofList]
  have hskip : ¬ ((trim line).toList = [] ∨ (trim line).toList.head? = some '#') := by
    rw [htrim]
    rintro (h | h)
    · simp at h
    · exact absurd (key_head hk h) (by decide)
  have hsplit := splitOnce_of_notMem (notMem_of_isValidKey hk (by decide)) htrim
  have hval : trim (String.ofList (v.toList.rdropWhile isWhitespace)) = trim v := by
    rw [trim, String.toList_ofList, trimChars_rdropWhile, trim]
  simp only [parseLine, if_neg hskip, hsplit, trim_key hk, hk, if_true, hval]

/-- A line without `=` inserts nothing. -/
theorem parseLine_noEq {m : EnvMap} {line : String} (h : '=' ∉ line.toList) :
    parseLine m line = m := by
  have hsplit : splitOnce (trim line) '=' = none := by
    refine splitOnce_none fun hmem => h ?_
    rw [trim, String.toList_ofList, trimChars] at hmem
    exact (List.dropWhile_sublist _).subset ((List.rdropWhile_prefix _ _).subset hmem)
  simp only [parseLine, hsplit]
  split <;> rfl

theorem parseLine_encoded {m : EnvMap} {k v : String} (hk : isValidKey k = true) :
    parseLine m (k ++ "=" ++ encodeEnvValue v) = m.insert k v := by
  rw [parseLine_key (v := encodeEnvValue v) hk (by simp), trim_encodeEnvValue, decode_encode]

/-! ## Encoded files -/

/-- A pair that can stand in an env-file. -/
structure Representable (kv : String × String) : Prop where
  key : isValidKey kv.1 = true
  value : checkFieldValue kv.2 = .ok ()

/-- The characters of a representable line, without its line end, are no line ends. -/
theorem Representable.not_newline {kv : String × String} (h : Representable kv) {c : Char}
    (hc : c ∈ kv.1.toList ++ '=' :: (encodeEnvValue kv.2).toList) : c ≠ '\n' ∧ c ≠ '\r' := by
  have hval := (checkFieldValue_ok.mp h.value).2
  rcases List.mem_append.mp hc with hc | hc
  · have hk := (isValidKey_iff.mp h.key).2.2 c hc
    refine ⟨?_, ?_⟩ <;>
      · rintro rfl
        exact absurd hk (by decide)
  · rcases List.mem_cons.mp hc with rfl | hc
    · decide
    · rcases mem_encodeEnvValue hc with hc | rfl | rfl
      · have := hval c hc
        refine ⟨?_, ?_⟩ <;>
          · rintro rfl
            exact absurd this (by decide)
      · decide
      · decide

theorem lineOf_toList (kv : String × String) :
    (encodeLine kv).toList = (kv.1.toList ++ '=' :: (encodeEnvValue kv.2).toList) ++ ['\n'] := by
  simp [encodeLine]

/-- The lines of a file whose first line is encoded. -/
theorem linesFrom_encodeLine {kv : String × String} (h : Representable kv) (rest : List Char) :
    linesFrom ((encodeLine kv).toList ++ rest) [] =
      (kv.1.toList ++ '=' :: (encodeEnvValue kv.2).toList) :: linesFrom rest [] := by
  rw [lineOf_toList, List.append_assoc, List.singleton_append]
  exact linesFrom_block (fun hc => (h.not_newline hc).1 rfl) (fun hc => (h.not_newline hc).2 rfl) _

/-- Parsing encoded lines in front of a text inserts their pairs one after the other. -/
theorem foldl_parse_encoded {kvs : Values} (h : ∀ kv ∈ kvs, Representable kv) (rest : List Char)
    (m : EnvMap) :
    ((linesFrom ((encodeEnvFile kvs).toList ++ rest) []).map String.ofList).foldl parseLine m =
      ((linesFrom rest []).map String.ofList).foldl parseLine (m.insertAll kvs) := by
  induction kvs generalizing m with
  | nil => rfl
  | cons kv kvs ih =>
    have hkv := h kv List.mem_cons_self
    have hline : String.ofList (kv.1.toList ++ '=' :: (encodeEnvValue kv.2).toList) =
        kv.1 ++ "=" ++ encodeEnvValue kv.2 := by
      apply String.toList_inj.mp
      simp
    rw [encodeEnvFile, String.toList_append, List.append_assoc, linesFrom_encodeLine hkv,
      List.map_cons, List.foldl_cons, hline, parseLine_encoded hkv.key,
      ih (fun kv' hkv' => h kv' (List.mem_cons_of_mem _ hkv'))]
    rfl

/-- The parser undoes the encoder: it inserts the pairs in order, so that a later pair for
a key wins. -/
theorem parse_encodeEnvFile {kvs : Values} (h : ∀ kv ∈ kvs, Representable kv) :
    parseEnvFile (encodeEnvFile kvs) = EnvMap.empty.insertAll kvs := by
  have hfold := foldl_parse_encoded h [] EnvMap.empty
  rw [List.append_nil] at hfold
  exact hfold

theorem insertAll_notMem {kvs : Values} {m : EnvMap} {k : String}
    (h : k ∉ kvs.map Prod.fst) : m.insertAll kvs k = m k := by
  induction kvs generalizing m with
  | nil => rfl
  | cons kv kvs ih =>
    rw [List.map_cons, List.mem_cons, not_or] at h
    change (m.insert kv.1 kv.2).insertAll kvs k = m k
    rw [ih h.2, EnvMap.insert, if_neg h.1]

/-- The map of a list of pairs reads, for each key, its last pair. -/
theorem insertAll_last {pre post : Values} {m : EnvMap} {k v : String}
    (h : k ∉ post.map Prod.fst) : m.insertAll (pre ++ (k, v) :: post) k = some v := by
  rw [EnvMap.insertAll, List.foldl_append, List.foldl_cons]
  change (EnvMap.insert _ k v).insertAll post k = some v
  rw [insertAll_notMem h, EnvMap.insert, if_pos rfl]

end Foundrix.OperatorSecrets

import Foundrix.OperatorSecrets.Submission

/-!
# What the operator enters is what the next boot reads

The file written for an accepted submission parses to exactly its values, and is
classified as complete with them. `samplePrograms` and `sampleSpec` are the spec of the
crate's own tests, for concrete runs.
-/

namespace Foundrix.OperatorSecrets

open Text

theorem insertAll_lookup (kvs : Values) (k : String) :
    EnvMap.empty.insertAll kvs k = kvs.reverse.lookup k := by
  induction kvs using List.reverseRecOn with
  | nil => rfl
  | append_singleton kvs kv ih =>
    have hlast : EnvMap.empty.insertAll (kvs ++ [kv]) =
        (EnvMap.empty.insertAll kvs).insert kv.1 kv.2 := by
      rw [EnvMap.insertAll, List.foldl_append]
      rfl
    rw [hlast, List.reverse_append, List.reverse_singleton, List.singleton_append,
      List.lookup_cons, EnvMap.insert, ih]
    by_cases h : k = kv.1
    · simp [h]
    · rw [if_neg h, beq_false_of_ne h]

theorem insertAll_isMem {kvs : Values} {k v : String} (h : EnvMap.empty.insertAll kvs k = some v) :
    (k, v) ∈ kvs := by
  rw [insertAll_lookup] at h
  obtain ⟨l₁, l₂, hl, -⟩ := List.lookup_eq_some_iff.mp h
  rw [← List.mem_reverse, hl]
  exact List.mem_append_right _ List.mem_cons_self

/-- Values taken from a map, as a map: exactly the pairs of the list. -/
theorem Fills.insertAll_iff {names : List String} {m : EnvMap} {vs : Values} (h : Fills names m vs)
    {k v : String} : EnvMap.empty.insertAll vs k = some v ↔ (k, v) ∈ vs := by
  refine ⟨insertAll_isMem, fun hkv => ?_⟩
  have hm := (h.values _ hkv).1
  cases hw : EnvMap.empty.insertAll vs k with
  | none =>
    rw [insertAll_lookup, List.lookup_eq_none_iff] at hw
    exact absurd (hw _ (List.mem_reverse.mpr hkv)) (by simp)
  | some w =>
    have hw' := (h.values _ (insertAll_isMem hw)).1
    exact congrArg some (Option.some.inj (hw'.symm.trans hm))

theorem Fills.insertAll {names : List String} {m : EnvMap} {vs : Values} (h : Fills names m vs) :
    Fills names (EnvMap.empty.insertAll vs) vs :=
  ⟨h.names, fun kv hkv => ⟨h.insertAll_iff.mpr hkv, (h.values kv hkv).2⟩⟩

section Statement

variable [Externals]

/-- The stored file of an accepted submission is complete with the values submitted. -/
theorem classify_encoded {s : SecretSpec} (hs : s.Checked) {l vs : Values}
    (h : acceptSubmission s l = .ok vs) :
    classifyStored s (some (parseEnvFile (encodeEnvFile vs))) = .complete vs := by
  rw [parse_encodeEnvFile (acceptSubmission_representable hs h)]
  exact classifyStored_complete.mpr (acceptSubmission_ok h).2.2.insertAll

/-- The env-file written for an accepted submission is read back as exactly the entered
values, and more generally the parser undoes the encoder on every list of valid keys and
checked values, the last pair for a key winning. -/
theorem entered_values_read_back :
    (∀ (text : String) (spec : Spec) (s : SecretSpec) (l vs : Values),
      Spec.parse text = .ok spec → s ∈ spec.secrets → acceptSubmission s l = .ok vs →
        (∀ k v, parseEnvFile (encodeEnvFile vs) k = some v ↔ (k, v) ∈ vs) ∧
        vs.map Prod.fst = s.fields.map FieldSpec.name ∧
        classifyStored s (some (parseEnvFile (encodeEnvFile vs))) = .complete vs) ∧
    ∀ kvs : Values,
      (∀ kv ∈ kvs, isValidKey kv.1 = true ∧ checkFieldValue kv.2 = .ok ()) →
        ∀ k, parseEnvFile (encodeEnvFile kvs) k = kvs.reverse.lookup k := by
  constructor
  · intro text spec s l vs hspec hs h
    have hchecked := Spec.parse_checked hspec s hs
    have hfills := (acceptSubmission_ok h).2.2
    refine ⟨fun k v => ?_, hfills.names, classify_encoded hchecked h⟩
    rw [parse_encodeEnvFile (acceptSubmission_representable hchecked h)]
    exact hfills.insertAll_iff
  · intro kvs h k
    rw [parse_encodeEnvFile fun kv hkv => ⟨(h kv hkv).1, (h kv hkv).2⟩, insertAll_lookup]

end Statement

/-! ## A concrete spec -/

def sampleText : String :=
  "\x7b\"version\":1,\"secrets\":[\x7b\"name\":\"forgejo-oidc\",\"fields\":[\x7b\"name\":" ++
  "\"CLIENT_ID\"\x7d,\x7b\"name\":\"CLIENT_SECRET\",\"sensitive\":true\x7d],\"path\":" ++
  "\"/var/credentials/forgejo-oidc.env\",\"validate_command\":[\"/bin/validate\"]\x7d]\x7d"

def sampleSecret : SecretSpec where
  name := "forgejo-oidc"
  fields := [{ name := "CLIENT_ID" }, { name := "CLIENT_SECRET", sensitive := true }]
  path := "/var/credentials/forgejo-oidc.env"
  validateCommand := some ["/bin/validate"]

/-- The decoders on the texts of concrete runs, where they do what `serde_json` and `{:?}`
do there. -/
@[reducible] def samplePrograms (text : String) (spec : Spec) : Externals where
  specFromStr t := if t = text then .ok spec else .error "expected value at line 1 column 1"
  responseFromStr t :=
    if t = "\x7b\"status\":\"valid\"\x7d" then .ok { status := .valid }
    else if t = "\x7b\"status\":\"invalid\"\x7d" then .ok { status := .invalid }
    else if t = "\x7b\"status\":\"error\"\x7d" then .ok { status := .error }
    else .error "expected value at line 1 column 1"
  debugStr t := "\"" ++ t ++ "\""

theorem samplePrograms_specFromStr (text : String) (spec : Spec) :
    (samplePrograms text spec).specFromStr text = .ok spec := if_pos rfl

theorem sample_parse :
    @Spec.parse (samplePrograms sampleText ⟨1, [sampleSecret]⟩) sampleText =
      .ok ⟨1, [sampleSecret]⟩ := by
  unfold Spec.parse
  rw [samplePrograms_specFromStr]
  decide

/-- A value with a quote, a blank and a non-ASCII blank at its end is read back. -/
theorem entered_values_read_back_sample :
    letI := samplePrograms sampleText ⟨1, [sampleSecret]⟩
    classifyStored sampleSecret (some (parseEnvFile (encodeEnvFile
        [("CLIENT_ID", "a b"), ("CLIENT_SECRET", "\" \u00a0")]))) =
      .complete [("CLIENT_ID", "a b"), ("CLIENT_SECRET", "\" \u00a0")] ∧
    parseEnvFile (encodeEnvFile [("K", "1"), ("K", "2")]) "K" = some "2" := by
  let _ := samplePrograms sampleText ⟨1, [sampleSecret]⟩
  refine ⟨(entered_values_read_back.1 sampleText ⟨1, [sampleSecret]⟩ sampleSecret
    [("CLIENT_SECRET", "\" \u00a0"), ("CLIENT_ID", "a b")] _ sample_parse (by decide)
    (by decide)).2.2, ?_⟩
  exact entered_values_read_back.2 [("K", "1"), ("K", "2")] (by decide) "K"

end Foundrix.OperatorSecrets

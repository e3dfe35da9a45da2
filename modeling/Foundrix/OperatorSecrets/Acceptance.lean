import Mathlib.Data.List.Dedup
import Foundrix.OperatorSecrets.Daemon

/-!
# The two ways to accept the values of a secret

`classify_stored` for a stored file and `accept_submission` for an answered prompt accept the
same values, and a secret without a validator is proven by either.

* `Lists`: the entries of a parsed file that a spec declares, in some order.
* `acceptSubmission_iff`: what is accepted, and in what order it does not matter.
* `paths_agree`: the result.
-/

namespace Foundrix.OperatorSecrets

open Effect

/-- The entries of the map whose keys the spec declares, each once, in any order. -/
structure Lists (s : SecretSpec) (m : EnvMap) (l : Values) : Prop where
  once : (l.map Prod.fst).Nodup
  entries : ∀ k v, (k, v) ∈ l ↔ m k = some v ∧ s.field k ≠ none

theorem field_ne_none {s : SecretSpec} {k : String} : s.field k ≠ none ↔ k ∈ s.fieldNames := by
  rw [SecretSpec.field, ne_eq, List.find?_eq_none, SecretSpec.fieldNames, List.mem_map]
  simp

/-- There is such a list for every map. -/
theorem exists_lists (s : SecretSpec) (m : EnvMap) : ∃ l, Lists s m l := by
  refine ⟨s.fieldNames.dedup.filterMap fun k => (m k).map fun v => (k, v), ?_, ?_⟩
  · have hkeys : (s.fieldNames.dedup.filterMap fun k => (m k).map fun v => (k, v)).map Prod.fst =
        s.fieldNames.dedup.filter fun k => (m k).isSome := by
      induction s.fieldNames.dedup with
      | nil => rfl
      | cons k ks ih =>
        cases hk : m k with
        | none => simp [hk, ih]
        | some v => simp [hk, ih]
    rw [hkeys]
    exact s.fieldNames.nodup_dedup.filter _
  · intro k v
    rw [List.mem_filterMap, field_ne_none]
    constructor
    · rintro ⟨k', hk', he⟩
      obtain ⟨v', hv', hkv⟩ := Option.map_eq_some_iff.mp he
      cases hkv
      exact ⟨hv', List.mem_dedup.mp hk'⟩
    · rintro ⟨hm, hk⟩
      exact ⟨k, List.mem_dedup.mpr hk, by rw [hm]; rfl⟩

/-- The entries of a map say of the declared fields what the map does. -/
theorem Lists.insertAll {s : SecretSpec} {m : EnvMap} {l : Values} (h : Lists s m l) {k : String}
    (hk : k ∈ s.fieldNames) : EnvMap.empty.insertAll l k = m k := by
  ext v
  rw [insertAll_mem h.once, h.entries, and_iff_left (field_ne_none.mpr hk)]

section Accept

variable [Externals] {s : SecretSpec} {m : EnvMap} {l vs : Values}

theorem collectFields_eq (hdeclared : ∀ kv ∈ l, s.field kv.1 ≠ none)
    (hnew : ∀ kv ∈ l, m kv.1 = none) (honce : (l.map Prod.fst).Nodup) :
    collectFields s l m = .ok (m.insertAll l) := by
  induction l generalizing m with
  | nil => rfl
  | cons kv l ih =>
    obtain ⟨k, v⟩ := kv
    obtain ⟨hk, honce⟩ := List.nodup_cons.mp honce
    have hfirst : (m k).isSome = false := by simp [hnew (k, v) List.mem_cons_self]
    rw [collectFields, if_neg (hdeclared (k, v) List.mem_cons_self), hfirst]
    apply ih (fun kv hkv => hdeclared kv (List.mem_cons_of_mem _ hkv)) ?_ honce
    intro kv hkv
    have hmem : kv.1 ∈ l.map Prod.fst := List.mem_map_of_mem hkv
    have hne : kv.1 ≠ k := fun he => hk (he ▸ hmem)
    rw [EnvMap.insert, if_neg hne]
    exact hnew kv (List.mem_cons_of_mem _ hkv)

/-- A form is accepted exactly if it has declared keys only, each once, and fills the
fields. -/
theorem acceptSubmission_iff : acceptSubmission s l = .ok vs ↔
    (∀ kv ∈ l, s.field kv.1 ≠ none) ∧ (l.map Prod.fst).Nodup ∧
      Fills s.fieldNames (EnvMap.empty.insertAll l) vs := by
  constructor
  · exact acceptSubmission_ok
  · rintro ⟨hdeclared, honce, hfills⟩
    have hcollected : collectFields s l EnvMap.empty = .ok (EnvMap.empty.insertAll l) :=
      collectFields_eq hdeclared (fun _ _ => rfl) honce
    rw [acceptSubmission, hcollected]
    exact takeFields_ok.mpr hfills

theorem Lists.accepted_iff (h : Lists s m l) :
    classifyStored s (some m) = .complete vs ↔ acceptSubmission s l = .ok vs := by
  rw [classifyStored_complete, acceptSubmission_iff]
  constructor
  · intro hfills
    refine ⟨fun kv hkv => ((h.entries kv.1 kv.2).mp hkv).2, h.once, ?_⟩
    exact hfills.congr fun k hk => h.insertAll hk
  · rintro ⟨-, -, hfills⟩
    exact hfills.congr fun k hk => (h.insertAll hk).symm

/-- A stored file is complete with the values that its declared entries, in any order, are
accepted with as a form; and what either path accepts proves a secret without a validator. -/
theorem paths_agree (s : SecretSpec) (m : EnvMap) :
    (∀ vs, classifyStored s (some m) = .complete vs ↔
      ∀ l, Lists s m l → acceptSubmission s l = .ok vs) ∧
    (∀ vs l, Lists s m l →
      (classifyStored s (some m) = .complete vs ↔ acceptSubmission s l = .ok vs)) ∧
    (s.validateCommand = none → ∀ vs timeout,
      (classifyStored s (some m) = .complete vs ∨ ∃ l, acceptSubmission s l = .ok vs) →
        validate s vs timeout = Prog.pure Verdict.valid) := by
  refine ⟨?_, fun vs l h => h.accepted_iff, ?_⟩
  · intro vs
    constructor
    · intro hcomplete l h
      exact h.accepted_iff.mp hcomplete
    · intro haccepted
      obtain ⟨l, h⟩ := exists_lists s m
      exact h.accepted_iff.mpr (haccepted l h)
  · intro hnone vs timeout haccepted
    have hfills : ∃ m', Fills s.fieldNames m' vs := by
      rcases haccepted with hcomplete | ⟨l, hl⟩
      · exact ⟨m, classifyStored_complete.mp hcomplete⟩
      · exact ⟨_, (acceptSubmission_ok hl).2.2⟩
    obtain ⟨m', hfills⟩ := hfills
    rw [validate, hnone]
    show Prog.pure (presenceVerdict s vs) = _
    rw [presenceVerdict_of_fills hfills]

end Accept

end Foundrix.OperatorSecrets

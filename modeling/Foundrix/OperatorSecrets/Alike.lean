import Mathlib.Data.List.Forall2
import Foundrix.OperatorSecrets.Daemon
import Foundrix.OperatorSecrets.RoundTrip

/-!
# Values that differ in sensitive fields only

Two values are alike where they are equal, or hidden and judged the same by
`check_field_value`. What the pure functions of the daemon make of alike inputs is alike,
and what they would show is equal.

* `classifyStored_alike`, `acceptSubmission_alike`: the same outcome, alike values.
* `shownValues_alike`, `storedShown_alike`: nothing that may be shown differs.
* `parse_alike`: files written with alike values are alike.
-/

namespace Foundrix.OperatorSecrets

open Text

/-- Equal values, or hidden ones that are checked with the same result. -/
def ValueAlike (hidden : Bool) (v₁ v₂ : String) : Prop :=
  v₁ = v₂ ∨ hidden = true ∧ checkFieldValue v₁ = checkFieldValue v₂

/-- Pairs of the same name, with values alike for the secret. -/
def PairAlike (s : SecretSpec) (a b : String × String) : Prop :=
  a.1 = b.1 ∧ ValueAlike (!s.shows a.1) a.2 b.2

abbrev ValuesAlike (s : SecretSpec) : Values → Values → Prop := List.Forall₂ (PairAlike s)

/-- Maps that are alike at every name. -/
def MapAlike (s : SecretSpec) (m₁ m₂ : EnvMap) : Prop :=
  ∀ k, Option.Rel (ValueAlike (!s.shows k)) (m₁ k) (m₂ k)

/-- Maps that are alike at the declared fields. -/
def StoredAlike (s : SecretSpec) (m₁ m₂ : EnvMap) : Prop :=
  ∀ f ∈ s.fields, Option.Rel (ValueAlike f.sensitive) (m₁ f.name) (m₂ f.name)

theorem ValueAlike.check {hidden : Bool} {v₁ v₂ : String} (h : ValueAlike hidden v₁ v₂) :
    checkFieldValue v₁ = checkFieldValue v₂ := by
  rcases h with rfl | h
  · rfl
  · exact h.2

/-- With distinct names, a declared field is shown unless it is sensitive. -/
theorem shows_eq {s : SecretSpec} (hn : s.fieldNames.Nodup) {f : FieldSpec} (hf : f ∈ s.fields) :
    s.shows f.name = !f.sensitive := by
  have hfind : s.field f.name = some f := by
    unfold SecretSpec.field
    unfold SecretSpec.fieldNames at hn
    obtain ⟨pre, post, hl⟩ := List.append_of_mem hf
    rw [hl, List.map_append, List.map_cons, List.nodup_append] at hn
    rw [hl, List.find?_append, List.find?_cons_of_pos (by simp)]
    have hpre : pre.find? (fun g => g.name == f.name) = none := by
      rw [List.find?_eq_none]
      intro g hg he
      exact hn.2.2 g.name (List.mem_map_of_mem hg) f.name List.mem_cons_self (by simpa using he)
    rw [hpre]
    rfl
  rw [SecretSpec.shows, hfind]
  rfl

/-! ## Stored files -/

/-- The accumulators of `classify_stored` for two alike files. -/
structure ClassifiedAlike (s : SecretSpec) (c₁ c₂ : Classified) : Prop where
  values : ValuesAlike s c₁.values c₂.values
  usable : MapAlike s c₁.usable c₂.usable
  missing : c₁.missing = c₂.missing

theorem mapAlike_empty (s : SecretSpec) : MapAlike s EnvMap.empty EnvMap.empty := fun _ => .none

theorem mapAlike_insert {s : SecretSpec} {m₁ m₂ : EnvMap} (h : MapAlike s m₁ m₂) {k v₁ v₂ : String}
    (hv : ValueAlike (!s.shows k) v₁ v₂) :
    MapAlike s (EnvMap.insert m₁ k v₁) (EnvMap.insert m₂ k v₂) := by
  intro k'
  simp only [EnvMap.insert]
  split
  · rename_i he
    exact he ▸ .some hv
  · exact h k'

theorem classifyField_alike {s : SecretSpec} (hn : s.fieldNames.Nodup) {m₁ m₂ : EnvMap}
    (h : StoredAlike s m₁ m₂) {f : FieldSpec} (hf : f ∈ s.fields) {c₁ c₂ : Classified}
    (hc : ClassifiedAlike s c₁ c₂) :
    ClassifiedAlike s (classifyField m₁ c₁ f) (classifyField m₂ c₂ f) := by
  have hshow : f.sensitive = !s.shows f.name := by rw [shows_eq hn hf, Bool.not_not]
  unfold classifyField
  have hrel := h f hf
  generalize m₁ f.name = a, m₂ f.name = b at hrel ⊢
  cases hrel with
  | none => exact ⟨hc.values, hc.usable, by rw [hc.missing]⟩
  | @some v₁ v₂ hv =>
    rw [hshow] at hv
    simp only [← hv.check]
    cases hcheck : checkFieldValue v₁ with
    | error e => exact ⟨hc.values, hc.usable, by rw [hc.missing]⟩
    | ok u =>
      exact ⟨List.rel_append hc.values (.cons ⟨rfl, hv⟩ .nil), mapAlike_insert hc.usable hv,
        hc.missing⟩

theorem classifyFields_alike {s : SecretSpec} (hn : s.fieldNames.Nodup) {m₁ m₂ : EnvMap}
    (h : StoredAlike s m₁ m₂) :
    ClassifiedAlike s (classifyFields m₁ s.fields) (classifyFields m₂ s.fields) := by
  have key : ∀ (fields : List FieldSpec) (c₁ c₂ : Classified), (∀ f ∈ fields, f ∈ s.fields) →
      ClassifiedAlike s c₁ c₂ → ClassifiedAlike s (fields.foldl (classifyField m₁) c₁)
        (fields.foldl (classifyField m₂) c₂) := by
    intro fields
    induction fields with
    | nil => exact fun _ _ _ hc => hc
    | cons f fields ih =>
      intro c₁ c₂ hf hc
      exact ih _ _ (fun g hg => hf g (List.mem_cons_of_mem _ hg))
        (classifyField_alike hn h (hf f List.mem_cons_self) hc)
  exact key s.fields _ _ (fun _ hf => hf) ⟨.nil, fun _ => .none, rfl⟩

/-- Alike stored states: the same kind, and nothing shown of them differs. -/
def StateAlike (s : SecretSpec) : StoredState → StoredState → Prop
  | .absent, .absent => True
  | .complete vs₁, .complete vs₂ => ValuesAlike s vs₁ vs₂
  | .incomplete r₁ u₁, .incomplete r₂ u₂ => r₁ = r₂ ∧ shownOf s u₁ = shownOf s u₂
  | _, _ => False

theorem shownOf_alike {s : SecretSpec} {m₁ m₂ : EnvMap} (h : MapAlike s m₁ m₂) :
    shownOf s m₁ = shownOf s m₂ := by
  funext k
  unfold shownOf
  split
  · rename_i hk
    have := h k
    rw [hk] at this
    generalize m₁ k = a, m₂ k = b at this ⊢
    cases this with
    | none => rfl
    | some hv =>
      rcases hv with rfl | ⟨hv, -⟩
      · rfl
      · cases hv
  · rfl

theorem classifyStored_alike {s : SecretSpec} (hn : s.fieldNames.Nodup) {m₁ m₂ : Option EnvMap}
    (h : Option.Rel (StoredAlike s) m₁ m₂) :
    StateAlike s (classifyStored s m₁) (classifyStored s m₂) := by
  cases h with
  | none => trivial
  | some h =>
    have hc := classifyFields_alike hn h
    simp only [classifyStored, ← hc.missing]
    split
    · exact hc.values
    · exact ⟨rfl, shownOf_alike hc.usable⟩

/-! ## Values shown again -/

theorem shownValues_alike {s : SecretSpec} {vs₁ vs₂ : Values} (h : ValuesAlike s vs₁ vs₂) :
    shownValues s vs₁ = shownValues s vs₂ := by
  have hfilter : (vs₁.filter fun kv => s.shows kv.1) = vs₂.filter fun kv => s.shows kv.1 := by
    induction h with
    | nil => rfl
    | @cons a b l₁ l₂ hab _ ih =>
      rw [List.filter_cons, List.filter_cons, ih, ← hab.1]
      split
      · rename_i ha
        have hv := hab.2
        rw [ha] at hv
        rcases hv with hv | ⟨hv, -⟩
        · rw [Prod.ext hab.1 hv]
        · cases hv
      · rfl
  rw [shownValues, shownValues, hfilter]

/-- The first pair of a name that is shown is the same in alike lists. -/
theorem find_alike {s : SecretSpec} {vs₁ vs₂ : Values} (h : ValuesAlike s vs₁ vs₂) {k : String}
    (hk : s.shows k = true) :
    vs₁.find? (fun kv => kv.1 == k) = vs₂.find? fun kv => kv.1 == k := by
  induction h with
  | nil => rfl
  | @cons a b l₁ l₂ hab _ ih =>
    rw [List.find?_cons, List.find?_cons, ← hab.1, ih]
    cases ha : a.1 == k with
    | false => rfl
    | true =>
      have hv := hab.2
      rw [eq_of_beq ha, hk] at hv
      rcases hv with hv | ⟨hv, -⟩
      · rw [Prod.ext hab.1 hv]
      · cases hv

theorem storedShown_alike {s : SecretSpec} (hn : s.fieldNames.Nodup) {vs₁ vs₂ : Values}
    (h : ValuesAlike s vs₁ vs₂) : storedShown s vs₁ = storedShown s vs₂ := by
  unfold storedShown
  congr 1
  refine List.filterMap_congr fun f hf => ?_
  rw [List.mem_filter] at hf
  exact find_alike h (by rw [shows_eq hn hf.1]; exact hf.2)

/-! ## Submissions -/

/-- Results of the same kind: alike values, or the same error. -/
def ResultAlike {α : Type} (R : α → α → Prop) : Except String α → Except String α → Prop
  | .ok a, .ok b => R a b
  | .error e₁, .error e₂ => e₁ = e₂
  | _, _ => False

section Accept

variable [Externals]

theorem collectFields_alike {s : SecretSpec} {l₁ l₂ : Values} (h : ValuesAlike s l₁ l₂)
    {m₁ m₂ : EnvMap} (hm : MapAlike s m₁ m₂) :
    ResultAlike (MapAlike s) (collectFields s l₁ m₁) (collectFields s l₂ m₂) := by
  induction h generalizing m₁ m₂ with
  | nil => exact hm
  | @cons a b l₁ l₂ hab _ ih =>
    obtain ⟨k, v₁⟩ := a
    obtain ⟨k', v₂⟩ := b
    obtain ⟨rfl : k = k', hv⟩ := hab
    have hsome : (m₁ k).isSome = (m₂ k).isSome := by
      have := hm k
      generalize m₁ k = a, m₂ k = b at this
      cases this <;> rfl
    simp only [collectFields, hsome]
    split
    · rfl
    split
    · rfl
    exact ih (mapAlike_insert hm hv)

omit [Externals] in
theorem takeFields_alike {s : SecretSpec} {m₁ m₂ : EnvMap} (hm : MapAlike s m₁ m₂)
    (fields : List FieldSpec) :
    ResultAlike (ValuesAlike s) (fields.mapM (takeField m₁)) (fields.mapM (takeField m₂)) := by
  induction fields with
  | nil => exact .nil
  | cons f fields ih =>
    rw [List.mapM_cons, List.mapM_cons]
    have hf : ResultAlike (PairAlike s) (takeField m₁ f) (takeField m₂ f) := by
      unfold takeField
      have := hm f.name
      generalize m₁ f.name = a, m₂ f.name = b at this
      cases this with
      | none => rfl
      | @some v₁ v₂ hv =>
        simp only [← hv.check]
        cases checkFieldValue v₁ with
        | error e => rfl
        | ok u => exact ⟨rfl, hv⟩
    generalize takeField m₁ f = r₁, takeField m₂ f = r₂ at hf
    generalize fields.mapM (takeField m₁) = t₁, fields.mapM (takeField m₂) = t₂ at ih
    rcases r₁ with e₁ | a <;> rcases r₂ with e₂ | b
    · exact hf
    · exact hf.elim
    · exact hf.elim
    · rcases t₁ with e₁ | l₁ <;> rcases t₂ with e₂ | l₂
      · exact ih
      · exact ih.elim
      · exact ih.elim
      · exact .cons hf ih

/-- Alike submissions are both rejected with the same error, or accepted with alike values. -/
theorem acceptSubmission_alike {s : SecretSpec} {l₁ l₂ : Values} (h : ValuesAlike s l₁ l₂) :
    ResultAlike (ValuesAlike s) (acceptSubmission s l₁) (acceptSubmission s l₂) := by
  have hc := collectFields_alike h (mapAlike_empty s)
  unfold acceptSubmission
  generalize collectFields s l₁ EnvMap.empty = r₁, collectFields s l₂ EnvMap.empty = r₂ at hc
  rcases r₁ with e₁ | m₁ <;> rcases r₂ with e₂ | m₂
  · exact hc
  · exact hc.elim
  · exact hc.elim
  · exact takeFields_alike hc s.fields

end Accept

/-! ## Written files -/

/-- A later secret in the same file does not show what this one hides. -/
def HiddenFrom (s s' : SecretSpec) : Prop :=
  ∀ f ∈ s.fields, f.sensitive = true → s'.shows f.name = false

/-- Alike values as maps are alike at every name. -/
theorem insertAll_alike {s : SecretSpec} {vs₁ vs₂ : Values} (h : ValuesAlike s vs₁ vs₂)
    {m₁ m₂ : EnvMap} (hm : MapAlike s m₁ m₂) : MapAlike s (m₁.insertAll vs₁) (m₂.insertAll vs₂) := by
  induction h generalizing m₁ m₂ with
  | nil => exact hm
  | @cons a b l₁ l₂ hab _ ih =>
    obtain ⟨k, v₁⟩ := a
    obtain ⟨k', v₂⟩ := b
    obtain ⟨rfl : k = k', hv⟩ := hab
    exact ih (mapAlike_insert hm hv)

/-- What is read back from files written with alike values is alike for every secret that
does not show what is hidden. -/
theorem parse_alike {s s' : SecretSpec} (hn : s.fieldNames.Nodup) (hn' : s'.fieldNames.Nodup)
    (hs : HiddenFrom s s') {vs₁ vs₂ : Values} (h : ValuesAlike s vs₁ vs₂)
    (hnames : vs₁.map Prod.fst = s.fieldNames) (hr₁ : ∀ kv ∈ vs₁, Representable kv)
    (hr₂ : ∀ kv ∈ vs₂, Representable kv) :
    StoredAlike s' (parseEnvFile (encodeEnvFile vs₁)) (parseEnvFile (encodeEnvFile vs₂)) := by
  intro f' hf'
  rw [parse_encodeEnvFile hr₁, parse_encodeEnvFile hr₂]
  have hrel := insertAll_alike h (mapAlike_empty s) f'.name
  have hkey : EnvMap.empty.insertAll vs₁ f'.name ≠ none → f'.name ∈ s.fieldNames := by
    intro hne
    by_contra hno
    exact hne (insertAll_notMem (hnames ▸ hno))
  generalize hm₁ : EnvMap.empty.insertAll vs₁ f'.name = a at hrel hkey ⊢
  generalize EnvMap.empty.insertAll vs₂ f'.name = b at hrel ⊢
  cases hrel with
  | none => exact .none
  | @some v₁ v₂ hv =>
    refine .some ?_
    rcases hv with rfl | ⟨hhid, hcheck⟩
    · exact Or.inl rfl
    obtain ⟨f, hf, hname⟩ := List.mem_map.mp (hkey (by simp))
    have hsens : f.sensitive = true := by
      rw [← hname, shows_eq hn hf] at hhid
      simpa using hhid
    have hshow := hs f hf hsens
    rw [hname, shows_eq hn' hf'] at hshow
    exact Or.inr ⟨by simpa using hshow, hcheck⟩

end Foundrix.OperatorSecrets

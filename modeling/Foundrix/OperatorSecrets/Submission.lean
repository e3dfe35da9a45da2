import Foundrix.OperatorSecrets.EnvFile

/-!
# Stored files, prompts and submitted forms

`classify_stored`, `prompt_fields` and `accept_submission`. `Fills s m vs` is what both
acceptance paths come to: `vs` lists the fields of the spec in order, each with a checked
value that `m` holds for it.
-/

namespace Foundrix.OperatorSecrets

open Text

/-! ## Stored files -/

inductive StoredState where
  | absent
  /-- Every declared field present and representable. -/
  | complete (values : Values)
  | incomplete (reason : String) (usable : EnvMap)

/-- The accumulators of `classify_stored`. -/
structure Classified where
  values : Values
  usable : EnvMap
  missing : List String

def classifyField (parsed : EnvMap) (c : Classified) (f : FieldSpec) : Classified :=
  match parsed f.name with
  | some v =>
    match checkFieldValue v with
    | .ok () => { c with
        usable := EnvMap.insert c.usable f.name v
        values := c.values ++ [(f.name, v)] }
    | .error _ => { c with missing := c.missing ++ [s!"{f.name} (unusable value)"] }
  | none => { c with missing := c.missing ++ [f.name] }

def classifyFields (parsed : EnvMap) (fields : List FieldSpec) : Classified :=
  fields.foldl (classifyField parsed) ⟨[], EnvMap.empty, []⟩

def classifyStored (s : SecretSpec) (parsed : Option EnvMap) : StoredState :=
  match parsed with
  | none => .absent
  | some parsed =>
    let c := classifyFields parsed s.fields
    if c.missing = [] then .complete c.values
    else .incomplete ("stored file is incomplete: " ++ join ", " c.missing) c.usable

/-! ## Prompts -/

structure PromptField where
  name : String
  description : String
  sensitive : Bool
  value : String
deriving DecidableEq, Repr

/-- The prompt's fields, pre-filled from `known` where they are not sensitive. -/
def promptFields (s : SecretSpec) (known : EnvMap) : List PromptField :=
  s.fields.map fun f =>
    { name := f.name
      description := f.description
      sensitive := f.sensitive
      value := if f.sensitive then "" else (known f.name).getD "" }

/-- The pairs that may be shown again, as a map: how `known` is rebuilt. -/
def shownValues (s : SecretSpec) (values : Values) : EnvMap :=
  EnvMap.empty.insertAll (values.filter fun kv => s.shows kv.1)

/-! ## Submissions -/

section Accept

variable [Externals]

/-- The first loop of `accept_submission`: no unknown field and none twice. -/
def collectFields (s : SecretSpec) : Values → EnvMap → Except String EnvMap
  | [], m => .ok m
  | (k, v) :: rest, m =>
    if s.field k = none then .error ("unknown field " ++ Externals.debugStr k)
    else if (m k).isSome then .error ("field " ++ Externals.debugStr k ++ " submitted twice")
    else collectFields s rest (EnvMap.insert m k v)

def takeField (m : EnvMap) (f : FieldSpec) : Except String (String × String) :=
  match m f.name with
  | none => .error s!"{f.name} is missing"
  | some v =>
    match checkFieldValue v with
    | .error e => .error s!"{f.name}: {e}"
    | .ok () => .ok (f.name, v)

def acceptSubmission (s : SecretSpec) (values : Values) : Except String Values := do
  let m ← collectFields s values EnvMap.empty
  s.fields.mapM (takeField m)

end Accept

/-! ## What acceptance means -/

/-- `vs` lists the fields in order with checked values of the map. -/
structure Fills (names : List String) (m : EnvMap) (vs : Values) : Prop where
  names : vs.map Prod.fst = names
  values : ∀ kv ∈ vs, m kv.1 = some kv.2 ∧ checkFieldValue kv.2 = .ok ()

theorem fills_nil {m : EnvMap} {vs : Values} : Fills [] m vs ↔ vs = [] := by
  constructor
  · rintro ⟨h, -⟩
    exact List.map_eq_nil_iff.mp h
  · rintro rfl
    exact ⟨rfl, by simp⟩

theorem fills_cons {name : String} {names : List String} {m : EnvMap} {vs : Values} :
    Fills (name :: names) m vs ↔ ∃ v vs', vs = (name, v) :: vs' ∧ m name = some v ∧
      checkFieldValue v = .ok () ∧ Fills names m vs' := by
  constructor
  · rintro ⟨hn, hv⟩
    cases vs with
    | nil => simp at hn
    | cons kv vs' =>
      obtain ⟨k, v⟩ := kv
      rw [List.map_cons, List.cons.injEq] at hn
      obtain ⟨rfl, hn⟩ := hn
      have hkv := hv (k, v) List.mem_cons_self
      exact ⟨v, vs', rfl, hkv.1, hkv.2, hn, fun kv' h => hv kv' (List.mem_cons_of_mem _ h)⟩
  · rintro ⟨v, vs', rfl, hm, hc, hn, hv⟩
    refine ⟨by rw [List.map_cons, hn], fun kv hkv => ?_⟩
    rcases List.mem_cons.mp hkv with rfl | hkv
    · exact ⟨hm, hc⟩
    · exact hv kv hkv

/-- At most one list fills the fields from a map. -/
theorem Fills.unique {names : List String} {m : EnvMap} {vs ws : Values} (h : Fills names m vs)
    (h' : Fills names m ws) : vs = ws := by
  induction names generalizing vs ws with
  | nil => rw [fills_nil.mp h, fills_nil.mp h']
  | cons name names ih =>
    obtain ⟨v, vs', rfl, hv, -, hvs⟩ := fills_cons.mp h
    obtain ⟨w, ws', rfl, hw, -, hws⟩ := fills_cons.mp h'
    obtain rfl := Option.some.inj (hv.symm.trans hw)
    rw [ih hvs hws]

theorem Fills.congr {names : List String} {m m' : EnvMap} {vs : Values} (h : Fills names m vs)
    (hm : ∀ k ∈ names, m' k = m k) : Fills names m' vs :=
  ⟨h.names, fun kv hkv => by
    rw [hm kv.1 (h.names ▸ List.mem_map_of_mem hkv)]
    exact h.values kv hkv⟩

/-- Values that fill the fields of a checked secret can stand in its env-file. -/
theorem Fills.representable {s : SecretSpec} (hs : s.Checked) {m : EnvMap} {vs : Values}
    (h : Fills s.fieldNames m vs) : ∀ kv ∈ vs, Representable kv := by
  intro kv hkv
  refine ⟨?_, (h.values kv hkv).2⟩
  have hname : kv.1 ∈ s.fieldNames := h.names ▸ List.mem_map_of_mem hkv
  obtain ⟨f, hmem, he⟩ := List.mem_map.mp hname
  exact he ▸ hs.keys f hmem

/-! ## Classification -/

theorem classifyFields_from (parsed : EnvMap) (fields : List FieldSpec) (c : Classified) :
    let r := fields.foldl (classifyField parsed) c
    (r.missing = [] ↔ c.missing = [] ∧ ∃ vs, Fills (fields.map FieldSpec.name) parsed vs) ∧
    ∀ vs, Fills (fields.map FieldSpec.name) parsed vs → r.values = c.values ++ vs := by
  induction fields generalizing c with
  | nil =>
    refine ⟨⟨fun h => ⟨h, [], fills_nil.mpr rfl⟩, fun h => h.1⟩, fun vs hvs => ?_⟩
    rw [fills_nil.mp hvs]
    simp
  | cons f fields ih =>
    obtain ⟨hm, hv⟩ := ih (classifyField parsed c f)
    simp only [List.foldl_cons, List.map_cons]
    have usable : ∀ v, parsed f.name = some v → checkFieldValue v = .ok () →
        (classifyField parsed c f).missing = c.missing ∧
        (classifyField parsed c f).values = c.values ++ [(f.name, v)] := by
      intro v hp hc
      simp only [classifyField, hp, hc, and_self]
    have unusable : (∀ v, parsed f.name = some v → checkFieldValue v ≠ .ok ()) →
        (classifyField parsed c f).missing ≠ [] := by
      intro h
      unfold classifyField
      split
      · rename_i v hp
        split
        · rename_i hc
          exact absurd hc (h v hp)
        · simp
      · simp
    by_cases h : ∃ v, parsed f.name = some v ∧ checkFieldValue v = .ok ()
    · obtain ⟨v, hp, hc⟩ := h
      obtain ⟨u1, u2⟩ := usable v hp hc
      rw [u1] at hm
      rw [u2] at hv
      refine ⟨hm.trans (and_congr_right fun _ => ⟨?_, ?_⟩), fun vs hvs => ?_⟩
      · rintro ⟨vs, hvs⟩
        exact ⟨(f.name, v) :: vs, fills_cons.mpr ⟨v, vs, rfl, hp, hc, hvs⟩⟩
      · rintro ⟨vs, hvs⟩
        obtain ⟨_, vs', -, -, -, hvs'⟩ := fills_cons.mp hvs
        exact ⟨vs', hvs'⟩
      · obtain ⟨w, vs', rfl, hw, -, hvs'⟩ := fills_cons.mp hvs
        obtain rfl := Option.some.inj (hp.symm.trans hw)
        rw [hv vs' hvs', List.append_assoc]
        rfl
    · have hno : ∀ vs, ¬ Fills (f.name :: fields.map FieldSpec.name) parsed vs := by
        intro vs hvs
        obtain ⟨v, _, -, hp, hc, -⟩ := fills_cons.mp hvs
        exact h ⟨v, hp, hc⟩
      have hne := unusable fun v hp hc => h ⟨v, hp, hc⟩
      refine ⟨⟨fun hr => absurd (hm.mp hr).1 hne, ?_⟩, fun vs hvs => absurd hvs (hno vs)⟩
      rintro ⟨-, vs, hvs⟩
      exact absurd hvs (hno vs)

theorem classifyFields_spec (m : EnvMap) (fields : List FieldSpec) :
    ((classifyFields m fields).missing = [] ↔ ∃ vs, Fills (fields.map FieldSpec.name) m vs) ∧
    ∀ vs, Fills (fields.map FieldSpec.name) m vs → (classifyFields m fields).values = vs := by
  obtain ⟨hm, hv⟩ := classifyFields_from m fields ⟨[], EnvMap.empty, []⟩
  exact ⟨hm.trans (and_iff_right rfl), fun vs hvs => (hv vs hvs).trans (List.nil_append _)⟩

/-- A stored file is complete exactly with the values that fill the fields. -/
theorem classifyStored_complete {s : SecretSpec} {m : EnvMap} {vs : Values} :
    classifyStored s (some m) = .complete vs ↔ Fills s.fieldNames m vs := by
  obtain ⟨hm, hv⟩ := classifyFields_spec m s.fields
  simp only [classifyStored]
  constructor
  · intro hc
    split at hc
    · rename_i hmiss
      obtain ⟨ws, hws⟩ := hm.mp hmiss
      rw [hv ws hws, StoredState.complete.injEq] at hc
      exact hc ▸ hws
    · cases hc
  · intro hf
    rw [if_pos (hm.mpr ⟨vs, hf⟩), hv vs hf]

/-! ## Acceptance -/

theorem takeFields_ok {m : EnvMap} {fields : List FieldSpec} {vs : Values} :
    fields.mapM (takeField m) = .ok vs ↔ Fills (fields.map FieldSpec.name) m vs := by
  induction fields generalizing vs with
  | nil =>
    rw [List.map_nil, fills_nil, List.mapM_nil]
    exact ⟨fun h => (Except.ok.inj h).symm, fun h => congrArg Except.ok h.symm⟩
  | cons f fields ih =>
    rw [List.map_cons, fills_cons, List.mapM_cons]
    constructor
    · intro h
      cases hf : takeField m f with
      | error e => rw [hf] at h; cases h
      | ok kv =>
        rw [hf] at h
        cases hr : fields.mapM (takeField m) with
        | error e =>
          rw [hr] at h
          cases h
        | ok ws =>
          rw [hr] at h
          cases h
          unfold takeField at hf
          split at hf
          · cases hf
          · rename_i v hm
            split at hf
            · cases hf
            · rename_i hc
              cases hf
              exact ⟨v, ws, rfl, hm, hc, ih.mp hr⟩
    · rintro ⟨v, ws, rfl, hm, hc, hws⟩
      have hf : takeField m f = .ok (f.name, v) := by
        unfold takeField
        simp only [hm, hc]
      rw [hf, ih.mpr hws]
      rfl

theorem insertAll_mem {l : Values} {k v : String} (hn : (l.map Prod.fst).Nodup) :
    EnvMap.empty.insertAll l k = some v ↔ (k, v) ∈ l := by
  constructor
  · intro h
    by_cases hk : k ∈ l.map Prod.fst
    · obtain ⟨⟨k', w⟩, hkv, rfl⟩ := List.mem_map.mp hk
      obtain ⟨pre, post, rfl⟩ := List.append_of_mem hkv
      have hpost : k' ∉ post.map Prod.fst := by
        rw [List.map_append, List.map_cons, List.nodup_append] at hn
        exact (List.nodup_cons.mp hn.2.1).1
      rw [insertAll_last hpost] at h
      cases h
      exact hkv
    · rw [insertAll_notMem hk] at h
      cases h
  · intro h
    obtain ⟨pre, post, rfl⟩ := List.append_of_mem h
    rw [List.map_append, List.map_cons, List.nodup_append] at hn
    exact insertAll_last (List.nodup_cons.mp hn.2.1).1

section Accept

variable [Externals]

theorem collectFields_ok {s : SecretSpec} {l : Values} {m m' : EnvMap}
    (h : collectFields s l m = .ok m') : (∀ kv ∈ l, s.field kv.1 ≠ none) ∧
      (∀ kv ∈ l, m kv.1 = none) ∧ (l.map Prod.fst).Nodup ∧ m' = m.insertAll l := by
  induction l generalizing m with
  | nil =>
    cases h
    exact ⟨by simp, by simp, List.nodup_nil, rfl⟩
  | cons kv l ih =>
    obtain ⟨k, v⟩ := kv
    rw [collectFields] at h
    split at h
    · cases h
    split at h
    · cases h
    rename_i hk hm
    obtain ⟨h1, h2, h3, h4⟩ := ih h
    have hmk : m k = none := by simpa using hm
    have hnew : ∀ kv ∈ l, kv.1 ≠ k ∧ m kv.1 = none := by
      intro kv hkv
      have := h2 kv hkv
      rw [EnvMap.insert] at this
      split at this
      · cases this
      · exact ⟨by assumption, this⟩
    refine ⟨?_, ?_, ?_, h4⟩
    · intro kv hkv
      rcases List.mem_cons.mp hkv with rfl | hkv
      · exact hk
      · exact h1 kv hkv
    · intro kv hkv
      rcases List.mem_cons.mp hkv with rfl | hkv
      · exact hmk
      · exact (hnew kv hkv).2
    · rw [List.map_cons, List.nodup_cons]
      refine ⟨fun hmem => ?_, h3⟩
      obtain ⟨kv, hkv, he⟩ := List.mem_map.mp hmem
      exact (hnew kv hkv).1 he

/-- An accepted submission names declared fields only, each once, and its values fill the
fields of the spec. -/
theorem acceptSubmission_ok {s : SecretSpec} {l vs : Values} (h : acceptSubmission s l = .ok vs) :
    (∀ kv ∈ l, s.field kv.1 ≠ none) ∧ (l.map Prod.fst).Nodup ∧
      Fills s.fieldNames (EnvMap.empty.insertAll l) vs := by
  unfold acceptSubmission at h
  cases hc : collectFields s l EnvMap.empty with
  | error e => rw [hc] at h; cases h
  | ok m =>
    rw [hc] at h
    obtain ⟨h1, -, h3, rfl⟩ := collectFields_ok hc
    exact ⟨h1, h3, takeFields_ok.mp h⟩

/-- A form that lists the fields of the spec in order is returned as it was submitted. -/
theorem acceptSubmission_form {s : SecretSpec} {l vs : Values} (h : acceptSubmission s l = .ok vs)
    (hl : l.map Prod.fst = s.fieldNames) : vs = l := by
  obtain ⟨-, hn, hf⟩ := acceptSubmission_ok h
  have hmem : ∀ kv ∈ vs, kv ∈ l := fun kv hkv => (insertAll_mem hn).mp (hf.values kv hkv).1
  have key : ∀ (vs l' : Values), vs.map Prod.fst = l'.map Prod.fst → (∀ kv ∈ vs, kv ∈ l) →
      (∀ kv ∈ l', kv ∈ l) → vs = l' := by
    intro vs
    induction vs with
    | nil =>
      intro l' hmap _ _
      exact (List.map_eq_nil_iff.mp hmap.symm).symm
    | cons kv vs ih =>
      intro l' hmap h1 h2
      cases l' with
      | nil => simp at hmap
      | cons kv' l' =>
        rw [List.map_cons, List.map_cons, List.cons.injEq] at hmap
        have e : kv = kv' := by
          have a := (insertAll_mem hn).mpr (h1 kv List.mem_cons_self)
          have b := (insertAll_mem hn).mpr (h2 kv' List.mem_cons_self)
          rw [hmap.1, b] at a
          exact Prod.ext hmap.1 (Option.some.inj a).symm
        rw [e, ih l' hmap.2 (fun x hx => h1 x (List.mem_cons_of_mem _ hx))
          fun x hx => h2 x (List.mem_cons_of_mem _ hx)]
  exact key vs l (hf.names.trans hl.symm) hmem fun _ h => h

/-- The values of an accepted submission can stand in the env-file of a checked spec. -/
theorem acceptSubmission_representable {s : SecretSpec} (hs : s.Checked) {l vs : Values}
    (h : acceptSubmission s l = .ok vs) : ∀ kv ∈ vs, Representable kv :=
  (acceptSubmission_ok h).2.2.representable hs

end Accept

end Foundrix.OperatorSecrets

import Foundrix.ZitadelConfigure.OrgDirectory

/-!
# Adopting organisations

An organisation is adopted for a domain that it carries, and also for one that it is named
after. The second happens to an organisation whose creation was interrupted, and nothing adds
the domain then.

* `Known`: what the lists say that a run reads first.
* `existingOrg_eq_none`, `existingOrg_eq_some`: which organisation is adopted.
* `convergeOrgs_spec`: what a run leaves for each domain.
* `orgs_converged_iff`: when every domain has an organisation that carries it.
-/

namespace Foundrix.ZitadelConfigure

open Text Effect Machine

/-! ## Owners -/

theorem addOwners_cons (owners : List (String × String)) (orgId : String) (d : OrgDomain)
    (ds : List OrgDomain) : addOwners owners orgId (d :: ds) =
      addOwners (addOwners owners orgId [d]) orgId ds := rfl

/-- The first owner stays. -/
theorem lookup_addOwners (owners : List (String × String)) (orgId : String)
    (domains : List OrgDomain) (d : String) : (addOwners owners orgId domains).lookup d =
      (owners.lookup d).or (if d ∈ domains.map OrgDomain.domainName then some orgId else none) := by
  induction domains generalizing owners with
  | nil => simp [addOwners]
  | cons domain domains ih =>
    rw [addOwners_cons, ih]
    have hone : (addOwners owners orgId [domain]).lookup d =
        (owners.lookup d).or (if d = domain.domainName then some orgId else none) := by
      simp only [addOwners, List.foldl_cons, List.foldl_nil]
      split
      · rename_i howned
        by_cases hd : d = domain.domainName
        · subst hd
          obtain ⟨id, hid⟩ := Option.isSome_iff_exists.mp howned
          simp [hid]
        · simp [hd]
      · rw [List.lookup_append]
        by_cases hd : d = domain.domainName
        · simp [hd]
        · simp [List.lookup_cons, beq_false_of_ne hd, hd]
    rw [hone, Option.or_assoc]
    congr 1
    by_cases hd : d = domain.domainName <;> simp [hd]

/-- What is known of the organisations when domains are assigned. -/
structure Known (w : Directory) (owners : List (String × String)) (orgs : List Org) : Prop where
  owner : ∀ d id, owners.lookup d = some id → w.Carries id d
  owned : ∀ o ∈ w.orgs, ∀ d ∈ o.domains, ∃ id, owners.lookup d = some id
  orgs : ∀ o, o ∈ orgs ↔ ∃ s ∈ w.orgs, o = s.shown

section Owners

variable {w : Directory} {x : Directory × List String}

/-- The owners of the domains of some organisations. -/
theorem domainOwners_spec {owners : List (String × String)} {orgs : List Org}
    (howner : ∀ d id, owners.lookup d = some id → x.1.Carries id d)
    (horgs : ∀ o ∈ orgs, ∃ s ∈ x.1.orgs, o = s.shown) (hx : Grown w x x) :
    wpOk listed (Grown w x) (domainOwners owners orgs) (fun r y => y = x ∧
      (∀ d id, r.lookup d = some id → x.1.Carries id d) ∧
      (∀ d id, owners.lookup d = some id → r.lookup d = some id) ∧
      ∀ s ∈ x.1.orgs, s.shown ∈ orgs → ∀ d ∈ s.domains, ∃ id, r.lookup d = some id) x := by
  induction orgs generalizing owners with
  | nil => exact wpOk_pure hx ⟨rfl, howner, fun _ _ h => h, nofun⟩
  | cons org orgs ih =>
    obtain ⟨s, hs, rfl⟩ := horgs org List.mem_cons_self
    refine wpOk_seq (listOrgDomains_spec hx hs) fun found y _ hfound => ?_
    obtain ⟨rfl, hfound⟩ := hfound
    have howner' : ∀ d id, (addOwners owners s.id found).lookup d = some id →
        y.1.Carries id d := by
      intro d id hid
      rw [lookup_addOwners, Option.or_eq_some_iff] at hid
      rcases hid with hid | ⟨-, hid⟩
      · exact howner d id hid
      · split at hid
        · rename_i hd
          exact ⟨s, hs, Option.some.inj hid, (hfound d).mp hd⟩
        · cases hid
    refine wpOk_mono (ih howner' fun o ho => horgs o (List.mem_cons_of_mem _ ho)) ?_
    rintro r z - ⟨hsame, hcarried, hkept, hlisted⟩
    refine ⟨hsame, hcarried, fun d id hid => hkept d id ?_, fun t ht hshown d hd => ?_⟩
    · rw [lookup_addOwners, hid, Option.some_or]
    · rcases List.mem_cons.mp hshown with hfirst | hrest
      · obtain rfl : t = s := by
          apply hx.sound.unique t ht s hs
          exact congrArg Org.id hfirst
        have hadded : ∃ id, (addOwners owners t.id found).lookup d = some id := by
          rw [lookup_addOwners, if_pos ((hfound d).mpr hd)]
          cases owners.lookup d with
          | none => exact ⟨_, rfl⟩
          | some id => exact ⟨_, rfl⟩
        obtain ⟨id, hid⟩ := hadded
        exact ⟨id, hkept d id hid⟩
      · exact hlisted t ht hrest d hd

end Owners

/-! ## Which organisation is adopted -/

section Adopted

variable {w : Directory} {owners : List (String × String)} {orgs : List Org} {d id : String}

/-- Without an owner, only a name counts: a primary domain is one of the domains. -/
theorem existingOrg_of_lookup_none (h : Known w owners orgs) (hsound : w.Sound)
    (howner : owners.lookup d = none) : (∀ o ∈ w.orgs, d ∉ o.domains) ∧
      ∀ s ∈ w.orgs, (s.shown.primaryDomain == some d || s.shown.name == d) = true ↔ s.name = d := by
  have hnone : ∀ o ∈ w.orgs, d ∉ o.domains := by
    intro o ho hd
    obtain ⟨id, hid⟩ := h.owned o ho d hd
    rw [howner] at hid
    cases hid
  refine ⟨hnone, fun s hs => ?_⟩
  rw [Bool.or_eq_true, beq_iff_eq, beq_iff_eq]
  constructor
  · rintro (hprimary | hname)
    · exact absurd (hsound.primary s hs d hprimary) (hnone s hs)
    · exact hname
  · exact Or.inr

/-- None is adopted only for a domain that nothing carries or is named after. -/
theorem existingOrg_eq_none (h : Known w owners orgs) (hsound : w.Sound)
    (hnone : existingOrg owners orgs d = none) : w.Unclaimed d := by
  unfold existingOrg at hnone
  cases howner : owners.lookup d with
  | some id =>
    obtain ⟨o, ho, rfl, -⟩ := h.owner d id howner
    simp [howner, hsound.ids o ho] at hnone
  | none =>
    obtain ⟨hcarried, hnamed⟩ := existingOrg_of_lookup_none h hsound howner
    rw [howner] at hnone
    cases hfind : orgs.find? fun o : Org => o.primaryDomain == some d || o.name == d with
    | some o =>
      obtain ⟨s, hs, rfl⟩ := (h.orgs o).mp (List.mem_of_find?_eq_some hfind)
      simp [hfind, ServerOrg.shown, hsound.ids s hs] at hnone
    | none =>
      intro s hs
      refine ⟨fun hname => ?_, hcarried s hs⟩
      have hno := List.find?_eq_none.mp hfind s.shown ((h.orgs _).mpr ⟨s, hs, rfl⟩)
      exact hno ((hnamed s hs).mpr hname)

/-- The adopted organisation carries the domain, or none does and it is named after it. -/
theorem existingOrg_eq_some (h : Known w owners orgs) (hsound : w.Sound)
    (hsome : existingOrg owners orgs d = some id) : w.Carries id d ∨
      ((∀ o ∈ w.orgs, d ∉ o.domains) ∧ ∃ o ∈ w.orgs, o.id = id ∧ o.name = d) := by
  unfold existingOrg at hsome
  cases howner : owners.lookup d with
  | some id' =>
    rw [howner] at hsome
    obtain ⟨hid, -⟩ := Option.filter_eq_some_iff.mp hsome
    exact Or.inl (Option.some.inj hid ▸ h.owner d id' howner)
  | none =>
    obtain ⟨hcarried, hnamed⟩ := existingOrg_of_lookup_none h hsound howner
    rw [howner] at hsome
    obtain ⟨hid, -⟩ := Option.filter_eq_some_iff.mp hsome
    obtain ⟨o, hfind, rfl⟩ := Option.map_eq_some_iff.mp hid
    obtain ⟨s, hs, rfl⟩ := (h.orgs o).mp (List.mem_of_find?_eq_some hfind)
    have hfound : (s.shown.primaryDomain == some d || s.shown.name == d) = true := by
      have hholds := List.find?_some hfind
      exact hholds
    exact Or.inr ⟨hcarried, s, hs, rfl, (hnamed s hs).mp hfound⟩

end Adopted

/-! ## A run -/

/-- The organisation that a domain has got: the one that was adopted, or a new one. -/
def Assigned (owners : List (String × String)) (orgs : List Org) (w : Directory) (domain : String)
    (v : Option String) : Prop :=
  ∃ id, v = some id ∧ (existingOrg owners orgs domain = some id ∨
    (existingOrg owners orgs domain = none ∧ w.Carries id domain))

section Runs

variable {w : Directory} {x y : Directory × List String} {owners : List (String × String)}
  {orgs : List Org}

theorem Assigned.grown {domain : String} {v : Option String}
    (h : Assigned owners orgs x.1 domain v) (hy : Grown w x y) :
    Assigned owners orgs y.1 domain v := by
  obtain ⟨id, hv, hadopted | ⟨hnone, hcarries⟩⟩ := h
  · exact ⟨id, hv, Or.inl hadopted⟩
  · exact ⟨id, hv, Or.inr ⟨hnone, hy.carries id domain hcarries⟩⟩

/-- The three calls for a domain that nothing is adopted for. -/
theorem foundOrg_spec {α : Type} {domain : String} {f : Option String → Script α}
    {Q : α → Directory × List String → Prop} (hx : Grown w x x) (hdomain : w.Unclaimed domain)
    (hf : ∀ id y, Grown w x y → y.1.Carries id domain →
      wpOk listed (Grown w y) (f (some id)) Q y) :
    wpOk listed (Grown w x) (do
      let orgId ← request (.createOrg domain)
      request (.addOrgDomain domain orgId)
      request (.setPrimaryOrgDomain domain orgId)
      f orgId) Q x := by
  refine wpOk_seq_trans (S := Grown w) Grown.trans (createOrg_spec hx hdomain) fun r y hy hr => ?_
  obtain ⟨id, rfl, hid, hfresh, hthere⟩ := hr
  refine wpOk_seq_trans (S := Grown w) Grown.trans (addOrgDomain_spec hy.start hid hfresh hthere domain)
    fun _ z hz hcarries => ?_
  refine wpOk_seq_trans (S := Grown w) Grown.trans (setPrimaryOrgDomain_spec hz.start hid hfresh domain)
    fun _ v hv _ => ?_
  exact hf id v ((hy.trans hz).trans hv) (hv.carries id domain hcarries)

/-- Every domain gets an organisation, in the order of the domains. -/
theorem assignOrgs_spec (hknown : Known w owners orgs) (hsound : w.Sound) {domains : List String}
    {orgMap : OrgMap} (hx : Grown w x x) :
    wpOk listed (Grown w x) (assignOrgs owners orgs orgMap domains) (fun m y =>
      ∃ new, m = orgMap ++ new ∧ new.map Prod.fst = domains ∧
        ∀ e ∈ new, Assigned owners orgs y.1 e.1 e.2) x := by
  induction domains generalizing orgMap x with
  | nil => exact wpOk_pure hx ⟨[], (List.append_nil _).symm, rfl, nofun⟩
  | cons domain domains ih =>
    have hrest : ∀ v y, Grown w x y → Assigned owners orgs y.1 domain v →
        wpOk listed (Grown w y) (assignOrgs owners orgs (orgMap ++ [(domain, v)]) domains)
          (fun m z => ∃ new, m = orgMap ++ new ∧ new.map Prod.fst = domain :: domains ∧
            ∀ e ∈ new, Assigned owners orgs z.1 e.1 e.2) y := by
      intro v y hy hassigned
      refine wpOk_mono (ih hy.start) ?_
      rintro m z hz ⟨new, rfl, rfl, hnew⟩
      refine ⟨(domain, v) :: new, by simp, rfl, fun e he => ?_⟩
      rcases List.mem_cons.mp he with rfl | he
      · exact hassigned.grown hz
      · exact hnew e he
    rw [assignOrgs]
    cases hexisting : existingOrg owners orgs domain with
    | some id => exact hrest _ _ hx ⟨id, rfl, Or.inl hexisting⟩
    | none =>
      refine foundOrg_spec hx (existingOrg_eq_none hknown hsound hexisting) fun id y hy hc => ?_
      exact hrest _ _ hy ⟨id, rfl, Or.inr ⟨hexisting, hc⟩⟩

/-- A run assigns what its first lists tell it to. -/
theorem convergeOrgs_spec (hsound : w.Sound) (domains : List String) :
    wpOk listed (Grown w (w, [])) (convergeOrgs domains) (fun m y =>
      ∃ owners orgs, Known w owners orgs ∧ m.map Prod.fst = domains ∧
        ∀ e ∈ m, Assigned owners orgs y.1 e.1 e.2) (w, []) := by
  have hx : Grown w (w, []) (w, []) :=
    ⟨hsound, fun _ h => h, fun _ _ h => h, fun _ h => Or.inl h⟩
  refine wpOk_seq (listOrgs_spec hx) fun orgs y _ horgs => ?_
  obtain ⟨rfl, horgs⟩ := horgs
  refine wpOk_seq (domainOwners_spec nofun (fun o ho => (horgs o).mp ho) hx)
    fun owners y _ hr => ?_
  obtain ⟨rfl, hcarried, -, hlisted⟩ := hr
  have hknown : Known w owners orgs :=
    ⟨hcarried, fun o ho => hlisted o ho ((horgs _).mpr ⟨o, ho, rfl⟩), horgs⟩
  refine wpOk_mono (assignOrgs_spec hknown hsound hx) ?_
  rintro m z - ⟨new, rfl, hnames, hnew⟩
  exact ⟨owners, orgs, hknown, hnames, hnew⟩

end Runs

/-! ## Any sequence of runs -/

/-- A run of `convergeOrgs`, with the domains that it was to create organisations for and its
result where it was not cut. -/
structure OrgsRun where
  domains : List String
  created : List String
  result : Option (Except Failure OrgMap)

def orgsStep (H : Handler Op (Directory × List String)) (w : Directory) (r : OrgsRun)
    (w' : Directory) : Prop :=
  Run H (convergeOrgs r.domains) (w, []) r.result (w', r.created)

/-- Every domain has an organisation that carries it, and organisations were created only for
domains that none carried or was named after. -/
structure OrgsConverged (w : Directory) (r : OrgsRun) (m : OrgMap) (w' : Directory) : Prop where
  carries : ∀ d ∈ r.domains, ∃ id, m.lookup d = some (some id) ∧ w'.Carries id d
  created : ∀ d ∈ r.created, w.Unclaimed d

section History

variable {w w₁ w₂ : Directory} {l : List (Directory × OrgsRun)} {r : OrgsRun} {m : OrgMap}

theorem grown_of_step (hsound : w.Sound) (h : orgsStep listed w r w₁) :
    Grown w (w, []) (w₁, r.created) :=
  (convergeOrgs_spec hsound r.domains).1 _ h.toCut

/-- The entry of a domain, where the domains are different. -/
theorem lookup_eq_some_of_mem {d : String} {v : Option String} (hdistinct : (m.map Prod.fst).Nodup)
    (hmem : (d, v) ∈ m) : m.lookup d = some v := by
  obtain ⟨l₁, l₂, rfl⟩ := List.append_of_mem hmem
  refine List.lookup_eq_some_iff.mpr ⟨l₁, l₂, rfl, fun e he => ?_⟩
  rw [List.map_append, List.map_cons, List.nodup_append] at hdistinct
  have hne := hdistinct.2.2 e.1 (List.mem_map_of_mem he) d List.mem_cons_self
  simpa using Ne.symm hne

/-- After any runs, each cut anywhere, a run that completes converges exactly where each of its
domains is carried by an organisation or none is named after it. -/
theorem orgs_converged_iff (hsound : w.Sound) (hbefore : Trace (orgsStep listed) w l w₁)
    (hrun : orgsStep listed w₁ r w₂) (hdistinct : r.domains.Nodup)
    (hcomplete : r.result = some (.ok m)) : OrgsConverged w₁ r m w₂ ↔
      ∀ d ∈ r.domains, (∃ id, w₁.Carries id d) ∨ ∀ o ∈ w₁.orgs, o.name ≠ d := by
  have hsound₁ : w₁.Sound :=
    hbefore.keeps hsound fun _ hu hstep => (grown_of_step hu hstep).sound
  have hgrown := grown_of_step hsound₁ hrun
  have hrun' : Run listed (convergeOrgs r.domains) (w₁, []) (some (.ok m)) (w₂, r.created) := by
    rw [← hcomplete]
    exact hrun
  obtain ⟨owners, orgs, hknown, hnames, hassigned⟩ :=
    (convergeOrgs_spec hsound₁ r.domains).2 _ _ hrun' m rfl
  rw [← hnames] at hdistinct
  have hentry : ∀ d ∈ r.domains, ∃ id, m.lookup d = some (some id) ∧
      (existingOrg owners orgs d = some id ∨
        (existingOrg owners orgs d = none ∧ w₂.Carries id d)) := by
    intro d hd
    rw [← hnames] at hd
    obtain ⟨⟨d, v⟩, hmem, rfl⟩ := List.mem_map.mp hd
    obtain ⟨id, rfl, hid⟩ := hassigned _ hmem
    exact ⟨id, lookup_eq_some_of_mem hdistinct hmem, hid⟩
  constructor
  · intro h d hd
    obtain ⟨id, hlookup, hcases⟩ := hentry d hd
    obtain ⟨id', hlookup', o, ho, rfl, hdomain⟩ := h.carries d hd
    obtain rfl : id = o.id := Option.some.inj (Option.some.inj (hlookup.symm.trans hlookup'))
    rcases hcases with hadopted | ⟨hnone, -⟩
    · rcases existingOrg_eq_some hknown hsound₁ hadopted with hcarries | ⟨hcarried, s, hs, hid, -⟩
      · exact Or.inl ⟨_, hcarries⟩
      · obtain rfl : s = o := hgrown.sound.unique s (hgrown.old s hs) o ho hid
        exact absurd hdomain (hcarried s hs)
    · exact Or.inr fun o ho => (existingOrg_eq_none hknown hsound₁ hnone o ho).1
  · intro h
    refine ⟨fun d hd => ?_, fun d hd => ?_⟩
    · obtain ⟨id, hlookup, hadopted | ⟨-, hcarries⟩⟩ := hentry d hd
      · refine ⟨id, hlookup, hgrown.carries id d ?_⟩
        rcases existingOrg_eq_some hknown hsound₁ hadopted with hc | ⟨hcarried, s, hs, -, hname⟩
        · exact hc
        · rcases h d hd with ⟨id', o, ho, -, hdomain⟩ | hnamed
          · exact absurd hdomain (hcarried o ho)
          · exact absurd hname (hnamed s hs)
      · exact ⟨id, hlookup, hcarries⟩
    · rcases hgrown.created d hd with hd | hd
      · cases hd
      · exact hd

end History

/-! ## An interrupted creation -/

/-- A directory that does what it is asked to; a new organisation has its name for an id. -/
def orgReply : {β : Type} → Op β → Directory → Option (β × Directory)
  | _, .inl .listOrgs, w => some (.ok (w.orgs.map ServerOrg.shown), w)
  | _, .inl (.listOrgDomains orgId), w =>
    match w.orgs.filter fun o => o.id = w.target orgId with
    | [o] => some (.ok (o.domains.map fun d => ⟨d, false⟩), w)
    | _ => none
  | _, .inl (.createOrg name), w =>
    if name ≠ "" ∧ ∀ o ∈ w.orgs, o.id ≠ name then
      some (.ok (some name), w.add ⟨name, name, [], none⟩)
    else none
  | _, .inl (.addOrgDomain domain orgId), w =>
    some (.ok (), w.update (w.target orgId) fun o => o.addDomain domain)
  | _, .inl (.setPrimaryOrgDomain domain orgId), w =>
    some (.ok (), w.update (w.target orgId) fun o => o.setPrimary domain)
  | _, _, _ => none

def scriptedOrgs : Oracle Op (Directory × List String) where
  answer e x := (orgReply e x.1).map fun r => (r.1, (r.2, x.2 ++ (foundedFor e x.1 r.1).toList))

theorem orgReply_sound {β : Type} {e : Op β} {w w' : Directory} {b : β}
    (h : orgReply e w = some (b, w')) : directoryStep e w b w' ∧ ¬ Misread e b := by
  rcases e with c | f
  · cases c with
    | listOrgs =>
      cases h
      refine ⟨⟨rfl, ?_⟩, id⟩
      rintro a ha o
      cases ha
      simp [List.mem_map, eq_comm]
    | listOrgDomains orgId =>
      simp only [orgReply] at h
      split at h
      · rename_i o hone
        cases h
        refine ⟨⟨rfl, ?_⟩, id⟩
        rintro a ha s hs hid d
        cases ha
        have hmem : s ∈ w.orgs.filter fun o => o.id = w.target orgId := by simp [hs, hid]
        rw [hone, List.mem_singleton] at hmem
        simp [hmem]
      · cases h
    | createOrg name =>
      simp only [orgReply] at h
      split at h
      · rename_i hnew
        cases h
        exact ⟨⟨⟨name, name, [], none⟩, rfl, rfl, hnew.1, hnew.2, nofun, rfl⟩, id⟩
      · cases h
    | addOrgDomain domain orgId =>
      cases h
      exact ⟨rfl, id⟩
    | setPrimaryOrgDomain domain orgId =>
      cases h
      exact ⟨rfl, id⟩
    | _ => cases h
  · cases h

/-- A run of `convergeOrgs` on scripted answers, cut after a number of steps. -/
def scriptedOrgsRun (n : Nat) (domains : List String) (w : Directory) :
    Option (Except Failure OrgMap) × Directory × List String :=
  (convergeOrgs domains).exec scriptedOrgs n (w, [])

theorem scriptedOrgsRun_step (n : Nat) (domains : List String) (w : Directory) :
    orgsStep listed w
      ⟨domains, (scriptedOrgsRun n domains w).2.2, (scriptedOrgsRun n domains w).1⟩
      (scriptedOrgsRun n domains w).2.1 := by
  refine exec_run (fun e x b y h => ?_) n (convergeOrgs domains) (w, [])
  obtain ⟨r, hr, he⟩ := Option.map_eq_some_iff.mp h
  cases he
  exact ⟨orgReply_sound hr, rfl⟩

def adminOnly : Directory := ⟨"1", [⟨"1", "admin", ["admin.org"], none⟩]⟩

theorem adminOnly_sound : adminOnly.Sound := by
  constructor <;> decide

/-- The directory after a run that was cut when the first organisation had its domain. -/
def firstFounded : Directory := (scriptedOrgsRun 4 ["a.org", "b.org"] adminOnly).2.1

/-- The next run takes that organisation and creates the other one. -/
theorem orgs_converged_iff_sample : OrgsConverged firstFounded
    ⟨["a.org", "b.org"], ["b.org"], some (.ok [("a.org", some "a.org"), ("b.org", some "b.org")])⟩
    [("a.org", some "a.org"), ("b.org", some "b.org")]
    (scriptedOrgsRun 12 ["a.org", "b.org"] firstFounded).2.1 := by
  have hcut : orgsStep listed adminOnly _ firstFounded :=
    scriptedOrgsRun_step 4 ["a.org", "b.org"] adminOnly
  have hcarried : firstFounded.orgs.any fun o => o.id == "a.org" && o.domains.contains "a.org" := by
    decide
  refine (orgs_converged_iff adminOnly_sound (.cons hcut (.nil _))
    (scriptedOrgsRun_step 12 ["a.org", "b.org"] firstFounded) (by decide) rfl).mpr fun d hd => ?_
  rcases List.mem_pair.mp hd with rfl | rfl
  · obtain ⟨o, ho, h⟩ := List.any_eq_true.mp hcarried
    simp only [Bool.and_eq_true, beq_iff_eq, List.contains_iff_mem] at h
    exact Or.inl ⟨"a.org", o, ho, h.1, h.2⟩
  · exact Or.inr (by decide)

/-- The directory after a run that was cut when the organisation had been created. -/
def halfFounded : Directory := (scriptedOrgsRun 3 ["a.org"] adminOnly).2.1

/-- The next run adopts the organisation that was left by its name, and nobody adds the domain
to it. -/
theorem interrupted_org_adopted : ¬ ∀ (w w₁ w₂ : Directory) (l : List (Directory × OrgsRun))
    (r : OrgsRun) (m : OrgMap), w.Sound → Trace (orgsStep listed) w l w₁ →
    orgsStep listed w₁ r w₂ → r.domains.Nodup → r.result = some (.ok m) →
    OrgsConverged w₁ r m w₂ := by
  intro h
  have hcut : orgsStep listed adminOnly _ halfFounded := scriptedOrgsRun_step 3 ["a.org"] adminOnly
  have hconverged := h _ _ _ _ _ [("a.org", some "a.org")] adminOnly_sound (.cons hcut (.nil _))
    (scriptedOrgsRun_step 9 ["a.org"] halfFounded) (by decide) rfl
  obtain ⟨id, -, o, ho, -, hdomain⟩ := hconverged.carries "a.org" List.mem_cons_self
  have hnone : ∀ o ∈ (scriptedOrgsRun 9 ["a.org"] halfFounded).2.1.orgs, "a.org" ∉ o.domains := by
    decide
  exact hnone o ho hdomain

end Foundrix.ZitadelConfigure

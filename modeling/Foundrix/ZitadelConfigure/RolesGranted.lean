import Foundrix.ZitadelConfigure.ProjectGrants

/-!
# Roles of the granted organisations

After a complete run, does every organisation of the domains other than the administrators' own
hold every role of every project? A grant that was made by an earlier run, before a role was
declared, is left as it is.

* `mem_grantedOrgs`: the organisations that the projects are granted to.
* `Completes`: a complete run, with the organisations of its domains.
* `completes_widened`: what it leaves.
* `roles_granted_iff`: when all roles are held.
-/

namespace Foundrix.ZitadelConfigure

open Text Effect Machine

/-! ## The organisations of the domains -/

/-- Every domain has an organisation. -/
structure OrgMap.Full (m : OrgMap) (domains : List String) : Prop where
  names : m.map Prod.fst = domains
  ids : ∀ e ∈ m, ∃ id, e.2 = some id ∧ id ≠ ""

/-- An organisation of the domains, other than that of the administrators. -/
def GrantedOrg (spec : DesiredState) (m : OrgMap) (id : String) : Prop :=
  (∃ d ∈ spec.orgDomains, m.lookup d = some (some id)) ∧ m.lookup spec.adminOrg ≠ some (some id)

section Orgs

variable {m : OrgMap} {domains : List String} {d : String}

theorem OrgMap.Full.id_ne {v : Option String} (h : m.Full domains) (hd : m.lookup d = some v) :
    ∃ id, v = some id ∧ id ≠ "" := by
  obtain ⟨l₁, l₂, rfl, -⟩ := List.lookup_eq_some_iff.mp hd
  exact h.ids (d, v) (List.mem_append_right _ List.mem_cons_self)

theorem OrgMap.Full.lookup (h : m.Full domains) (hd : d ∈ domains) :
    ∃ id, m.lookup d = some (some id) := by
  rw [← h.names] at hd
  obtain ⟨e, he, rfl⟩ := List.mem_map.mp hd
  have hfound : (m.lookup e.1).isSome := List.lookup_isSome_iff.mpr ⟨e, he, beq_self_eq_true _⟩
  obtain ⟨v, hv⟩ := Option.isSome_iff_exists.mp hfound
  obtain ⟨id, rfl, -⟩ := h.id_ne hv
  exact ⟨id, hv⟩

theorem mem_grantedOrgs {spec : DesiredState} (h : m.Full domains) {id : String} :
    id ∈ grantedOrgs spec m ↔ GrantedOrg spec m id := by
  have hjoin : ∀ d, (m.lookup d).join = some id ↔ m.lookup d = some (some id) := by
    intro d
    rw [Option.join_eq_some_iff]
  simp only [grantedOrgs, List.mem_filter, List.mem_filterMap, decide_eq_true_eq, hjoin]
  constructor
  · rintro ⟨⟨hdomain, -⟩, hadmin⟩
    exact ⟨hdomain, fun heq => hadmin ((hjoin _).mpr heq).symm⟩
  · rintro ⟨⟨d, hd, hlookup⟩, hadmin⟩
    obtain ⟨i, hi, hne⟩ := h.id_ne hlookup
    obtain rfl := Option.some.inj hi
    exact ⟨⟨⟨d, hd, hlookup⟩, hne⟩, fun heq => hadmin ((hjoin _).mp heq.symm)⟩

theorem existingOrg_ne {owners : List (String × String)} {orgs : List Org} {id : String}
    (h : existingOrg owners orgs d = some id) : id ≠ "" := by
  obtain ⟨-, hne⟩ := Option.filter_eq_some_iff.mp h
  simpa using hne

end Orgs

section Runs

variable {P : List (String × ProjectSpec)} {w x y : Ledger} {m : OrgMap} {spec : DesiredState}

theorem assignOrgs_full {owners : List (String × String)} {orgs : List Org}
    {domains before : List String} (hw : w.Sound) (hm : m.Full before) :
    wpOk awarding (Widened P w) (assignOrgs owners orgs m domains)
      (fun m' y => y = w ∧ m'.Full (before ++ domains)) w := by
  induction domains generalizing m before with
  | nil => exact wpOk_pure (.start hw) ⟨rfl, by rwa [List.append_nil]⟩
  | cons domain domains ih =>
    have hrest : ∀ id : String, id ≠ "" → wpOk awarding (Widened P w)
        (assignOrgs owners orgs (m ++ [(domain, some id)]) domains)
        (fun m' y => y = w ∧ m'.Full (before ++ domain :: domains)) w := by
      intro id hid
      have hmore : (m ++ [(domain, some id)]).Full (before ++ [domain]) := by
        refine ⟨by simp [hm.names], fun e he => ?_⟩
        rcases List.mem_append.mp he with he | he
        · exact hm.ids e he
        · exact ⟨id, by rw [List.mem_singleton.mp he], hid⟩
      have h := ih hmore
      rwa [List.append_assoc, List.singleton_append] at h
    rw [assignOrgs]
    cases hexisting : existingOrg owners orgs domain with
    | some id => exact hrest id (existingOrg_ne hexisting)
    | none =>
      have hcreate : wpOk awarding (Widened P w) (request (.createOrg domain))
          (fun r y => y = w ∧ ∃ id, r = some id ∧ id ≠ "") w := by
        refine quiet_request trivial hw fun b a y hs hb => ?_
        rcases hb with rfl | ⟨hpre, -⟩
        · exact (awarding_step.mp hs).1.2 a rfl
        · exact absurd hpre (awarding_step.mp hs).2
      refine wpOk_seq hcreate fun r y _ hr => ?_
      obtain ⟨rfl, id, rfl, hid⟩ := hr
      refine quiet_seq (only_request trivial) hw fun _ => ?_
      exact quiet_seq (only_request trivial) hw fun _ => hrest id hid

theorem convergeOrgs_full (hw : w.Sound) (domains : List String) :
    wpOk awarding (Widened P w) (convergeOrgs domains) (fun m y => y = w ∧ m.Full domains) w := by
  refine quiet_seq (only_request trivial) hw fun orgs => ?_
  refine quiet_seq ((only_domainOwners orgs []).mono Plain.quiet) hw fun owners => ?_
  exact assignOrgs_full hw ⟨rfl, List.forall_mem_nil _⟩

/-! ## Runs -/

/-- What follows the organisations. -/
def convergeOthers (pid : Nat) (spec : DesiredState) (orgMap : OrgMap) : Script Unit := do
  convergeSettings spec
  forEach spec.projects (convergeProjectSpec pid (grantedOrgs spec orgMap))
  convergeActions spec.actions

/-- A complete run, with the organisations of its domains. -/
def Completes (pid : Nat) (spec : DesiredState) (m : OrgMap) (w w' : Ledger) : Prop :=
  ∃ x y, Run awarding (convergeBasics spec) w (some (.ok ())) x ∧
    Run awarding (convergeOrgs spec.orgDomains) x (some (.ok m)) y ∧
    Run awarding (convergeOthers pid spec m) y (some (.ok ())) w'

/-- Every run of `configure` that ends well is one. -/
theorem run_configure {pid : Nat} : Run awarding (configure pid spec) w (some (.ok ())) x ↔
    ∃ m, Completes pid spec m w x := by
  have hsplit : configure pid spec = (convergeBasics spec).bind fun _ =>
      (convergeOrgs spec.orgDomains).bind (convergeOthers pid spec) := rfl
  rw [hsplit, run_bind_ok]
  constructor
  · rintro ⟨_, v, hbasics, hrest⟩
    obtain ⟨m, z, horgs, hothers⟩ := run_bind_ok.mp hrest
    exact ⟨m, v, z, hbasics, horgs, hothers⟩
  · rintro ⟨m, v, z, hbasics, horgs, hothers⟩
    exact ⟨(), v, hbasics, run_bind_ok.mpr ⟨m, z, horgs, hothers⟩⟩

/-- A complete run leaves every project shared with the organisations. -/
theorem completes_widened {pid : Nat} (hw : w.Sound) (h : Completes pid spec m w x) :
    m.Full spec.orgDomains ∧ Widened spec.projects w x ∧
      ∀ p ∈ spec.projects, x.Shared (grantedOrgs spec m) p.1 := by
  obtain ⟨v, z, hbasics, horgs, hothers⟩ := h
  obtain rfl := quiet_run ((only_convergeBasics spec).mono Plain.quiet) hbasics
  obtain ⟨rfl, hfull⟩ :=
    (convergeOrgs_full (P := spec.projects) hw spec.orgDomains).2 _ _ horgs m rfl
  have hspec : wpOk awarding (Widened spec.projects z) (convergeOthers pid spec m)
      (fun _ y => ∀ p ∈ spec.projects, y.Shared (grantedOrgs spec m) p.1) z := by
    refine quiet_seq ((only_convergeSettings spec).mono Plain.quiet) hw fun _ => ?_
    refine wpOk_seq_trans (S := Widened spec.projects) Widened.trans
      (forEach_spec (I := fun _ => True)
        (Q := fun p y => y.Shared (grantedOrgs spec m) p.1) (fun _ _ => trivial) ?_
        (fun p hp y hy _ => convergeProjectSpec_widened hy hp pid _) hw trivial)
      fun _ y hy hshared => ?_
    · rintro p y t ⟨i, hi, hall⟩ ht
      exact ⟨i, ht.projects _ _ hi, fun o ho => (hall o ho).widened ht⟩
    · refine wpOk_mono (quiet_spec ((only_convergeActions spec.actions).mono Plain.quiet) hy.sound)
        fun _ t _ ht => ?_
      rw [ht]
      exact hshared
  have hend := hspec.2 _ _ hothers () rfl
  exact ⟨hfull, hspec.1 _ hothers.toCut, hend⟩

/-- A run of `configure` for a desired state, with its result where it was not cut. -/
structure ConfigureRun where
  pid : Nat
  spec : DesiredState
  result : Option (Except Failure Unit)

def configureStep (w : Ledger) (r : ConfigureRun) (w' : Ledger) : Prop :=
  Run awarding (configure r.pid r.spec) w r.result w'

/-- The keys of an object and the domains are different. -/
structure DesiredState.Distinct (spec : DesiredState) : Prop where
  projects : (spec.projects.map Prod.fst).Nodup
  orgDomains : spec.orgDomains.Nodup

/-- Every domain has an organisation, and every one but the administrators' own has a grant of
each project with all its roles. -/
structure RolesGranted (w : Ledger) (spec : DesiredState) (m : OrgMap) : Prop where
  orgs : ∀ d ∈ spec.orgDomains, ∃ id, m.lookup d = some (some id)
  grants : ∀ p ∈ spec.projects, ∃ i, w.projects p.1 = some i ∧ ∀ id, GrantedOrg spec m id →
    ∃ g ∈ w.grants, g.project = i ∧ g.org = id ∧ p.2.roles.map Prod.fst ⊆ g.roleKeys

/-- The grants that there are have all roles of the desired state. -/
def GrantsSuffice (w : Ledger) (spec : DesiredState) (m : OrgMap) : Prop :=
  ∀ p ∈ spec.projects, ∀ g ∈ w.grants, w.projects p.1 = some g.project → GrantedOrg spec m g.org →
    p.2.roles.map Prod.fst ⊆ g.roleKeys

/-- After any runs for any desired states, each cut anywhere, a run that completes leaves every
organisation with all roles exactly where the grants that it found had them. -/
theorem roles_granted_iff {w₁ w₂ : Ledger} {l : List (Ledger × ConfigureRun)} {pid : Nat}
    (hspec : spec.Distinct) (hsound : w.Sound) (hbefore : Trace configureStep w l w₁)
    (hrun : Completes pid spec m w₁ w₂) :
    RolesGranted w₂ spec m ↔ GrantsSuffice w₁ spec m := by
  have hsound₁ : w₁.Sound :=
    hbefore.keeps hsound fun _ hu hstep => Run.keeps awarding_sound hstep hu
  obtain ⟨hfull, hwide, hshared⟩ := completes_widened hsound₁ hrun
  constructor
  · intro h p hp g hg hproject horg
    obtain ⟨i, hi, hall⟩ := h.grants p hp
    obtain ⟨g', hg', hgi, hgo, hroles⟩ := hall g.org horg
    obtain rfl : i = g.project :=
      Option.some.inj (hi.symm.trans (hwide.projects _ _ hproject))
    obtain rfl := hwide.sound.unique g' hg' g (hwide.grants g hg) hgi hgo
    exact hroles
  · intro h
    refine ⟨fun d hd => hfull.lookup hd, fun p hp => ?_⟩
    obtain ⟨i, hi, hall⟩ := hshared p hp
    refine ⟨i, hi, fun id hid => ?_⟩
    obtain ⟨g, hg, rfl, rfl⟩ := hall id ((mem_grantedOrgs hfull).mpr hid)
    refine ⟨g, hg, rfl, rfl, ?_⟩
    rcases hwide.added g hg with hold | ⟨p', hp', hproject, hroles⟩
    · obtain ⟨n, hn⟩ := hsound₁.owned g hold
      obtain rfl := hwide.sound.projectIds n p.1 g.project (hwide.projects _ _ hn) hi
      exact h p hp g hold hn hid
    · have hname := hwide.sound.projectIds p'.1 p.1 g.project hproject hi
      obtain rfl := List.inj_on_of_nodup_map hspec.projects hp' hp hname
      exact hroles ▸ List.Subset.refl _

end Runs

/-! ## A role that is declared later -/

/-- Two organisations, and a server that creates nothing but grants of `site`. -/
def ledgerReply : {β : Type} → Op β → Ledger → Option (β × Ledger)
  | _, .inl (.searchProjects name), w =>
    some (.ok ((w.projects name).toList.map fun id => ⟨id, name⟩), w)
  | _, .inl (.getProject _), w => some (.ok (some ⟨"site", true⟩), w)
  | _, .inl (.createProject _), w => some (.failed "unavailable", w)
  | _, .inl .listOrgs, w =>
    some (.ok [⟨"1", "admin.org", some "admin.org"⟩, ⟨"2", "b.org", some "b.org"⟩], w)
  | _, .inl (.createOrg _), w => some (.failed "unavailable", w)
  | _, .inl (.listProjectGrants projectId), w =>
    some (.ok ((w.grants.filter fun g => some g.project = projectId).map ProjectGrant.org), w)
  | _, .inl (.createProjectGrant projectId org roleKeys), w =>
    match projectId with
    | none => some (.failed "unavailable", w)
    | some i =>
      if w.projects "site" = some i ∧ ∀ g ∈ w.grants, g.project = i → g.org ≠ org then
        some (.ok (), w.add ⟨i, org, roleKeys⟩)
      else some (.failed "unavailable", w)
  | _, .inl (.getPolicy _), w => some (.ok (some []), w)
  | _, .inl c, w => c.ofErrorBody.map fun a => (a, w)
  | _, .inr _, _ => none

theorem ledgerReply_sound {β : Type} {e : Op β} {w w' : Ledger} {b : β}
    (h : ledgerReply e w = some (b, w')) : awarding.step e w b w' := by
  rcases e with c | f
  · cases c with
    | searchProjects name =>
      cases h
      refine ⟨⟨rfl, ?_⟩, id⟩
      rintro a ha p hp
      cases ha
      simp only [List.mem_map, Option.mem_toList] at hp
      obtain ⟨i, hi, rfl⟩ := hp
      exact hi
    | createProject name =>
      cases h
      exact ⟨Or.inl rfl, id⟩
    | createOrg name =>
      cases h
      exact ⟨⟨rfl, nofun⟩, id⟩
    | listProjectGrants projectId =>
      cases h
      refine ⟨⟨rfl, ?_⟩, id⟩
      rintro a ha org horg
      cases ha
      obtain ⟨g, hg, rfl⟩ := List.mem_map.mp horg
      obtain ⟨hg, hproject⟩ := List.mem_filter.mp hg
      exact ⟨g, hg, of_decide_eq_true hproject, rfl⟩
    | createProjectGrant projectId org roleKeys =>
      cases projectId with
      | none =>
        cases h
        exact ⟨Or.inl rfl, id⟩
      | some i =>
        simp only [ledgerReply] at h
        split at h
        · rename_i hnew
          cases h
          exact ⟨⟨i, rfl, ⟨"site", hnew.1⟩, hnew.2, rfl⟩, id⟩
        · cases h
          exact ⟨Or.inl rfl, id⟩
    | getOrgPasswordComplexityPolicy | getOrgLabelPolicy | uploadAsset => cases h
    | _ =>
      cases h
      exact ⟨rfl, id⟩
  · cases h

def scriptedLedger : Oracle Op Ledger where
  answer e w := ledgerReply e w

def ledgerRun {α : Type} (p : Script α) (w : Ledger) : Option (Except Failure α) × Ledger :=
  p.exec scriptedLedger 60 w

theorem ledgerRun_run {α : Type} {p : Script α} {w : Ledger} {o : Option (Except Failure α)}
    (h : (ledgerRun p w).1 = o) : Run awarding p w o (ledgerRun p w).2 :=
  h ▸ exec_run (fun _ _ _ _ hs => ledgerReply_sound hs) 60 p w

/-- One project for two organisations. -/
def siteState (roles : List (String × String)) : DesiredState where
  adminOrg := "admin.org"
  adminUsername := "admin"
  orgDomains := ["admin.org", "b.org"]
  policies := ⟨⟨false, false⟩, ⟨false, false⟩, false, false⟩
  projects := [("site", { roles })]

theorem siteState_distinct (roles : List (String × String)) : (siteState roles).Distinct := by
  constructor <;> simp [siteState]

/-- The project is there, and no grant of it. -/
def siteOnly : Ledger where
  projects name := if name = "site" then some "p1" else none
  grants := []

theorem siteOnly_sound : siteOnly.Sound := by
  refine ⟨fun n n' i hn hn' => ?_, nofun, nofun⟩
  simp only [siteOnly] at hn hn'
  split at hn <;> split at hn'
  · rename_i h h'
    rw [h, h']
  all_goals cases hn <;> cases hn'

def siteOrgs : OrgMap := [("admin.org", some "1"), ("b.org", some "2")]

section SiteRuns

variable (roles : List (String × String)) (w : Ledger)

def siteBasics : Option (Except Failure Unit) × Ledger :=
  ledgerRun (convergeBasics (siteState roles)) w

def siteConverged : Option (Except Failure OrgMap) × Ledger :=
  ledgerRun (convergeOrgs (siteState roles).orgDomains) (siteBasics roles w).2

/-- A complete run. -/
def siteRun : Option (Except Failure Unit) × Ledger :=
  ledgerRun (convergeOthers 7 (siteState roles) siteOrgs) (siteConverged roles w).2

variable {roles w}

theorem siteRun_completes (hbasics : (siteBasics roles w).1 = some (.ok ()))
    (horgs : (siteConverged roles w).1 = some (.ok siteOrgs))
    (hothers : (siteRun roles w).1 = some (.ok ())) :
    Completes 7 (siteState roles) siteOrgs w (siteRun roles w).2 :=
  ⟨_, _, ledgerRun_run hbasics, ledgerRun_run horgs, ledgerRun_run hothers⟩

theorem siteRun_step (hbasics : (siteBasics roles w).1 = some (.ok ()))
    (horgs : (siteConverged roles w).1 = some (.ok siteOrgs))
    (hothers : (siteRun roles w).1 = some (.ok ())) :
    configureStep w ⟨7, siteState roles, some (.ok ())⟩ (siteRun roles w).2 :=
  run_configure.mpr ⟨_, siteRun_completes hbasics horgs hothers⟩

end SiteRuns

/-- What a run of an older state leaves, which declared one role more. -/
def widerSite : Ledger := (siteRun [("user", "User"), ("admin", "Admin")] siteOnly).2

/-- The next run finds the grants with more roles than it asks for. -/
theorem roles_granted_iff_sample :
    widerSite.grants = [⟨"p1", "2", ["user", "admin"]⟩] ∧
    RolesGranted (siteRun [("user", "User")] widerSite).2 (siteState [("user", "User")])
      siteOrgs := by
  have hgrants : widerSite.grants = [⟨"p1", "2", ["user", "admin"]⟩] := by decide +kernel
  have holder : configureStep siteOnly _ widerSite :=
    siteRun_step (by decide +kernel) (by decide +kernel) (by decide +kernel)
  refine ⟨hgrants, (roles_granted_iff (siteState_distinct _) siteOnly_sound (.cons holder (.nil _))
    (siteRun_completes (by decide +kernel) (by decide +kernel) (by decide +kernel))).mpr ?_⟩
  intro p hp g hg _ _
  rw [hgrants, List.mem_singleton] at hg
  obtain rfl := List.mem_singleton.mp hp
  rw [hg]
  exact List.cons_subset_cons _ (List.nil_subset _)

/-- A role that is declared after the grant was made is never granted. -/
theorem later_role_missing : ¬ ∀ (w w₁ w₂ : Ledger) (l : List (Ledger × ConfigureRun)) (pid : Nat)
    (spec : DesiredState) (m : OrgMap), spec.Distinct → w.Sound → Trace configureStep w l w₁ →
    Completes pid spec m w₁ w₂ → RolesGranted w₂ spec m := by
  intro h
  have hfirst : configureStep siteOnly _ (siteRun [("user", "User")] siteOnly).2 :=
    siteRun_step (by decide +kernel) (by decide +kernel) (by decide +kernel)
  have hgranted := h _ _ _ _ 7 (siteState [("user", "User"), ("admin", "Admin")]) siteOrgs
    (siteState_distinct _) siteOnly_sound (.cons hfirst (.nil _))
    (siteRun_completes (by decide +kernel) (by decide +kernel) (by decide +kernel))
  obtain ⟨i, -, hall⟩ := hgranted.grants _ List.mem_cons_self
  obtain ⟨g, hg, -, -, hroles⟩ := hall "2" ⟨⟨"b.org", by decide, by decide⟩, by decide⟩
  have hold : (siteRun [("user", "User"), ("admin", "Admin")]
      (siteRun [("user", "User")] siteOnly).2).2.grants = [⟨"p1", "2", ["user"]⟩] := by decide +kernel
  rw [hold, List.mem_singleton] at hg
  rw [hg] at hroles
  exact absurd (hroles (List.mem_cons_of_mem _ List.mem_cons_self)) (by decide)

end Foundrix.ZitadelConfigure

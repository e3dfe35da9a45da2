import Foundrix.Machine.Trace
import Foundrix.ZitadelConfigure.Unconcerned
import Mathlib.Data.List.Nodup

/-!
# Roles for other organisations

The grants of the projects to the organisations of the domains, over any runs of `configure`
with any desired states. A grant is created with the roles of its time, and never changed.

* `Ledger`, `awarding`: the projects and their grants, and how Zitadel answers.
* `Quiet`: what changes neither; `only_convergeApp`.
* `Widened`: what every part of a run keeps.
* `convergeProject_widened`, `convergeProjectGrants_widened`, `convergeProjects_widened`,
  `finish_widened`: one lemma for each level.
* `roles_granted_iff`: when every organisation has all roles after a complete run.
-/

namespace Foundrix.ZitadelConfigure

open Text Effect Machine

/-! ## Projects and their grants -/

structure ProjectGrant where
  project : String
  org : String
  roleKeys : List String
deriving DecidableEq, Repr

structure Ledger where
  /-- The id of the project with a name. -/
  projects : String → Option String
  grants : List ProjectGrant

/-- What Zitadel guarantees. -/
structure Ledger.Sound (w : Ledger) : Prop where
  projectIds : ∀ n n' i, w.projects n = some i → w.projects n' = some i → n = n'
  owned : ∀ g ∈ w.grants, ∃ n, w.projects n = some g.project
  unique : ∀ g ∈ w.grants, ∀ g' ∈ w.grants, g.project = g'.project → g.org = g'.org → g = g'

def Ledger.setProject (w : Ledger) (name id : String) : Ledger :=
  { w with projects := fun n => if n = name then some id else w.projects n }

def Ledger.add (w : Ledger) (g : ProjectGrant) : Ledger := { w with grants := w.grants ++ [g] }

/-- A new project: its name was free, and nothing had its id. -/
structure NewProject (w : Ledger) (name id : String) (w' : Ledger) : Prop where
  free : w.projects name = none
  fresh : ∀ n, w.projects n ≠ some id
  result : w' = w.setProject name id

/-- A new grant of a project, to an organisation that had none. -/
structure NewGrant (w : Ledger) (g : ProjectGrant) (w' : Ledger) : Prop where
  project : ∃ n, w.projects n = some g.project
  first : ∀ g' ∈ w.grants, g'.project = g.project → g'.org ≠ g.org
  result : w' = w.add g

/-- A search may miss what was created shortly before. -/
def ledgerStep : {β : Type} → Op β → Ledger → β → Ledger → Prop
  | _, .inl (.searchProjects name), w, answer, w' =>
    Reads (fun found => ∀ p ∈ found, w.projects name = some p.id) answer w w'
  | _, .inl (.createProject name), w, answer, w' =>
    Changes (fun id w' => ∃ i, id = some i ∧ NewProject w name i w') answer w w'
  | _, .inl (.createOrg _), w, answer, w' =>
    Reads (fun id => ∃ i, id = some i ∧ i ≠ "") answer w w'
  | _, .inl (.listProjectGrants projectId), w, answer, w' =>
    Reads (fun found => ∀ org ∈ found, ∃ g ∈ w.grants, some g.project = projectId ∧ g.org = org)
      answer w w'
  | _, .inl (.createProjectGrant projectId org roleKeys), w, answer, w' =>
    Changes (fun _ w' => ∃ i, projectId = some i ∧ NewGrant w ⟨i, org, roleKeys⟩ w') answer w w'
  | _, _, w, _, w' => w' = w

/-- A refusal is taken for a creation. -/
def Overlooked : {β : Type} → Op β → β → Prop
  | _, .inl (.createProject _), answer => answer.Precondition
  | _, .inl (.createOrg _), answer => answer.Precondition
  | _, .inl (.createProjectGrant _ _ _), answer => answer.Precondition
  | _, _, _ => False

/-- How Zitadel answers, in the runs in which no refusal is taken for a creation. -/
def awarding : Handler Op Ledger :=
  Handler.restrict { step := fun e w b w' => ledgerStep e w b w' } fun e b => ¬ Overlooked e b

theorem awarding_step {β : Type} {e : Op β} {w w' : Ledger} {b : β} :
    awarding.step e w b w' ↔ ledgerStep e w b w' ∧ ¬ Overlooked e b := Iff.rfl

/-! ## Operations without an effect -/

/-- Neither a project nor a grant of one is created. -/
def Quiet : {β : Type} → Op β → Prop
  | _, .inl (.createProject _) => False
  | _, .inl (.createProjectGrant _ _ _) => False
  | _, _ => True

theorem Plain.quiet {β : Type} (e : Op β) (h : Plain e) : Quiet e := by
  rcases e with c | f
  · cases c <;> first | exact h.elim | trivial
  · trivial

theorem quiet_step {β : Type} {e : Op β} {w w' : Ledger} {b : β} (he : Quiet e)
    (hs : awarding.step e w b w') : w' = w := by
  obtain ⟨hstep, -⟩ := awarding_step.mp hs
  rcases e with c | f
  · cases c <;> first | exact he.elim | exact hstep.1 | exact hstep
  · exact hstep

theorem quiet_run {α : Type} {p : Script α} (hp : p.Only Quiet) {o : Option (Except Failure α)}
    {w w' : Ledger} (h : Run awarding p w o w') : w' = w :=
  h.keepsOnly (J := (· = w)) (fun _ _ _ _ he hv hs => (quiet_step he hs).trans hv) hp rfl

theorem only_writeCredentialFile (pid : Nat) (path contents : String) :
    (writeCredentialFile pid path contents).Only Quiet := by
  have hparent : (ensureParentDir path).Only Quiet := by
    unfold ensureParentDir
    split
    · trivial
    · exact only_deno trivial
  refine Prog.only_bind hparent fun _ => Prog.only_bind (only_deno trivial) fun _ => ?_
  refine Prog.only_bind (Prog.only_attempt ?_) fun stored => ?_
  · exact Prog.only_bind (only_deno trivial) fun _ => only_deno trivial
  refine Prog.only_bind (only_deno trivial) fun _ => ?_
  refine Prog.only_bind (Prog.only_orFail stored) fun _ => ?_
  refine Prog.only_bind (Prog.only_attempt (only_deno trivial)) fun renamed => ?_
  split
  · trivial
  · exact Prog.only_bind (Prog.only_attempt (only_deno trivial)) fun _ => trivial

theorem only_readStoredClientSecret (path clientId : String) :
    (readStoredClientSecret path clientId).Only Quiet := by
  refine Prog.only_bind (Prog.only_attempt (only_deno trivial)) fun text => ?_
  split
  · trivial
  · split <;> trivial

theorem only_updateAppConfig (projectId : Option String) (appId unchanged : String)
    (spec : AppSpec) (config : AppSpec → List String → OidcConfig) :
    (updateConfig projectId appId unchanged spec config).Only Quiet := by
  refine Prog.only_bind (Prog.only_attempt ?_) fun updated => ?_
  · exact Prog.only_bind (Prog.only_orFail _) fun _ => only_request trivial
  · split
    · trivial
    · split <;> trivial

theorem only_existingCredentials (projectId : Option String) (spec : AppSpec) (app : App) :
    (existingCredentials projectId spec app).Only Quiet := by
  refine Prog.only_bind (only_defined _) fun clientId => ?_
  refine Prog.only_bind (only_readStoredClientSecret _ _) fun stored => ?_
  split
  · trivial
  · exact Prog.only_bind (only_request trivial) fun _ => trivial

theorem only_newCredentials (projectId : Option String) (appName : String) (spec : AppSpec) :
    (newCredentials projectId appName spec).Only Quiet := by
  refine Prog.only_bind (Prog.only_orFail _) fun grantTypes => ?_
  refine Prog.only_bind (only_request trivial) fun creds => ?_
  exact Prog.only_bind (only_request trivial) fun newApps => trivial

theorem only_convergeConfidentialApp (pid : Nat) (projectId : Option String) (appName : String)
    (spec : AppSpec) : (convergeConfidentialApp pid projectId appName spec).Only Quiet := by
  refine Prog.only_bind (only_request trivial) fun apps => ?_
  cases apps with
  | nil =>
    refine Prog.only_bind (only_newCredentials _ _ _) fun creds => ?_
    refine only_ite ?_ (only_writeCredentialFile _ _ _)
    exact Prog.only_bind (only_updateAppConfig _ _ _ _ _) fun _ => only_writeCredentialFile _ _ _
  | cons app apps =>
    refine Prog.only_bind (only_existingCredentials _ _ _) fun creds => ?_
    refine only_ite ?_ (only_writeCredentialFile _ _ _)
    exact Prog.only_bind (only_updateAppConfig _ _ _ _ _) fun _ => only_writeCredentialFile _ _ _

theorem only_convergePublicApp (projectId : Option String) (appName : String) (spec : AppSpec) :
    (convergePublicApp projectId appName spec).Only Quiet := by
  refine Prog.only_bind ?_ fun clientId => only_deno trivial
  refine Prog.only_bind (only_request trivial) fun apps => ?_
  split
  · refine Prog.only_bind (only_defined _) fun clientId => ?_
    exact Prog.only_bind (only_updateAppConfig _ _ _ _ _) fun _ => trivial
  · refine Prog.only_bind (Prog.only_orFail _) fun grantTypes => ?_
    exact Prog.only_bind (only_request trivial) fun creds => trivial

theorem only_convergeApp (pid : Nat) (projectId : Option String) (app : String × AppSpec) :
    (convergeApp pid projectId app).Only Quiet := by
  unfold convergeApp
  split
  · exact only_convergeConfidentialApp _ _ _ _
  · exact only_convergePublicApp _ _ _

/-! ## What every run keeps -/

/-- What a part of a run keeps: nothing goes away, and new grants have the roles of the desired
state. -/
structure Widened (P : List (String × ProjectSpec)) (w x : Ledger) : Prop where
  sound : x.Sound
  projects : ∀ n i, w.projects n = some i → x.projects n = some i
  grants : ∀ g ∈ w.grants, g ∈ x.grants
  added : ∀ g ∈ x.grants, g ∈ w.grants ∨
    ∃ p ∈ P, x.projects p.1 = some g.project ∧ g.roleKeys = p.2.roles.map Prod.fst

section Growth

variable {P : List (String × ProjectSpec)} {w x y : Ledger}

theorem Widened.start (hw : w.Sound) : Widened P w w :=
  ⟨hw, fun _ _ h => h, fun _ h => h, fun _ h => Or.inl h⟩

theorem Widened.trans (h : Widened P w x) (h' : Widened P x y) : Widened P w y := by
  refine ⟨h'.sound, fun n i hn => h'.projects n i (h.projects n i hn),
    fun g hg => h'.grants g (h.grants g hg), fun g hg => ?_⟩
  rcases h'.added g hg with hg | hnew
  · rcases h.added g hg with hg | ⟨p, hp, hproject, hroles⟩
    · exact Or.inl hg
    · exact Or.inr ⟨p, hp, h'.projects _ _ hproject, hroles⟩
  · exact Or.inr hnew

theorem Ledger.setProject_of_free {name id n i : String} (hfree : w.projects name = none)
    (h : w.projects n = some i) : (w.setProject name id).projects n = some i := by
  have hne : n ≠ name := by
    rintro rfl
    rw [hfree] at h
    cases h
  exact (if_neg hne).trans h

theorem NewProject.sound {name id : String} (h : NewProject w name id x) (hw : w.Sound) : x.Sound := by
  obtain ⟨hfree, hfresh, rfl⟩ := h
  refine ⟨fun n n' i hn hn' => ?_, fun g hg => ?_, hw.unique⟩
  · simp only [Ledger.setProject] at hn hn'
    split at hn <;> split at hn'
    · rename_i h h'
      rw [h, h']
    · exact absurd (Option.some.inj hn ▸ hn') (hfresh n')
    · exact absurd (Option.some.inj hn' ▸ hn) (hfresh n)
    · exact hw.projectIds n n' i hn hn'
  · obtain ⟨n, hn⟩ := hw.owned g hg
    exact ⟨n, Ledger.setProject_of_free hfree hn⟩

theorem NewProject.widened {name id : String} (h : NewProject w name id x) (hw : w.Sound) :
    Widened P w x := by
  have hsound := h.sound hw
  obtain ⟨hfree, -, rfl⟩ := h
  exact ⟨hsound, fun n i hn => Ledger.setProject_of_free hfree hn, fun _ hg => hg,
    fun _ hg => Or.inl hg⟩

theorem NewGrant.sound {g : ProjectGrant} (h : NewGrant w g x) (hw : w.Sound) : x.Sound := by
  obtain ⟨hproject, hfirst, rfl⟩ := h
  refine ⟨hw.projectIds, fun g' hg' => ?_, fun g₁ h₁ g₂ h₂ hp ho => ?_⟩
  · rcases List.mem_append.mp hg' with hg' | hg'
    · exact hw.owned g' hg'
    · exact List.mem_singleton.mp hg' ▸ hproject
  · rcases List.mem_append.mp h₁ with h₁ | h₁ <;> rcases List.mem_append.mp h₂ with h₂ | h₂
    · exact hw.unique g₁ h₁ g₂ h₂ hp ho
    · rw [List.mem_singleton.mp h₂] at hp ho
      exact absurd ho (hfirst g₁ h₁ hp)
    · rw [List.mem_singleton.mp h₁] at hp ho
      exact absurd ho.symm (hfirst g₂ h₂ hp.symm)
    · rw [List.mem_singleton.mp h₁, List.mem_singleton.mp h₂]

/-- A new grant, with the roles of a project of the desired state. -/
theorem NewGrant.widened {g : ProjectGrant} (h : NewGrant w g x) (hw : w.Sound)
    {p : String × ProjectSpec} (hp : p ∈ P) (hproject : w.projects p.1 = some g.project)
    (hroles : g.roleKeys = p.2.roles.map Prod.fst) : Widened P w x := by
  have hsound := h.sound hw
  obtain ⟨-, -, rfl⟩ := h
  refine ⟨hsound, fun _ _ hn => hn, fun _ hg => List.mem_append_left _ hg, fun g' hg' => ?_⟩
  rcases List.mem_append.mp hg' with hg' | hg'
  · exact Or.inl hg'
  · obtain rfl := List.mem_singleton.mp hg'
    exact Or.inr ⟨p, hp, hproject, hroles⟩

theorem createProject_cases {name : String} {b : Answer (Option String)}
    (hs : awarding.step (.inl (.createProject name)) w b x) :
    x = w ∨ ∃ i, NewProject w name i x := by
  have hstep : Changes (fun id x => ∃ i, id = some i ∧ NewProject w name i x) b w x :=
    (awarding_step.mp hs).1
  rcases hstep.cases with rfl | ⟨_, i, -, hopened⟩
  · exact Or.inl rfl
  · exact Or.inr ⟨i, hopened⟩

theorem createProjectGrant_cases {projectId : Option String} {org : String}
    {roleKeys : List String} {b : Answer Unit}
    (hs : awarding.step (.inl (.createProjectGrant projectId org roleKeys)) w b x) :
    x = w ∨ ∃ i, projectId = some i ∧ NewGrant w ⟨i, org, roleKeys⟩ x := by
  have hstep : Changes (fun _ x => ∃ i, projectId = some i ∧ NewGrant w ⟨i, org, roleKeys⟩ x) b w x :=
    (awarding_step.mp hs).1
  rcases hstep.cases with rfl | ⟨_, hawarded⟩
  · exact Or.inl rfl
  · exact Or.inr hawarded

/-- Whatever is asked for, Zitadel keeps its guarantees. -/
theorem awarding_sound {β : Type} (e : Op β) (w : Ledger) (b : β) (x : Ledger) (hw : w.Sound)
    (hs : awarding.step e w b x) : x.Sound := by
  by_cases hquiet : Quiet e
  · exact quiet_step hquiet hs ▸ hw
  · rcases e with c | f
    · cases c with
      | createProject name =>
        rcases createProject_cases hs with rfl | ⟨i, hopened⟩
        · exact hw
        · exact hopened.sound hw
      | createProjectGrant projectId org roleKeys =>
        rcases createProjectGrant_cases hs with rfl | ⟨i, -, hawarded⟩
        · exact hw
        · exact hawarded.sound hw
      | _ => exact absurd trivial hquiet
    · exact absurd trivial hquiet

end Growth

/-! ## Parts of a run -/

section Parts

variable {P : List (String × ProjectSpec)} {w x y : Ledger}

theorem quiet_spec {α : Type} {p : Script α} (hp : p.Only Quiet) (hw : w.Sound) :
    wpOk awarding (Widened P w) p (fun _ y => y = w) w := by
  refine ⟨fun y run => ?_, fun _ y run _ _ => quiet_run hp run⟩
  rw [quiet_run hp run]
  exact .start hw

/-- A quiet part may be left out. -/
theorem quiet_seq {α β : Type} {p : Script α} {f : α → Script β} {Q : β → Ledger → Prop}
    (hp : p.Only Quiet) (hw : w.Sound) (hf : ∀ a, wpOk awarding (Widened P w) (f a) Q w) :
    wpOk awarding (Widened P w) (p.bind f) Q w := by
  refine wpOk_seq (quiet_spec hp hw) fun a y _ hy => ?_
  rw [hy]
  exact hf a

/-- A call without an effect, by what its answers tell. -/
theorem quiet_request {α : Type} {c : Api (Answer α)} {Q : α → Prop} (hc : Quiet (.inl c))
    (hw : w.Sound) (hQ : ∀ b a y, awarding.step (.inl c) w b y →
      b = .ok a ∨ (b.Precondition ∧ c.ofErrorBody = some (.ok a)) → Q a) :
    wpOk awarding (Widened P w) (request c) (fun a y => y = w ∧ Q a) w := by
  refine request_spec (.start hw) (fun b y hs => ?_) fun b a y hs hb => ?_
  · rw [quiet_step hc hs]
    exact .start hw
  · exact ⟨quiet_step hc hs, hQ b a y hs hb⟩

/-- What every turn makes true of its item, and later turns keep. -/
theorem forEach_spec {α : Type} {items : List α} {step : α → Script Unit} {I : Ledger → Prop}
    {Q : α → Ledger → Prop} (hpre : ∀ {x y}, I x → Widened P x y → I y)
    (hkeep : ∀ {a x y}, Q a x → Widened P x y → Q a y)
    (hstep : ∀ a ∈ items, ∀ x, x.Sound → I x →
      wpOk awarding (Widened P x) (step a) (fun _ y => Q a y) x) (hw : w.Sound) (h : I w) :
    wpOk awarding (Widened P w) (forEach items step) (fun _ y => ∀ a ∈ items, Q a y) w := by
  induction items generalizing w with
  | nil => exact wpOk_pure (.start hw) nofun
  | cons item rest ih =>
    rw [forEach]
    refine wpOk_seq_trans (S := Widened P) Widened.trans (hstep item List.mem_cons_self w hw h)
      fun _ x hx hitem => ?_
    refine wpOk_mono (ih (fun a ha => hstep a (List.mem_cons_of_mem _ ha)) hx.sound
      (hpre h hx)) fun _ y hy hrest => ?_
    exact List.forall_mem_cons.mpr ⟨hkeep hitem hy, hrest⟩

/-- A project has an id after it, the one it had before where there was one. -/
theorem convergeProject_widened (hw : w.Sound) (name : String) :
    wpOk awarding (Widened P w) (convergeProject name)
      (fun r y => ∃ i, r = some i ∧ y.projects name = some i) w := by
  have hsearch : wpOk awarding (Widened P w) (request (.searchProjects name))
      (fun found y => y = w ∧ ∀ p ∈ found, w.projects name = some p.id) w := by
    refine quiet_request trivial hw fun b a y hs hb => ?_
    rcases hb with rfl | ⟨-, hempty⟩
    · exact (awarding_step.mp hs).1.2 a rfl
    · cases hempty
      exact nofun
  refine wpOk_seq hsearch fun found y _ hfound => ?_
  obtain ⟨rfl, hfound⟩ := hfound
  cases found with
  | cons p rest =>
    refine quiet_seq (only_request trivial) hw fun settings => ?_
    refine quiet_seq (only_defined settings) hw fun project => ?_
    have hdone : wpOk awarding (Widened P y) (.pure (some p.id) : Script (Option String))
        (fun r z => ∃ i, r = some i ∧ z.projects name = some i) y :=
      wpOk_pure (.start hw) ⟨p.id, rfl, hfound p List.mem_cons_self⟩
    dsimp only
    split
    · exact quiet_seq (only_request trivial) hw fun _ => hdone
    · exact hdone
  | nil =>
    refine request_spec (.start hw) (fun b z hs => ?_) fun b a z hs hb => ?_
    · rcases createProject_cases hs with rfl | ⟨i, hopened⟩
      · exact .start hw
      · exact hopened.widened hw
    · rcases hb with rfl | ⟨hpre, -⟩
      · obtain ⟨i, rfl, -, -, hresult⟩ := (awarding_step.mp hs).1
        refine ⟨i, rfl, ?_⟩
        rw [hresult]
        exact if_pos rfl
      · exact absurd hpre (awarding_step.mp hs).2

/-- The organisation has a grant of the project. -/
def Ledger.Granted (w : Ledger) (project org : String) : Prop :=
  ∃ g ∈ w.grants, g.project = project ∧ g.org = org

theorem Ledger.Granted.widened {project org : String} (h : x.Granted project org)
    (hy : Widened P x y) : y.Granted project org := by
  obtain ⟨g, hg, hrest⟩ := h
  exact ⟨g, hy.grants g hg, hrest⟩

theorem convergeProjectGrants_widened (hw : w.Sound) {p : String × ProjectSpec} (hp : p ∈ P)
    {i : String} (hproject : w.projects p.1 = some i) (orgs : List String) :
    wpOk awarding (Widened P w) (convergeProjectGrants (some i) orgs (p.2.roles.map Prod.fst))
      (fun _ y => ∀ o ∈ orgs, y.Granted i o) w := by
  have hlist : wpOk awarding (Widened P w) (request (.listProjectGrants (some i)))
      (fun found y => y = w ∧ ∀ o ∈ found, w.Granted i o) w := by
    refine quiet_request trivial hw fun b a y hs hb o ho => ?_
    rcases hb with rfl | ⟨-, hempty⟩
    · obtain ⟨g, hg, hgi, hgo⟩ := (awarding_step.mp hs).1.2 a rfl o ho
      exact ⟨g, hg, Option.some.inj hgi, hgo⟩
    · cases hempty
      cases ho
  refine wpOk_seq hlist fun found y _ hfound => ?_
  obtain ⟨rfl, hfound⟩ := hfound
  refine forEach_spec (I := fun x => x.projects p.1 = some i ∧ ∀ o ∈ found, x.Granted i o)
    (Q := fun o x => x.Granted i o) ?_ ?_ ?_ hw ⟨hproject, hfound⟩
  · rintro x z ⟨hx, hgranted⟩ hz
    exact ⟨hz.projects _ _ hx, fun o ho => (hgranted o ho).widened hz⟩
  · exact fun hgranted hz => hgranted.widened hz
  · rintro o - x hx ⟨hproject, hgranted⟩
    split
    · rename_i hcontains
      exact wpOk_pure (.start hx) (hgranted o (by simpa using hcontains))
    · refine request_spec (.start hx) (fun b z hs => ?_) fun b a z hs hb => ?_
      · rcases createProjectGrant_cases hs with rfl | ⟨j, hj, hawarded⟩
        · exact .start hx
        · obtain rfl := Option.some.inj hj
          exact hawarded.widened hx hp hproject rfl
      · rcases hb with rfl | ⟨hpre, -⟩
        · obtain ⟨j, hj, -, -, hresult⟩ := (awarding_step.mp hs).1
          obtain rfl := Option.some.inj hj
          rw [hresult]
          exact ⟨_, List.mem_append_right _ (List.mem_singleton_self _), rfl, rfl⟩
        · exact absurd hpre (awarding_step.mp hs).2

/-- Every organisation has a grant of the project. -/
def Ledger.Shared (w : Ledger) (orgs : List String) (name : String) : Prop :=
  ∃ i, w.projects name = some i ∧ ∀ o ∈ orgs, w.Granted i o

theorem convergeProjectSpec_widened (hw : w.Sound) {p : String × ProjectSpec} (hp : p ∈ P)
    (pid : Nat) (orgs : List String) :
    wpOk awarding (Widened P w) (convergeProjectSpec pid orgs p)
      (fun _ y => y.Shared orgs p.1) w := by
  refine wpOk_seq_trans (S := Widened P) Widened.trans (convergeProject_widened hw p.1)
    fun r x hx hr => ?_
  obtain ⟨i, rfl, hproject⟩ := hr
  refine quiet_seq (only_forEach fun app _ => only_convergeApp pid (some i) app) hx.sound
    fun _ => ?_
  refine quiet_seq (only_forEach fun role _ => ?_) hx.sound fun _ => ?_
  · exact (only_convergeProjectRole _ _ _).mono Plain.quiet
  refine quiet_seq (only_forEach fun grant _ => ?_) hx.sound fun _ => ?_
  · exact (only_convergeUserGrant _ _ _).mono Plain.quiet
  split
  · refine wpOk_mono (convergeProjectGrants_widened hx.sound hp hproject orgs) fun _ y hy hall => ?_
    exact ⟨i, hy.projects _ _ hproject, hall⟩
  · rename_i hnone
    obtain rfl : orgs = [] := not_not.mp hnone
    exact wpOk_pure (.start hx.sound) ⟨i, hproject, nofun⟩

end Parts

end Foundrix.ZitadelConfigure

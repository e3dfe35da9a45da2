import Foundrix.Text.Path
import Foundrix.ZitadelConfigure.Answers
import Foundrix.ZitadelConfigure.Configure

/-!
# Zitadel's apps and the files of the host

The part of the world that the credentials of apps live in: the projects and apps that
Zitadel keeps, and the files. Calls that do not concern these may be answered at will. Any
call may be refused or stay without an answer, any file function may fail, and a search may
miss what was created shortly before.

* `ServerApp`, `World`: what Zitadel and the host keep; `Sound` is what Zitadel guarantees.
* `zitadel`: the answers and their effects. A write stores the whole buffer.
* `Sound.created`, `Sound.setSecret`, `Sound.setProject`: what every call keeps.
* `Swallowed`, `audited`: answers that the client takes for successes, and the runs without
  them, with a log of the regenerated secrets.
-/

namespace Foundrix.ZitadelConfigure

open Text Effect

/-- An app of Zitadel, with the secret that it accepts. -/
structure ServerApp where
  id : String
  /-- A SAML app has no client id. -/
  clientId : Option String
  secret : Option String
deriving DecidableEq, Repr

/-- What a search shows of an app. -/
def ServerApp.shown (a : ServerApp) : App where
  id := a.id
  oidcConfig := a.clientId

structure World where
  /-- The id of the project with a name. -/
  projects : String → Option String
  /-- The app of a project with a name. -/
  apps : Option String → String → Option ServerApp
  /-- The client ids that were ever given out. -/
  issued : List String
  files : Location → Option String

namespace World

def setFile (w : World) (l : Location) (text : Option String) : World :=
  { w with files := fun l' => if l' = l then text else w.files l' }

def setApp (w : World) (project : Option String) (name : String) (app : ServerApp) : World :=
  { w with
    apps := fun p n => if p = project ∧ n = name then some app else w.apps p n
    issued := app.clientId.toList ++ w.issued }

def setProject (w : World) (name id : String) : World :=
  { w with projects := fun n => if n = name then some id else w.projects n }

/-- The app with an id accepts another secret. -/
def setSecret (w : World) (project : Option String) (appId secret : String) : World :=
  { w with
    apps := fun p n => if p = project then (w.apps p n).map fun a =>
      if a.id = appId then { a with secret := some secret } else a else w.apps p n }

theorem setFile_same (w : World) (l : Location) (text : Option String) :
    (w.setFile l text).files l = text := if_pos rfl

theorem setFile_other (w : World) {l l' : Location} (text : Option String) (h : l' ≠ l) :
    (w.setFile l text).files l' = w.files l' := if_neg h

end World

/-- A text that keeps its form as the value of a line. -/
def Clean (s : String) : Prop :=
  s ≠ "" ∧ '\n' ∉ s.toList ∧ (∀ c, s.toList.head? = some c → jsWhitespace c = false) ∧
    ∀ c, s.toList.getLast? = some c → jsWhitespace c = false

instance (s : String) : Decidable (Clean s) :=
  decidable_of_iff (s ≠ "" ∧ '\n' ∉ s.toList ∧ s.toList.head?.any jsWhitespace = false ∧
    s.toList.getLast?.any jsWhitespace = false) (by simp [Clean, Option.any_eq_false])

/-- What Zitadel guarantees: the names in an answer are clean, and ids are not shared. -/
structure Sound (w : World) : Prop where
  issued : ∀ p n app id, w.apps p n = some app → app.clientId = some id → id ∈ w.issued
  clientIds : ∀ p n app id, w.apps p n = some app → app.clientId = some id → Clean id
  secrets : ∀ p n app s, w.apps p n = some app → app.secret = some s → Clean s
  appIds : ∀ p n n' app app', w.apps p n = some app → w.apps p n' = some app' →
    app.id = app'.id → n = n'
  projectIds : ∀ n n' id, w.projects n = some id → w.projects n' = some id → n = n'
  owner : ∀ p n app p' n' app' id, w.apps p n = some app → w.apps p' n' = some app' →
    app.clientId = some id → app'.clientId = some id → p = p' ∧ n = n'

/-! ## Answers -/

/-- A new app: no other has its name or id, and its client id was never given out. -/
structure Created (w : World) (project : Option String) (name : String) (app : ServerApp)
    (w' : World) : Prop where
  free : w.apps project name = none
  fresh : ∀ id, app.clientId = some id → id ∉ w.issued ∧ Clean id
  secret : ∀ s, app.secret = some s → Clean s
  id : ∀ n other, w.apps project n = some other → other.id ≠ app.id
  result : w' = w.setApp project name app

def apiStep : {β : Type} → Api β → World → β → World → Prop
  | _, .searchProjects name, w, answer, w' =>
    Reads (fun found => ∀ p ∈ found, w.projects name = some p.id) answer w w'
  | _, .createProject name, w, answer, w' =>
    Changes (fun id w' => ∃ i, id = some i ∧ w.projects name = none ∧
      (∀ n, w.projects n ≠ some i) ∧ (∀ n, w.apps (some i) n = none) ∧
      w' = w.setProject name i) answer w w'
  | _, .searchApps project name, w, answer, w' =>
    Reads (fun found => ∀ a ∈ found, ∃ app, w.apps project name = some app ∧ a = app.shown)
      answer w w'
  | _, .createOIDCApp project name config, w, answer, w' =>
    Changes (fun creds w' => ∃ app id, app.clientId = some id ∧ creds.clientId = some id ∧
      (config.authMethodType = "OIDC_AUTH_METHOD_TYPE_BASIC" → creds.clientSecret = app.secret ∧
        ∃ s, app.secret = some s) ∧
      Created w project name app w') answer w w'
  | _, .createSAMLApp project name _, w, answer, w' =>
    Changes (fun _ w' => ∃ app, app.clientId = none ∧ app.secret = none ∧
      Created w project name app w') answer w w'
  | _, .regenerateClientSecret project appId, w, answer, w' =>
    Changes (fun secret w' => ∃ s, secret = some s ∧ Clean s ∧ w' = w.setSecret project appId s)
      answer w w'
  | _, _, w, _, w' => w' = w

theorem apiStep_regenerate {project : Option String} {appId : String}
    {answer : Answer (Option String)} {w w' : World}
    (h : apiStep (.regenerateClientSecret project appId) w answer w') :
    (w' = w ∨ ∃ s, Clean s ∧ w' = w.setSecret project appId s) ∧
      ∀ r, answer = .ok r → ∃ s, r = some s ∧ Clean s ∧ w' = w.setSecret project appId s := by
  have h : Changes (fun secret w' => ∃ s, secret = some s ∧ Clean s ∧
    w' = w.setSecret project appId s) answer w w' := h
  constructor
  · rcases h.cases with hsame | ⟨-, s, -, hs⟩
    · exact Or.inl hsame
    · exact Or.inr ⟨s, hs⟩
  · rintro r rfl
    exact h

theorem apiStep_createOIDCApp {project : Option String} {name : String} {config : OidcConfig}
    {answer : Answer AppCredentials} {w w' : World}
    (h : apiStep (.createOIDCApp project name config) w answer w') :
    (w' = w ∨ ∃ app, Created w project name app w') ∧
      ∀ creds, answer = .ok creds → ∃ app id, app.clientId = some id ∧ creds.clientId = some id ∧
        (config.authMethodType = "OIDC_AUTH_METHOD_TYPE_BASIC" → creds.clientSecret = app.secret ∧
          ∃ s, app.secret = some s) ∧ Created w project name app w' := by
  have h : Changes (fun creds w' => ∃ app id, app.clientId = some id ∧ creds.clientId = some id ∧
    (config.authMethodType = "OIDC_AUTH_METHOD_TYPE_BASIC" → creds.clientSecret = app.secret ∧
      ∃ s, app.secret = some s) ∧ Created w project name app w') answer w w' := h
  constructor
  · rcases h.cases with hsame | ⟨-, app, -, -, -, -, hc⟩
    · exact Or.inl hsame
    · exact Or.inr ⟨app, hc⟩
  · rintro creds rfl
    exact h

/-- A new project: its name was free, and nothing had its id. -/
theorem apiStep_createProject {name : String} {answer : Answer (Option String)} {w w' : World}
    (h : apiStep (.createProject name) w answer w') :
    (w' = w ∨ ∃ id, w.projects name = none ∧ (∀ n, w.projects n ≠ some id) ∧
      (∀ n, w.apps (some id) n = none) ∧ w' = w.setProject name id) ∧
      ∀ r, answer = .ok r → ∃ id, r = some id ∧ w'.projects name = some id := by
  have h : Changes (fun id w' => ∃ i, id = some i ∧ w.projects name = none ∧
    (∀ n, w.projects n ≠ some i) ∧ (∀ n, w.apps (some i) n = none) ∧
    w' = w.setProject name i) answer w w' := h
  constructor
  · rcases h.cases with hsame | ⟨-, id, -, hnew⟩
    · exact Or.inl hsame
    · exact Or.inr ⟨id, hnew⟩
  · rintro r rfl
    obtain ⟨id, hid, -, -, -, rfl⟩ := h
    exact ⟨id, hid, if_pos rfl⟩

def denoStep : {β : Type} → Deno β → World → β → World → Prop
  | _, .openNew path, w, r, w' =>
    match r with
    | .ok () => w.files (locate path) = none ∧ w' = w.setFile (locate path) (some "")
    | .error _ => w' = w
  -- The one write to the file that was opened.
  | _, .write path data, w, r, w' =>
    match r with
    | .ok n => n = data.length ∧ ∃ text, utf8 text = data ∧
        w' = w.setFile (locate path) (some text)
    | .error _ => ∃ text, w' = w.setFile (locate path) text
  | _, .rename src dst, w, r, w' =>
    match r with
    | .ok () => ∃ text, w.files (locate src) = some text ∧
        w' = (w.setFile (locate src) none).setFile (locate dst) (some text)
    | .error _ => w' = w
  | _, .remove path, w, _, w' => w' = w ∨ w' = w.setFile (locate path) none
  | _, .readTextFile path, w, r, w' =>
    w' = w ∧ match r with
      | .ok text => w.files (locate path) = some text
      | .error e => e.notFound = true → w.files (locate path) = none
  | _, .writeTextFile path text, w, r, w' =>
    match r with
    | .ok () => w' = w.setFile (locate path) (some text)
    | .error _ => ∃ text, w' = w.setFile (locate path) text
  | _, _, w, _, w' => w' = w

/-- How Zitadel and the host answer. -/
def zitadel : Handler Op World where
  step e w b w' :=
    match e with
    | .inl c => apiStep c w b w'
    | .inr f => denoStep f w b w'

/-! ## What is logged and what is left out -/

/-- A call that gave an app a new secret, or tried to. -/
structure Regenerated where
  project : Option String
  appId : String
deriving DecidableEq, Repr

def regenerated : {β : Type} → Op β → World → β → Option Regenerated
  | _, .inl (.regenerateClientSecret project appId), _, _ => some ⟨project, appId⟩
  | _, _, _, _ => none

/-- A call that is to give out an id or a secret is refused, and the client goes on with
`undefined`. -/
def Swallowed : {β : Type} → Op β → β → Prop
  | _, .inl (.createProject _), answer => answer.Precondition
  | _, .inl (.createOIDCApp _ _ _), answer => answer.Precondition
  | _, .inl (.regenerateClientSecret _ _), answer => answer.Precondition
  | _, _, _ => False

/-- The runs with a log of the regenerated secrets. -/
def logged : Handler Op (World × List Regenerated) := zitadel.logged regenerated

/-- Those of them in which no refusal is swallowed. -/
def audited : Handler Op (World × List Regenerated) :=
  (zitadel.restrict fun e b => ¬ Swallowed e b).logged regenerated

/-! ## Operations without an effect -/

/-- Neither the apps nor the files are changed. -/
def Harmless : {β : Type} → Op β → Prop
  | _, .inl (.createProject _) => False
  | _, .inl (.createOIDCApp _ _ _) => False
  | _, .inl (.createSAMLApp _ _ _) => False
  | _, .inl (.regenerateClientSecret _ _) => False
  | _, .inr (.openNew _) => False
  | _, .inr (.write _ _) => False
  | _, .inr (.rename _ _) => False
  | _, .inr (.remove _) => False
  | _, .inr (.writeTextFile _ _) => False
  | _, _ => True

theorem harmless_step {β : Type} {e : Op β} {b : β} {x y : World × List Regenerated}
    (he : Harmless e) (hs : audited.step e x b y) : y = x := by
  obtain ⟨⟨hstep, -⟩, hlog⟩ := hs
  have hlog : y.2 = x.2 := by
    rw [hlog]
    rcases e with c | f
    · cases c <;> first | exact he.elim | simp [regenerated]
    · simp [regenerated]
  have hworld : y.1 = x.1 := by
    rcases e with c | f
    · cases c <;> first | exact he.elim | exact hstep.1 | exact hstep
    · cases f <;> first | exact he.elim | exact hstep.1 | exact hstep
  exact Prod.ext hworld hlog

/-- A function whose operations have no effect. -/
theorem harmless_spec {α : Type} {p : Script α} (hp : p.Only Harmless)
    {I : World × List Regenerated → Prop} {x : World × List Regenerated} (hI : I x) :
    wp audited I p (fun _ y => y = x) x := by
  have h : wp audited (· = x) p (fun _ y => y = x) x :=
    wp_only hp (fun e v b y he hv hs => (harmless_step he hs).trans hv) rfl
  exact wp_always_mono h fun y hy => hy ▸ hI

/-! ## What Zitadel guarantees -/

section Guarantees

variable {w w' : World}

/-- Only the apps, the projects and the ids that were given out matter. -/
theorem Sound.setFiles (h : Sound w) (files : Location → Option String) :
    Sound { w with files := files } :=
  ⟨h.issued, h.clientIds, h.secrets, h.appIds, h.projectIds, h.owner⟩

theorem Sound.setFile (h : Sound w) (l : Location) (text : Option String) :
    Sound (w.setFile l text) := h.setFiles _

theorem setApp_apps_cases {project p : Option String} {name n : String} {app a : ServerApp}
    (h : (w.setApp project name app).apps p n = some a) :
    (p = project ∧ n = name ∧ a = app) ∨ (¬ (p = project ∧ n = name) ∧ w.apps p n = some a) := by
  by_cases hslot : p = project ∧ n = name
  · refine Or.inl ⟨hslot.1, hslot.2, ?_⟩
    simpa [World.setApp, hslot, eq_comm] using h
  · exact Or.inr ⟨hslot, by simpa [World.setApp, hslot] using h⟩

theorem Sound.created (h : Sound w) {project : Option String} {name : String} {app : ServerApp}
    (hc : Created w project name app w') : Sound w' := by
  obtain ⟨hfree, hfresh, hsecret, hid, rfl⟩ := hc
  constructor
  · intro p n a id ha hclient
    rcases setApp_apps_cases ha with ⟨-, -, rfl⟩ | ⟨-, ha⟩
    · exact List.mem_append_left _ (by simp [hclient])
    · exact List.mem_append_right _ (h.issued p n a id ha hclient)
  · intro p n a id ha hclient
    rcases setApp_apps_cases ha with ⟨-, -, rfl⟩ | ⟨-, ha⟩
    · exact (hfresh id hclient).2
    · exact h.clientIds p n a id ha hclient
  · intro p n a s ha hs
    rcases setApp_apps_cases ha with ⟨-, -, rfl⟩ | ⟨-, ha⟩
    · exact hsecret s hs
    · exact h.secrets p n a s ha hs
  · intro p n n' a a' ha ha' hsame
    rcases setApp_apps_cases ha with ⟨hp, hn, hnew⟩ | ⟨-, hold⟩
    · rcases setApp_apps_cases ha' with ⟨-, hn', -⟩ | ⟨-, hold'⟩
      · rw [hn, hn']
      · exact absurd (hnew ▸ hsame.symm) (hid n' a' (hp ▸ hold'))
    · rcases setApp_apps_cases ha' with ⟨hp', -, hnew'⟩ | ⟨-, hold'⟩
      · exact absurd (hnew' ▸ hsame) (hid n a (hp' ▸ hold))
      · exact h.appIds p n n' a a' hold hold' hsame
  · exact h.projectIds
  · intro p n a p' n' a' id ha ha' hclient hclient'
    rcases setApp_apps_cases ha with ⟨hp, hn, rfl⟩ | ⟨-, hold⟩
    · rcases setApp_apps_cases ha' with ⟨hp', hn', -⟩ | ⟨-, hold'⟩
      · exact ⟨hp.trans hp'.symm, hn.trans hn'.symm⟩
      · exact absurd (h.issued p' n' a' id hold' hclient') (hfresh id hclient).1
    · rcases setApp_apps_cases ha' with ⟨-, -, rfl⟩ | ⟨-, hold'⟩
      · exact absurd (h.issued p n a id hold hclient) (hfresh id hclient').1
      · exact h.owner p n a p' n' a' id hold hold' hclient hclient'

theorem setSecret_apps_cases {project p : Option String} {n appId secret : String}
    {a : ServerApp} (h : (w.setSecret project appId secret).apps p n = some a) :
    ∃ b, w.apps p n = some b ∧ a.id = b.id ∧ a.clientId = b.clientId ∧
      (a = b ∨ (p = project ∧ b.id = appId ∧ a.secret = some secret)) := by
  by_cases hp : p = project
  · have hmap : ((w.apps p n).map fun b =>
        if b.id = appId then { b with secret := some secret } else b) = some a := by
      simpa only [World.setSecret, if_pos hp] using h
    obtain ⟨b, hb, ha⟩ := Option.map_eq_some_iff.mp hmap
    by_cases hid : b.id = appId
    · rw [if_pos hid] at ha
      exact ⟨b, hb, by rw [← ha], by rw [← ha], Or.inr ⟨hp, hid, by rw [← ha]⟩⟩
    · rw [if_neg hid] at ha
      exact ⟨b, hb, by rw [ha], by rw [ha], Or.inl ha.symm⟩
  · exact ⟨a, by simpa [World.setSecret, hp] using h, rfl, rfl, Or.inl rfl⟩

theorem Sound.setSecret (h : Sound w) {project : Option String} {appId secret : String}
    (hs : Clean secret) : Sound (w.setSecret project appId secret) := by
  constructor
  · intro p n a id ha hclient
    obtain ⟨b, hb, -, hsame, -⟩ := setSecret_apps_cases ha
    exact h.issued p n b id hb (hsame ▸ hclient)
  · intro p n a id ha hclient
    obtain ⟨b, hb, -, hsame, -⟩ := setSecret_apps_cases ha
    exact h.clientIds p n b id hb (hsame ▸ hclient)
  · intro p n a s ha hsecret
    obtain ⟨b, hb, -, -, rfl | ⟨-, -, hnew⟩⟩ := setSecret_apps_cases ha
    · exact h.secrets p n a s hb hsecret
    · rw [hnew] at hsecret
      exact Option.some.inj hsecret ▸ hs
  · intro p n n' a a' ha ha' hsame
    obtain ⟨b, hb, hid, -⟩ := setSecret_apps_cases ha
    obtain ⟨b', hb', hid', -⟩ := setSecret_apps_cases ha'
    exact h.appIds p n n' b b' hb hb' (by rw [← hid, ← hid', hsame])
  · exact h.projectIds
  · intro p n a p' n' a' id ha ha' hclient hclient'
    obtain ⟨b, hb, -, hsame, -⟩ := setSecret_apps_cases ha
    obtain ⟨b', hb', -, hsame', -⟩ := setSecret_apps_cases ha'
    exact h.owner p n b p' n' b' id hb hb' (hsame ▸ hclient) (hsame' ▸ hclient')

theorem Sound.setProject (h : Sound w) {name id : String} (hfresh : ∀ n, w.projects n ≠ some id) :
    Sound (w.setProject name id) := by
  refine ⟨h.issued, h.clientIds, h.secrets, h.appIds, ?_, h.owner⟩
  intro n n' i hn hn'
  simp only [World.setProject] at hn hn'
  by_cases hname : n = name <;> by_cases hname' : n' = name
  · rw [hname, hname']
  · rw [if_pos hname] at hn
    rw [if_neg hname', ← Option.some.inj hn] at hn'
    exact absurd hn' (hfresh n')
  · rw [if_pos hname'] at hn'
    rw [if_neg hname, ← Option.some.inj hn'] at hn
    exact absurd hn (hfresh n)
  · rw [if_neg hname] at hn
    rw [if_neg hname'] at hn'
    exact h.projectIds n n' i hn hn'

/-- What Zitadel guarantees holds after every answer. -/
theorem sound_apiStep {β : Type} {c : Api β} {b : β} (h : Sound w) (hs : apiStep c w b w') :
    Sound w' := by
  cases c with
  | createProject name =>
    rcases (apiStep_createProject hs).1 with rfl | ⟨id, -, hfresh, -, rfl⟩
    · exact h
    · exact h.setProject hfresh
  | createOIDCApp project name config =>
    rcases (apiStep_createOIDCApp hs).1 with rfl | ⟨app, hc⟩
    · exact h
    · exact h.created hc
  | createSAMLApp project name url =>
    have hs : Changes (fun _ w' => ∃ app, app.clientId = none ∧ app.secret = none ∧
      Created w project name app w') b w w' := hs
    rcases hs.cases with rfl | ⟨-, app, -, -, hc⟩
    · exact h
    · exact h.created hc
  | regenerateClientSecret project appId =>
    rcases (apiStep_regenerate hs).1 with rfl | ⟨s, hclean, rfl⟩
    · exact h
    · exact h.setSecret hclean
  | searchProjects name => exact hs.1 ▸ h
  | searchApps project name => exact hs.1 ▸ h
  | _ =>
    obtain rfl : w' = w := hs
    exact h

/-- The functions of Deno change files only. -/
theorem denoStep_files {β : Type} {f : Deno β} {b : β} (hs : denoStep f w b w') :
    ∃ files, w' = { w with files := files } := by
  cases f with
  | openNew path =>
    cases b with
    | ok u => exact ⟨_, hs.2⟩
    | error e => exact ⟨w.files, hs⟩
  | write path data =>
    cases b with
    | ok n =>
      obtain ⟨-, text, -, hset⟩ := hs
      exact ⟨_, hset⟩
    | error e =>
      obtain ⟨text, hset⟩ := hs
      exact ⟨_, hset⟩
  | rename src dst =>
    cases b with
    | ok u =>
      obtain ⟨text, -, hset⟩ := hs
      exact ⟨_, hset⟩
    | error e => exact ⟨w.files, hs⟩
  | remove path =>
    rcases hs with hs | hs
    · exact ⟨w.files, hs⟩
    · exact ⟨_, hs⟩
  | readTextFile path => exact ⟨w.files, hs.1⟩
  | writeTextFile path text =>
    cases b with
    | ok u => exact ⟨_, hs⟩
    | error e =>
      obtain ⟨text, hset⟩ := hs
      exact ⟨_, hset⟩
  | _ => exact ⟨w.files, hs⟩

theorem sound_step {β : Type} {e : Op β} {b : β} {x y : World × List Regenerated}
    (h : Sound x.1) (hs : logged.step e x b y) : Sound y.1 := by
  obtain ⟨hstep, -⟩ := hs
  cases e with
  | inl c => exact sound_apiStep h hstep
  | inr f =>
    obtain ⟨files, hfiles⟩ := denoStep_files hstep
    rw [hfiles]
    exact h.setFiles files

end Guarantees

end Foundrix.ZitadelConfigure

import Foundrix.ZitadelConfigure.Answers
import Foundrix.ZitadelConfigure.Configure

/-!
# SAML apps that fail

What `convergeSamlApps` calls and how it ends, whatever the server answers for the apps
themselves.

* `outcome`: what the client makes of an answer, as `request` does it.
* `Attempt`, `Visit`: what is called for an app and for a project.
* `saml_apps_attempted`: every app is attempted once, and the failed ones are named.
-/

namespace Foundrix.ZitadelConfigure

open Text Effect

variable {W : Type*} {α : Type} {H : Handler Op W}

/-! ## Calls -/

/-- What the client returns or throws on an answer. -/
def outcome (c : Api (Answer α)) : Answer α → Except Failure α
  | .ok a => .ok a
  | .failed message => .error { message }
  | .refused status text =>
    match if preconditionFailed status text then c.ofErrorBody else none with
    | some (.ok a) => .ok a
    | _ => .error { message := s!"{c.route.1} {c.route.2} → {status}: {text}" }

theorem request_eq (c : Api (Answer α)) :
    request c = (Prog.perform (.inl c)).bind fun answer => Prog.orFail (outcome c answer) := by
  unfold request
  congr 1
  funext answer
  cases answer with
  | ok a => rfl
  | failed message => rfl
  | refused status text =>
    unfold outcome
    dsimp only
    generalize (if preconditionFailed status text then c.ofErrorBody else none) = body
    rcases body with _ | _ | _ | _ <;> rfl

/-- A call of `convergeSamlApps` and its answer; what is called for a project itself is told
apart from what is called for an app. -/
inductive SamlCall where
  | searchProject (name : String) (found : Answer (List Project))
  | createProject (name : String) (answer : Answer (Option String))
  | project (id : String)
  | search (projectId : Option String) (appName : String) (found : Answer (List App))
  | update (projectId : Option String) (appId metadataUrl : String) (answer : Answer Unit)
  | create (projectId : Option String) (appName metadataUrl : String) (answer : Answer Unit)

def samlCall : {β : Type} → Op β → W → β → Option SamlCall
  | _, .inl (.searchApps projectId appName), _, answer => some (.search projectId appName answer)
  | _, .inl (.updateSAMLAppConfig projectId appId url), _, answer =>
    some (.update projectId appId url answer)
  | _, .inl (.createSAMLApp projectId appName url), _, answer =>
    some (.create projectId appName url answer)
  | _, .inl (.searchProjects name), _, answer => some (.searchProject name answer)
  | _, .inl (.createProject name), _, answer => some (.createProject name answer)
  | _, .inl (.getProject id), _, _ => some (.project id)
  | _, .inl (.updateProject id _), _, _ => some (.project id)
  | _, _, _, _ => none

/-- The calls of `SamlAppClient`, each of which is logged. -/
def SamlAppClient {β : Type} (e : Op β) : Prop := ∀ b, (samlCall e () b).isSome = true

/-- The calls for a project itself succeed. -/
def ProjectsSucceed : {β : Type} → Op β → β → Prop
  | _, .inl (.searchProjects name), answer => ∃ l, outcome (.searchProjects name) answer = .ok l
  | _, .inl (.getProject id), answer => ∃ p, outcome (.getProject id) answer = .ok (some p)
  | _, .inl (.updateProject id settings), answer =>
    outcome (.updateProject id settings) answer = .ok ()
  | _, .inl (.createProject name), answer => ∃ id, outcome (.createProject name) answer = .ok id
  | _, _, _ => True

/-- The runs in which they do, with a log of the calls. -/
def called (H : Handler Op W) : Handler Op (W × List SamlCall) :=
  (H.restrict ProjectsSucceed).logged samlCall

/-! ## Attempts -/

/-- What the server answers for an app. -/
inductive Answered where
  | unsearched (found : Answer (List App))
  | updated (found : Answer (List App)) (app : App) (answer : Answer Unit)
  | created (found : Answer (List App)) (answer : Answer Unit)

/-- An app of a project that is converged, and what is answered. -/
structure Attempt where
  projectId : Option String
  appName : String
  metadataUrl : String
  answered : Answered

namespace Attempt

/-- The calls of an attempt: an update of an app that was found, or one creation. -/
def calls (a : Attempt) : List SamlCall :=
  match a.answered with
  | .unsearched found => [.search a.projectId a.appName found]
  | .updated found app answer =>
    [.search a.projectId a.appName found, .update a.projectId app.id a.metadataUrl answer]
  | .created found answer =>
    [.search a.projectId a.appName found, .create a.projectId a.appName a.metadataUrl answer]

/-- The update is of the first app found under the name, and the creation of one that is not
found. -/
def Valid (a : Attempt) : Prop :=
  match a.answered with
  | .unsearched found => ∃ e, outcome (.searchApps a.projectId a.appName) found = .error e
  | .updated found app _ =>
    ∃ rest, outcome (.searchApps a.projectId a.appName) found = .ok (app :: rest)
  | .created found _ => outcome (.searchApps a.projectId a.appName) found = .ok []

/-- One of the calls of the app failed. -/
def failed (a : Attempt) : Bool :=
  match a.answered with
  | .unsearched _ => true
  | .updated _ app answer =>
    (outcome (.updateSAMLAppConfig a.projectId app.id a.metadataUrl) answer).toOption.isNone
  | .created _ answer =>
    (outcome (.createSAMLApp a.projectId a.appName a.metadataUrl) answer).toOption.isNone

end Attempt

/-- The calls for a project itself, by which it has this id. -/
inductive OwnCalls (name : String) : Option String → List SamlCall → Prop where
  | found {answer : Answer (List Project)} {project : Project} {others : List Project}
      {calls : List SamlCall}
      (search : outcome (.searchProjects name) answer = .ok (project :: others))
      (rest : ∀ c ∈ calls, c = .project project.id) :
      OwnCalls name (some project.id) (.searchProject name answer :: calls)
  | created {answer : Answer (List Project)} {creation : Answer (Option String)}
      {id : Option String} (search : outcome (.searchProjects name) answer = .ok [])
      (create : outcome (.createProject name) creation = .ok id) :
      OwnCalls name id [.searchProject name answer, .createProject name creation]

/-- The apps of a project that failed, as they are named. -/
def failedNames (projectName : String) (attempts : List Attempt) : List String :=
  (attempts.filter Attempt.failed).map fun a => s!"{a.appName} in {projectName}"

/-- What is called for a project, and for its apps after that. -/
structure Visit where
  name : String
  own : List SamlCall
  attempts : List Attempt

namespace Visit

def calls (v : Visit) : List SamlCall := v.own ++ v.attempts.flatMap Attempt.calls

def failures (v : Visit) : List String := failedNames v.name v.attempts

/-- The project is searched for or created, and every attempt is for an app of that project. -/
structure Valid (v : Visit) : Prop where
  project : ∃ projectId, OwnCalls v.name projectId v.own ∧ ∀ a ∈ v.attempts, a.projectId = projectId
  attempts : ∀ a ∈ v.attempts, a.Valid

end Visit

/-- The apps with their URLs. -/
def declaredApps (apps : List (String × SamlAppSpec)) : List (String × String) :=
  apps.map fun a => (a.1, a.2.metadataUrl)

def Attempt.app (a : Attempt) : String × String := (a.appName, a.metadataUrl)

/-! ## The parts of a run -/

/-- A call, by its answer. -/
theorem request_called (c : Api (Answer α)) (x : W × List SamlCall) :
    wp (called H) (fun _ => True) (request c) (fun r y => ∃ answer, r = outcome c answer ∧
      ProjectsSucceed (.inl c) answer ∧ y.2 = x.2 ++ (samlCall (.inl c) x.1 answer).toList) x := by
  rw [request_eq]
  refine wp_step trivial fun answer y hs => ?_
  obtain ⟨⟨-, hsucceed⟩, hlog⟩ := hs
  exact wp_orFail trivial ⟨answer, rfl, hsucceed, hlog⟩

theorem convergeSamlApp_called (projectId : Option String) (appName : String) (spec : SamlAppSpec)
    (x : W × List SamlCall) :
    wp (called H) (fun _ => True) (convergeSamlApp projectId appName spec) (fun r y =>
      ∃ a : Attempt, a.projectId = projectId ∧ a.app = (appName, spec.metadataUrl) ∧ a.Valid ∧
        a.failed = r.toOption.isNone ∧ y.2 = x.2 ++ a.calls) x := by
  refine wp_seq (request_called _ x) fun r y _ hr => ?_
  obtain ⟨found, rfl, -, hlog⟩ := hr
  have hlog : y.2 = x.2 ++ [.search projectId appName found] := hlog
  cases hfound : outcome (.searchApps projectId appName) found with
  | error e =>
    refine ⟨⟨projectId, appName, spec.metadataUrl, .unsearched found⟩, rfl, rfl, ?_, rfl, hlog⟩
    exact ⟨e, hfound⟩
  | ok apps =>
    cases apps with
    | nil =>
      refine wp_mono (request_called _ y) fun r z _ hr => ?_
      obtain ⟨answer, rfl, -, hlog'⟩ := hr
      have hlog' : z.2 = y.2 ++ [.create projectId appName spec.metadataUrl answer] := hlog'
      refine ⟨⟨projectId, appName, spec.metadataUrl, .created found answer⟩, rfl, rfl, hfound,
        rfl, ?_⟩
      rw [hlog', hlog, List.append_assoc]
      rfl
    | cons app rest =>
      refine wp_mono (request_called _ y) fun r z _ hr => ?_
      obtain ⟨answer, rfl, -, hlog'⟩ := hr
      have hlog' : z.2 = y.2 ++ [.update projectId app.id spec.metadataUrl answer] := hlog'
      refine ⟨⟨projectId, appName, spec.metadataUrl, .updated found app answer⟩, rfl, rfl,
        ⟨rest, hfound⟩, rfl, ?_⟩
      rw [hlog', hlog, List.append_assoc]
      rfl

/-- The calls for a project itself, which succeed. -/
theorem convergeProject_called (name : String) (x : W × List SamlCall) :
    wp (called H) (fun _ => True) (convergeProject name) (fun r y => ∃ id own, r = .ok id ∧
      OwnCalls name id own ∧ y.2 = x.2 ++ own) x := by
  refine wp_seq (request_called _ x) fun r y _ hr => ?_
  obtain ⟨found, rfl, ⟨projects, hfound⟩, hlog⟩ := hr
  have hlog : y.2 = x.2 ++ [.searchProject name found] := hlog
  rw [hfound]
  cases projects with
  | nil =>
    refine wp_mono (request_called _ y) fun r z _ hr => ?_
    obtain ⟨answer, rfl, ⟨id, hid⟩, hlog'⟩ := hr
    have hlog' : z.2 = y.2 ++ [.createProject name answer] := hlog'
    refine ⟨id, _, hid, .created hfound hid, ?_⟩
    rw [hlog', hlog, List.append_assoc]
    rfl
  | cons project others =>
    refine wp_seq (request_called _ y) fun r z _ hr => ?_
    obtain ⟨answer, rfl, ⟨settings, hsettings⟩, hlog'⟩ := hr
    have hlog' : z.2 = y.2 ++ [.project project.id] := hlog'
    rw [hsettings]
    show wp _ _ (if (!settings.projectRoleAssertion) = true then _ else _) _ z
    split
    · refine wp_seq (request_called _ z) fun r v _ hr => ?_
      obtain ⟨answer, rfl, hupdated, hlog₃⟩ := hr
      have hlog₃ : v.2 = z.2 ++ [.project project.id] := hlog₃
      have hupdated : outcome (.updateProject project.id
        { name := settings.name, projectRoleAssertion := true }) answer = .ok () := hupdated
      rw [hupdated]
      refine wp_pure.mpr ⟨trivial, some project.id, .searchProject name found ::
        [.project project.id, .project project.id], rfl, .found hfound (by simp), ?_⟩
      rw [hlog₃, hlog', hlog]
      simp
    · refine wp_pure.mpr ⟨trivial, some project.id, .searchProject name found ::
        [.project project.id], rfl, .found hfound (by simp), ?_⟩
      rw [hlog', hlog]
      simp

/-- An app whose failure is caught. -/
theorem attempt_called (projectId : Option String) (appName : String) (spec : SamlAppSpec)
    (x : W × List SamlCall) :
    wp (called H) (fun _ => True) (Prog.attempt (convergeSamlApp projectId appName spec))
      (fun r y => ∃ r' : Except Failure Unit, r = .ok r' ∧ ∃ a : Attempt,
        a.projectId = projectId ∧ a.app = (appName, spec.metadataUrl) ∧ a.Valid ∧
          a.failed = r'.toOption.isNone ∧ y.2 = x.2 ++ a.calls) x := by
  apply wp_attempt
  exact wp_mono (convergeSamlApp_called projectId appName spec x) fun r y _ h => ⟨r, rfl, h⟩

theorem convergeProjectSamlApps_called (projectName : String) (projectId : Option String)
    (failed : List String) (apps : List (String × SamlAppSpec)) (x : W × List SamlCall) :
    wp (called H) (fun _ => True) (convergeProjectSamlApps projectName projectId failed apps)
      (fun r y => ∃ attempts : List Attempt, attempts.map Attempt.app = declaredApps apps ∧
        (∀ a ∈ attempts, a.projectId = projectId ∧ a.Valid) ∧
        r = .ok (failed ++ failedNames projectName attempts) ∧
        y.2 = x.2 ++ attempts.flatMap Attempt.calls) x := by
  induction apps generalizing failed x with
  | nil => exact wp_pure.mpr ⟨trivial, [], rfl, by simp, by simp [failedNames], by simp⟩
  | cons app apps ih =>
    obtain ⟨appName, appSpec⟩ := app
    refine wp_seq (attempt_called projectId appName appSpec x) fun r y _ hr => ?_
    obtain ⟨r', rfl, a, hid, hname, hvalid, hfailed, hlog⟩ := hr
    have hrest : ∀ failed', failed' = failed ++ failedNames projectName [a] →
        wp (called H) (fun _ => True) (convergeProjectSamlApps projectName projectId failed' apps)
          (fun r z => ∃ attempts : List Attempt,
            attempts.map Attempt.app = declaredApps ((appName, appSpec) :: apps) ∧
            (∀ a ∈ attempts, a.projectId = projectId ∧ a.Valid) ∧
            r = .ok (failed ++ failedNames projectName attempts) ∧
            z.2 = x.2 ++ attempts.flatMap Attempt.calls) y := by
      rintro failed' rfl
      refine wp_mono (ih _ y) fun r z _ hr => ?_
      obtain ⟨attempts, happs, hall, rfl, hlog'⟩ := hr
      refine ⟨a :: attempts, ?_, ?_, ?_, ?_⟩
      · rw [List.map_cons, happs, hname]
        rfl
      · exact List.forall_mem_cons.mpr ⟨⟨hid, hvalid⟩, hall⟩
      · rw [List.append_assoc, failedNames, failedNames, failedNames, ← List.map_append,
          ← List.filter_append]
        rfl
      · rw [hlog', hlog, List.append_assoc, List.flatMap_cons]
    have happName : a.appName = appName := congrArg Prod.fst hname
    cases r' with
    | ok _ =>
      apply hrest
      simp [failedNames, hfailed, Except.toOption]
    | error e =>
      apply hrest
      simp [failedNames, hfailed, Except.toOption, happName]

/-- The projects that have SAML apps, with the apps. -/
def declaredProjects (projects : List (String × ProjectSpec)) :
    List (String × List (String × String)) :=
  (projects.filter fun p => p.2.samlApps ≠ []).map fun p => (p.1, declaredApps p.2.samlApps)

def Visit.project (v : Visit) : String × List (String × String) :=
  (v.name, v.attempts.map Attempt.app)

theorem convergeAllSamlApps_called (failed : List String) (projects : List (String × ProjectSpec))
    (x : W × List SamlCall) :
    wp (called H) (fun _ => True) (convergeAllSamlApps failed projects)
      (fun r y => ∃ visits : List Visit, visits.map Visit.project = declaredProjects projects ∧
        (∀ v ∈ visits, v.Valid) ∧ r = .ok (failed ++ visits.flatMap Visit.failures) ∧
        y.2 = x.2 ++ visits.flatMap Visit.calls) x := by
  induction projects generalizing failed x with
  | nil => exact wp_pure.mpr ⟨trivial, [], rfl, by simp, by simp, by simp⟩
  | cons project projects ih =>
    obtain ⟨projectName, projectSpec⟩ := project
    show wp _ _ (if projectSpec.samlApps = [] then _ else _) _ x
    split
    · rename_i hnone
      refine wp_mono (ih failed x) fun r y _ hr => ?_
      obtain ⟨visits, hvisits, hrest⟩ := hr
      refine ⟨visits, ?_, hrest⟩
      rw [hvisits, declaredProjects, declaredProjects, List.filter_cons]
      simp [hnone]
    · rename_i hsome
      refine wp_seq (convergeProject_called projectName x) fun r y _ hr => ?_
      obtain ⟨projectId, own, rfl, hown, hlog⟩ := hr
      refine wp_seq (convergeProjectSamlApps_called projectName projectId failed _ y)
        fun r z _ hr => ?_
      obtain ⟨attempts, happs, hall, rfl, hlog'⟩ := hr
      refine wp_mono (ih _ z) fun r t _ hr => ?_
      obtain ⟨visits, hvisits, hvalid, rfl, hlog''⟩ := hr
      refine ⟨⟨projectName, own, attempts⟩ :: visits, ?_, ?_, ?_, ?_⟩
      · rw [List.map_cons, hvisits, declaredProjects, declaredProjects, List.filter_cons]
        simp [hsome, Visit.project, happs]
      · refine List.forall_mem_cons.mpr ⟨⟨⟨projectId, hown, fun a ha => (hall a ha).1⟩,
          fun a ha => (hall a ha).2⟩, hvalid⟩
      · rw [List.append_assoc, List.flatMap_cons]
        rfl
      · rw [hlog'', hlog', hlog, List.flatMap_cons]
        simp [Visit.calls]

/-! ## What is called at all -/

theorem only_convergeSamlApp (projectId : Option String) (appName : String) (spec : SamlAppSpec) :
    (convergeSamlApp projectId appName spec).Only SamlAppClient := by
  refine Prog.only_bind (only_request fun _ => rfl) fun apps => ?_
  cases apps with
  | nil => exact only_request fun _ => rfl
  | cons app rest => exact only_request fun _ => rfl

theorem only_convergeProject (name : String) : (convergeProject name).Only SamlAppClient := by
  refine Prog.only_bind (only_request fun _ => rfl) fun projects => ?_
  cases projects with
  | nil => exact only_request fun _ => rfl
  | cons found rest =>
    refine Prog.only_bind (only_request fun _ => rfl) fun project? => ?_
    refine Prog.only_bind (only_defined _) fun project => ?_
    split
    · exact Prog.only_bind (only_request fun _ => rfl) fun _ => trivial
    · trivial

theorem only_convergeProjectSamlApps (projectName : String) (projectId : Option String)
    (failed : List String) (apps : List (String × SamlAppSpec)) :
    (convergeProjectSamlApps projectName projectId failed apps).Only SamlAppClient := by
  induction apps generalizing failed with
  | nil => trivial
  | cons app apps ih =>
    refine Prog.only_bind (Prog.only_attempt (only_convergeSamlApp _ _ _)) fun r => ?_
    cases r <;> exact ih _

theorem only_convergeAllSamlApps (failed : List String) (projects : List (String × ProjectSpec)) :
    (convergeAllSamlApps failed projects).Only SamlAppClient := by
  induction projects generalizing failed with
  | nil => trivial
  | cons project projects ih =>
    rw [convergeAllSamlApps]
    split
    · exact ih failed
    · exact Prog.only_bind (only_convergeProject _) fun projectId =>
        Prog.only_bind (only_convergeProjectSamlApps _ _ _ _) fun failed => ih failed

theorem only_convergeSamlApps (spec : DesiredState) :
    (convergeSamlApps spec).Only SamlAppClient := by
  refine Prog.only_bind (only_convergeAllSamlApps _ _) fun failed => ?_
  cases failed <;> trivial

/-! ## The whole run -/

/-- Nothing else is called than what is logged. Every app of every project with SAML apps is
attempted once, in their order, and nothing is called for the other projects; the run fails where
an app did, and it names those that did. -/
theorem saml_apps_attempted {spec : DesiredState} {w w' : W} {log : List SamlCall}
    {r : Except Failure Unit}
    (h : Run (called H) (convergeSamlApps spec) (w, []) (some r) (w', log)) :
    (convergeSamlApps spec).Only SamlAppClient ∧
    ∃ visits : List Visit, visits.map Visit.project = declaredProjects spec.projects ∧
      (∀ v ∈ visits, v.Valid) ∧ log = visits.flatMap Visit.calls ∧
      r = match visits.flatMap Visit.failures with
        | [] => .ok ()
        | names => .error { message := "SAML apps not converged: " ++ join ", " names } := by
  have hall := convergeAllSamlApps_called (H := H) [] spec.projects (w, [])
  have hspec : wp (called H) (fun _ => True) (convergeSamlApps spec) (fun r y =>
      ∃ visits : List Visit, visits.map Visit.project = declaredProjects spec.projects ∧
        (∀ v ∈ visits, v.Valid) ∧ y.2 = visits.flatMap Visit.calls ∧
        r = match visits.flatMap Visit.failures with
          | [] => .ok ()
          | names => .error { message := "SAML apps not converged: " ++ join ", " names }) (w, []) := by
    refine wp_seq hall fun r y _ hr => ?_
    obtain ⟨visits, hvisits, hvalid, rfl, hlog⟩ := hr
    show wp _ _ (if [] ++ visits.flatMap Visit.failures = [] then _ else _) _ y
    cases hnames : visits.flatMap Visit.failures with
    | nil => exact wp_pure.mpr ⟨trivial, visits, hvisits, hvalid, by simpa using hlog, by rw [hnames]⟩
    | cons name names =>
      exact wp_fail.mpr ⟨trivial, visits, hvisits, hvalid, by simpa using hlog, by rw [hnames]; rfl⟩
  exact ⟨only_convergeSamlApps spec, hspec.2 r _ h⟩

/-- Any answers. -/
def anything : Handler Op Unit where
  step _ _ _ _ := True

/-- Two projects of three apps, of which one is registered already. -/
def threeApps : DesiredState where
  adminOrg := "org"
  adminUsername := "admin"
  orgDomains := []
  policies := ⟨⟨false, false⟩, ⟨false, false⟩, false, false⟩
  projects := [
    ("site", { samlApps := [("cms", ⟨"https://cms/metadata"⟩), ("app", ⟨"https://app/metadata"⟩)] }),
    ("other", {}),
    ("tools", { samlApps := [("admin", ⟨"https://admin/metadata"⟩)] })]

/-- The searches for two of the apps fail. -/
def samlReply : {β : Type} → Op β → Option β
  | _, .inl (.searchProjects name) => some (.ok [⟨"project-" ++ name, name⟩])
  | _, .inl (.getProject id) => some (.ok (some ⟨id, true⟩))
  | _, .inl (.searchApps _ name) => some (if name = "app" then .ok [] else .failed (name ++ " is down"))
  | _, .inl (.createSAMLApp _ _ _) => some (.ok ())
  | _, _ => none

def scriptedSaml : Oracle Op (Unit × List SamlCall) where
  answer e x := (samlReply e).map fun b => (b, (), x.2 ++ (samlCall e () b).toList)

def samlRun : Option (Except Failure Unit) × Unit × List SamlCall :=
  (convergeSamlApps threeApps).exec scriptedSaml 60 ((), [])

theorem samlReply_succeeds {β : Type} {e : Op β} {b : β} (h : samlReply e = some b) :
    ProjectsSucceed e b := by
  rcases e with c | f
  · cases c with
    | searchProjects name =>
      cases h
      exact ⟨_, rfl⟩
    | getProject id =>
      cases h
      exact ⟨_, rfl⟩
    | updateProject id settings => cases h
    | createProject name => cases h
    | _ => trivial
  · trivial

theorem samlRun_run : Run (called anything) (convergeSamlApps threeApps) ((), []) samlRun.1
    ((), samlRun.2.2) := by
  apply exec_run
  intro β e x b y h
  obtain ⟨b', hb, he⟩ := Option.map_eq_some_iff.mp h
  cases he
  exact ⟨⟨trivial, samlReply_succeeds hb⟩, rfl⟩

theorem saml_apps_attempted_sample : (convergeSamlApps threeApps).Only SamlAppClient ∧
    ∃ visits : List Visit, visits.map Visit.project = declaredProjects threeApps.projects ∧
      (∀ v ∈ visits, v.Valid) ∧ samlRun.2.2 = visits.flatMap Visit.calls ∧
      (.error { message := "SAML apps not converged: cms in site, admin in tools" } :
        Except Failure Unit) = match visits.flatMap Visit.failures with
        | [] => .ok ()
        | names => .error { message := "SAML apps not converged: " ++ join ", " names } := by
  have hend : samlRun.1 =
      some (.error { message := "SAML apps not converged: cms in site, admin in tools" }) := by
    decide +kernel
  have hrun := samlRun_run
  rw [hend] at hrun
  exact saml_apps_attempted hrun

end Foundrix.ZitadelConfigure

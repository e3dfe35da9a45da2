import Foundrix.ZitadelConfigure.StoredSecret
import Foundrix.ZitadelConfigure.Unconcerned
import Mathlib.Data.List.Nodup

/-!
# Running `configure` again

The credential files of a desired state that the Nix module can generate, over any runs of
`configure`.

* `Generated`, `ConfidentialApp`: the names are different, the paths are the default ones.
* `Kept`, `SameLies`: what every part of a run keeps for all confidential apps.
* `convergeApps_kept`, `convergeProject_kept`, `configure_kept`: one lemma for each level.
* `rerun_rotates_nothing_iff`: when a run regenerates nothing after a complete one.
-/

namespace Foundrix.ZitadelConfigure

open Text Effect Machine

/-! ## The desired state -/

/-- The default of `outputPath` in `zitadel.nix`. -/
def defaultOutputPath (name : String) : AppType → String
  | .confidential => "/var/credentials/zitadel-" ++ name ++ "-creds.env"
  | .publicApp => "/run/zitadel/" ++ name ++ "-client-id"

/-- What the Nix module generates where the output paths are left alone: the names in an
attribute set are different. -/
structure Generated (spec : DesiredState) : Prop where
  projects : (spec.projects.map Prod.fst).Nodup
  apps : ∀ p ∈ spec.projects, (p.2.apps.map Prod.fst).Nodup
  outputPaths : ∀ p ∈ spec.projects, ∀ a ∈ p.2.apps,
    a.2.outputPath = defaultOutputPath a.1 a.2.type

/-- A confidential app of the desired state. -/
structure ConfidentialApp where
  project : String
  name : String
deriving DecidableEq, Repr

def confidentialApps (spec : DesiredState) : List ConfidentialApp :=
  spec.projects.flatMap fun p =>
    (p.2.apps.filter fun a => a.2.type = .confidential).map fun a => ⟨p.1, a.1⟩

namespace ConfidentialApp

def path (c : ConfidentialApp) : String := defaultOutputPath c.name .confidential

/-- The app in the project with an id. -/
def slot (c : ConfidentialApp) (id : String) : Slot := ⟨some id, c.name, c.path⟩

/-- The file holds the current client id and secret of the app. -/
def HoldsCurrent (c : ConfidentialApp) (w : World) : Prop :=
  ∃ id, w.projects c.project = some id ∧ (c.slot id).HoldsCurrent w

/-- The file names the current client id of the app beside a secret that is not accepted. -/
def Lies (c : ConfidentialApp) (w : World) : Prop :=
  ∃ id, w.projects c.project = some id ∧ (c.slot id).Lies w

/-- The file does not lie, as earlier runs leave it or where it is absent. -/
structure Honest (c : ConfidentialApp) (w : World) : Prop where
  issued : ∀ project id, (c.slot project).Names w id → id ∈ w.issued
  truthful : ∀ id, w.projects c.project = some id → (c.slot id).NamesCurrent w →
    (c.slot id).HoldsCurrent w

end ConfidentialApp

/-- Every confidential app has a file of its own. -/
def OwnFiles (spec : DesiredState) : Prop :=
  ∀ c ∈ confidentialApps spec, ∀ c' ∈ confidentialApps spec,
    locate c.path = locate c'.path → c = c'

instance (spec : DesiredState) : Decidable (OwnFiles spec) :=
  inferInstanceAs (Decidable (∀ c ∈ confidentialApps spec, ∀ c' ∈ confidentialApps spec,
    locate c.path = locate c'.path → c = c'))

/-! ## What every part of a run keeps -/

section Frames

variable {c : ConfidentialApp} {w w' : World}

theorem ConfidentialApp.Honest.slot (h : c.Honest w) {id : String}
    (hid : w.projects c.project = some id) : (c.slot id).Honest w :=
  ⟨h.issued id, h.truthful id hid⟩

theorem ConfidentialApp.HoldsCurrent.not_lies (h : c.HoldsCurrent w) : ¬ c.Lies w := by
  obtain ⟨id, hid, hholds⟩ := h
  rintro ⟨id', hid', hlies⟩
  obtain rfl : id = id' := Option.some.inj (hid.symm.trans hid')
  exact hholds.not_lies hlies

theorem ConfidentialApp.Honest.not_lies (h : c.Honest w) : ¬ c.Lies w := by
  rintro ⟨id, hid, hlies⟩
  exact (h.slot hid).not_lies hlies

theorem ConfidentialApp.Lies.congr (h : c.Lies w)
    (hproject : w'.projects c.project = w.projects c.project)
    (happ : ∀ id, w.projects c.project = some id → (c.slot id).app w' = (c.slot id).app w)
    (hfile : w'.files (locate c.path) = w.files (locate c.path)) : c.Lies w' := by
  obtain ⟨id, hid, hlies⟩ := h
  exact ⟨id, hproject.trans hid, hlies.congr (happ id hid) hfile⟩

/-- Whether a file lies is a matter of its app and of the file. -/
theorem lies_congr (hproject : w'.projects c.project = w.projects c.project)
    (happ : ∀ id, w.projects c.project = some id → (c.slot id).app w' = (c.slot id).app w)
    (hfile : w'.files (locate c.path) = w.files (locate c.path)) : c.Lies w' ↔ c.Lies w := by
  constructor
  · intro h
    refine h.congr hproject.symm (fun id hid => ?_) hfile.symm
    exact (happ id (hproject ▸ hid)).symm
  · intro h
    exact h.congr hproject happ hfile

theorem ConfidentialApp.HoldsCurrent.congr (h : c.HoldsCurrent w)
    (hproject : w'.projects c.project = w.projects c.project)
    (happ : ∀ id, w.projects c.project = some id → (c.slot id).app w' = (c.slot id).app w)
    (hfile : w'.files (locate c.path) = w.files (locate c.path)) : c.HoldsCurrent w' := by
  obtain ⟨id, hid, hholds⟩ := h
  exact ⟨id, hproject.trans hid, hholds.congr (happ id hid) hfile⟩

theorem ConfidentialApp.Honest.congr (h : c.Honest w)
    (hproject : w'.projects c.project = w.projects c.project)
    (happ : ∀ id, w.projects c.project = some id → (c.slot id).app w' = (c.slot id).app w)
    (hfile : w'.files (locate c.path) = w.files (locate c.path))
    (hissued : w.issued ⊆ w'.issued) : c.Honest w' := by
  constructor
  · rintro project id ⟨text, htext, hnamed⟩
    exact hissued (h.issued project id ⟨text, hfile ▸ htext, hnamed⟩)
  · intro id hid hnames
    rw [hproject] at hid
    have hholds := h.truthful id hid (hnames.congr (happ id hid).symm hfile.symm)
    exact hholds.congr (happ id hid) hfile

end Frames

/-- What a part of a run leaves for the confidential apps `C`. -/
structure Kept (C : List ConfidentialApp) (x y : World × List Regenerated) : Prop where
  sound : Sound y.1
  honest : ∀ c ∈ C, c.Honest x.1 → c.Honest y.1
  projects : ∀ name id, x.1.projects name = some id → y.1.projects name = some id
  held : ∀ c ∈ C, c.HoldsCurrent x.1 → c.HoldsCurrent y.1
  /-- Where all the files hold what they should, no secret is regenerated. -/
  log : (∀ c ∈ C, c.HoldsCurrent x.1) → y.2 = x.2

/-- The files that lie are the same ones. -/
def SameLies (C : List ConfidentialApp) (x y : World × List Regenerated) : Prop :=
  ∀ c ∈ C, c.Lies y.1 ↔ c.Lies x.1

section Keeping

variable {C : List ConfidentialApp} {x y z : World × List Regenerated}

theorem SameLies.refl (x : World × List Regenerated) : SameLies C x x := fun _ _ => Iff.rfl

theorem SameLies.trans (h : SameLies C x y) (h' : SameLies C y z) : SameLies C x z :=
  fun c hc => (h' c hc).trans (h c hc)

theorem Kept.refl (hsound : Sound x.1) : Kept C x x :=
  ⟨hsound, fun _ _ h => h, fun _ _ h => h, fun _ _ h => h, fun _ => rfl⟩

theorem Kept.trans (h : Kept C x y) (h' : Kept C y z) : Kept C x z := by
  refine ⟨h'.sound, fun c hc hx => h'.honest c hc (h.honest c hc hx), ?_, ?_, ?_⟩
  · intro name id hid
    exact h'.projects name id (h.projects name id hid)
  · intro c hc hholds
    exact h'.held c hc (h.held c hc hholds)
  · intro hall
    exact (h'.log fun c hc => h.held c hc (hall c hc)).trans (h.log hall)

/-- The state in the middle of a run is a start for what follows. -/
theorem Kept.start (h : Kept C x y) : Kept C y y := Kept.refl h.sound

theorem kept_seq {α β : Type} {p : Script α} {f : α → Script β}
    {R : α → World × List Regenerated → Prop} {Q : β → World × List Regenerated → Prop}
    (hp : wpOk audited (Kept C x) p R x)
    (hf : ∀ a y, Kept C x y → R a y → wpOk audited (Kept C y) (f a) Q y) :
    wpOk audited (Kept C x) (p.bind f) Q x :=
  wpOk_seq_trans (fun h h' => h.trans h') hp hf

/-- Functions whose operations have no effect. -/
theorem kept_harmless {α : Type} {p : Script α} (hp : p.Only Harmless) (hx : Kept C x x) :
    wpOk audited (Kept C x) p (fun _ y => y = x) x :=
  wp_mono (harmless_spec hp hx) fun _ _ _ hsame _ _ => hsame

theorem harmless_ok {α : Type} {p : Script α} {I : World × List Regenerated → Prop}
    (hp : p.Only Harmless) (hI : I x) : wpOk audited I p (fun _ y => y = x) x :=
  wp_mono (harmless_spec hp hI) fun _ _ _ hsame _ _ => hsame

theorem kept_plain {α : Type} {p : Script α} (hp : p.Only Plain) (hx : Kept C x x) :
    wpOk audited (Kept C x) p (fun _ y => y = x) x :=
  kept_harmless (hp.mono Plain.harmless) hx

/-- What leaves the apps and files of `C` alone. -/
structure Aside (C : List ConfidentialApp) (x y : World × List Regenerated) : Prop where
  sound : Sound y.1
  projects : y.1.projects = x.1.projects
  apps : ∀ c ∈ C, ∀ id, x.1.projects c.project = some id →
    (c.slot id).app y.1 = (c.slot id).app x.1
  files : ∀ c ∈ C, y.1.files (locate c.path) = x.1.files (locate c.path)
  issued : x.1.issued ⊆ y.1.issued
  log : y.2 = x.2

theorem Aside.refl (hsound : Sound x.1) : Aside C x x :=
  ⟨hsound, rfl, fun _ _ _ _ => rfl, fun _ _ => rfl, fun _ h => h, rfl⟩

theorem Aside.trans (h : Aside C x y) (h' : Aside C y z) : Aside C x z where
  sound := h'.sound
  projects := h'.projects.trans h.projects
  apps := fun c hc id hid => (h'.apps c hc id (h.projects ▸ hid)).trans (h.apps c hc id hid)
  files := fun c hc => (h'.files c hc).trans (h.files c hc)
  issued := fun _ hid => h'.issued (h.issued hid)
  log := h'.log.trans h.log

theorem Aside.kept (h : Aside C x y) : Kept C x y := by
  refine ⟨h.sound, ?_, ?_, ?_, fun _ => h.log⟩
  · intro c hc hx
    exact hx.congr (by rw [h.projects]) (h.apps c hc) (h.files c hc) h.issued
  · intro name id hid
    rw [h.projects]
    exact hid
  · intro c hc hholds
    exact hholds.congr (by rw [h.projects]) (h.apps c hc) (h.files c hc)

theorem Aside.sameLies (h : Aside C x y) : SameLies C x y :=
  fun c hc => lies_congr (by rw [h.projects]) (h.apps c hc) (h.files c hc)

end Keeping

/-! ## Where the files are -/

theorem locate_path_ne_public (name name' : String) :
    locate (defaultOutputPath name .confidential) ≠ locate (defaultOutputPath name' .publicApp) :=
  locate_append_ne_of_getLast (by decide) (by decide) (by decide) (by decide) (by decide)

theorem locate_path_ne_tmp (proc : Nat) (name path : String) :
    locate (defaultOutputPath name .confidential) ≠ locate (tmpPath proc path) := by
  have htmp : tmpPath proc path = path ++ (".tmp." ++ toString proc) := by
    show path ++ ".tmp." ++ toString proc = _
    rw [String.append_assoc]
  rw [htmp]
  refine locate_append_ne_of_getLast (by decide) (slash_notMem_tmp proc) (by decide) ?_ ?_
  · rw [String.toList_append, List.length_append]
    have : (".tmp.").toList.length = 5 := by decide
    omega
  · intro hlast
    have hv : ("-creds.env").toList.getLast? = some 'v' := by decide
    rw [hv] at hlast
    have hmem := List.mem_of_getLast? hlast.symm
    rw [String.toList_append, List.mem_append] at hmem
    rcases hmem with hmem | hmem
    · exact absurd hmem (by decide)
    · exact absurd (isDigit_of_mem_toString hmem) (by decide)

/-! ## Apps -/

section Apps

variable {C : List ConfidentialApp} {x y : World × List Regenerated}

/-- An app is the only one of its project and its name. -/
theorem ConfidentialApp.eq_of_slot {w : World} {c c' : ConfidentialApp} {id id' : String}
    (hsound : Sound w) (hid : w.projects c.project = some id)
    (hid' : w.projects c'.project = some id') (hproject : some id' = some id)
    (hname : c'.name = c.name) : c' = c := by
  obtain rfl : id' = id := Option.some.inj hproject
  have hsame : c'.project = c.project := hsound.projectIds _ _ _ hid' hid
  rcases c with ⟨project, name⟩
  rcases c' with ⟨project', name'⟩
  obtain rfl : project' = project := hsame
  obtain rfl : name' = name := hname
  rfl

/-- Converging an app leaves the others and their files alone. -/
theorem Within.others {proc : Nat} {c c' : ConfidentialApp} {id : String} (hsound : Sound x.1)
    (hid : x.1.projects c.project = some id) (hown : locate c'.path = locate c.path → c' = c)
    (hne : c' ≠ c) (h : Within proc (c.slot id) x y) :
    (∀ id', x.1.projects c'.project = some id' → (c'.slot id').app y.1 = (c'.slot id').app x.1) ∧
      y.1.files (locate c'.path) = x.1.files (locate c'.path) := by
  constructor
  · intro id' hid'
    apply h.apps
    rintro ⟨hproject, hname⟩
    exact hne (ConfidentialApp.eq_of_slot hsound hid hid' hproject hname)
  · apply h.files
    · exact fun hsame => hne (hown hsame)
    · exact locate_path_ne_tmp proc c'.name _

/-- Converging one app of `C`, wherever it is cut. -/
theorem Within.kept {proc : Nat} {c : ConfidentialApp} {id : String} (hsound : Sound x.1)
    (hid : x.1.projects c.project = some id)
    (hown : ∀ c' ∈ C, locate c'.path = locate c.path → c' = c) (hc : c ∈ C)
    (h : Within proc (c.slot id) x y) : Kept C x y := by
  have hframe := fun c' hc' hne => h.others hsound hid (hown c' hc') hne
  have hproject : ∀ n, y.1.projects n = x.1.projects n := fun n => by rw [h.projects]
  have hcurrent : ∀ {id'}, y.1.projects c.project = some id' → id' = id := fun hid' =>
    Option.some.inj (hid'.symm.trans ((hproject _).trans hid))
  refine ⟨h.sound, ?_, ?_, ?_, ?_⟩
  · intro c' hc' hhonest
    by_cases hsame : c' = c
    · subst hsame
      have hslot := h.honest (hhonest.slot hid)
      refine ⟨fun _ i hnames => hslot.issued i hnames, fun id' hid' => ?_⟩
      rw [hcurrent hid']
      exact hslot.truthful
    · obtain ⟨happ, hfile⟩ := hframe c' hc' hsame
      exact hhonest.congr (hproject _) happ hfile h.issued
  · intro n i hi
    exact (hproject n).trans hi
  · intro c' hc' hholds
    by_cases hsame : c' = c
    · subst hsame
      obtain ⟨id', hid', hholds⟩ := hholds
      obtain rfl : id' = id := Option.some.inj (hid'.symm.trans hid)
      exact ⟨id', (hproject _).trans hid, (h.held hholds).1⟩
    · obtain ⟨happ, hfile⟩ := hframe c' hc' hsame
      exact hholds.congr (hproject _) happ hfile
  · intro hall
    obtain ⟨id', hid', hholds⟩ := hall c hc
    obtain rfl : id' = id := Option.some.inj (hid'.symm.trans hid)
    exact (h.held hholds).2

theorem Within.sameLies {proc : Nat} {c : ConfidentialApp} {id : String} (hsound : Sound x.1)
    (hid : x.1.projects c.project = some id)
    (hown : ∀ c' ∈ C, locate c'.path = locate c.path → c' = c)
    (h : Within proc (c.slot id) x y)
    (hend : (¬ (c.slot id).Lies x.1 → (c.slot id).HoldsCurrent y.1) ∧
      ((c.slot id).Lies x.1 → (c.slot id).Lies y.1)) : SameLies C x y := by
  intro c' hc'
  by_cases hsame : c' = c
  · subst hsame
    have hid' : y.1.projects c'.project = some id := by rw [h.projects, hid]
    constructor
    · rintro ⟨id', hproject, hlies⟩
      obtain rfl : id' = id := Option.some.inj (hproject.symm.trans hid')
      refine ⟨id', hid, ?_⟩
      by_contra hnot
      exact (hend.1 hnot).not_lies hlies
    · rintro ⟨id', hproject, hlies⟩
      obtain rfl : id' = id := Option.some.inj (hproject.symm.trans hid)
      exact ⟨id', hid', hend.2 hlies⟩
  · obtain ⟨happ, hfile⟩ := h.others hsound hid (hown c' hc') hsame
    exact lies_congr (by rw [h.projects]) happ hfile

/-- A new app is none of `C`. -/
theorem created_aside {c : ConfidentialApp} {id : String} {app : ServerApp} (hsound : Sound x.1)
    (hid : x.1.projects c.project = some id) (hc : c ∉ C)
    (hcreated : Created x.1 (some id) c.name app y.1) (hlog : y.2 = x.2) : Aside C x y := by
  have hresult := hcreated.result
  refine ⟨hsound.created hcreated, by rw [hresult]; rfl, ?_, ?_, ?_, hlog⟩
  · intro c' hc' id' hid'
    rw [Slot.app, hresult]
    refine if_neg ?_
    rintro ⟨hproject, hname⟩
    exact hc (ConfidentialApp.eq_of_slot hsound hid hid' hproject hname ▸ hc')
  · intro c' _
    rw [hresult]
    rfl
  · rw [hresult]
    exact List.subset_append_right _ _

/-- The file of a public app is none of theirs. -/
theorem public_file_aside {name : String} {text : Option String} (hsound : Sound x.1)
    (hworld : y.1 = x.1.setFile (locate (defaultOutputPath name .publicApp)) text)
    (hlog : y.2 = x.2) : Aside C x y := by
  refine ⟨?_, ?_, ?_, ?_, ?_, hlog⟩
  · rw [hworld]
    exact hsound.setFile _ _
  · rw [hworld]
    rfl
  · intro c' _ id' _
    rw [Slot.app, hworld]
    rfl
  · intro c' _
    rw [hworld]
    exact World.setFile_other _ _ (locate_path_ne_public c'.name name)
  · rw [hworld]
    exact fun _ h => h

/-- A public app is none of `C`, and its file is none of theirs. -/
theorem convergePublicApp_aside {c : ConfidentialApp} {id : String} {spec : AppSpec}
    (hsound : Sound x.1) (hid : x.1.projects c.project = some id) (hc : c ∉ C)
    (hpath : spec.outputPath = defaultOutputPath c.name .publicApp) :
    wpOk audited (Aside C x) (convergePublicApp (some id) c.name spec) (fun _ _ => True) x := by
  have hx : Aside C x x := .refl hsound
  have hclient : wpOk audited (Aside C x) (publicClientId (some id) c.name spec)
      (fun _ _ => True) x := by
    refine wpOk_seq (searchApps_spec hx _ _) fun found y _ hfound => ?_
    obtain ⟨rfl, -⟩ := hfound
    cases found with
    | cons app rest =>
      refine wp_mono (harmless_spec ?_ hx) fun _ _ _ _ _ _ => trivial
      refine Prog.only_bind (only_defined _) fun clientId => ?_
      exact Prog.only_bind (only_updateConfig _ _ _ _ _) fun _ => trivial
    | nil =>
      refine wpOk_seq (harmless_ok (only_orFail _) hx) fun types z _ hsame => ?_
      subst hsame
      refine wpOk_seq (R := fun _ _ => True) ?_ fun creds v hv _ => wpOk_pure hv trivial
      refine request_spec hx (fun b v hs => ?_) fun _ _ _ _ _ => trivial
      obtain ⟨⟨hstep, -⟩, hlog⟩ := audited_api.mp hs
      have hlog : v.2 = z.2 := by simpa [regenerated] using hlog
      rcases (apiStep_createOIDCApp hstep).1 with hworld | ⟨app, hcreated⟩
      · obtain rfl : v = z := Prod.ext hworld hlog
        exact hx
      · exact created_aside hsound hid hc hcreated hlog
  refine wpOk_seq hclient fun clientId y hy _ => ?_
  rw [hpath]
  refine deno_spec hy (fun r z hs hlog => ?_) fun _ _ _ _ => trivial
  cases r with
  | ok u => exact hy.trans (public_file_aside hy.sound hs hlog)
  | error e =>
    obtain ⟨text, hworld⟩ := hs
    exact hy.trans (public_file_aside hy.sound hworld hlog)

/-- One app of a project. -/
theorem convergeApp_kept {proc : Nat} {project id : String} {app : String × AppSpec}
    (hown : ∀ c ∈ C, ∀ c' ∈ C, locate c.path = locate c'.path → c = c')
    (hpath : app.2.outputPath = defaultOutputPath app.1 app.2.type)
    (hconfidential : app.2.type = .confidential → ⟨project, app.1⟩ ∈ C)
    (hpublic : app.2.type = .publicApp → ⟨project, app.1⟩ ∉ C)
    (hx : Kept C x x) (hid : x.1.projects project = some id) :
    wpOk audited (Kept C x) (convergeApp proc (some id) app)
      (fun _ y => SameLies C x y ∧ (app.2.type = .confidential →
        ¬ ConfidentialApp.Lies ⟨project, app.1⟩ x.1 →
          ConfidentialApp.HoldsCurrent ⟨project, app.1⟩ y.1)) x := by
  unfold convergeApp
  cases htype : app.2.type with
  | confidential =>
    have hc := hconfidential htype
    rw [htype] at hpath
    refine wp_always_mono (wpOk_mono (convergeConfidentialApp_spec
      (s := ConfidentialApp.slot ⟨project, app.1⟩ id) hx.sound hpath) ?_) fun y hy =>
      hy.kept hx.sound hid (fun c' hc' => hown c' hc' _ hc) hc
    rintro - y hy hend
    refine ⟨hy.sameLies hx.sound hid (fun c' hc' => hown c' hc' _ hc) hend, fun _ hnot => ?_⟩
    exact ⟨id, by rw [hy.projects]; exact hid, hend.1 fun hlies => hnot ⟨id, hid, hlies⟩⟩
  | publicApp =>
    rw [htype] at hpath
    have hspec := convergePublicApp_aside (c := ⟨project, app.1⟩) hx.sound hid
      (hpublic htype) hpath
    refine wp_always_mono (wpOk_mono hspec fun _ y hy _ => ?_) fun y hy => hy.kept
    refine ⟨hy.sameLies, fun hconf => ?_⟩
    cases hconf

/-- The apps of one project, in their order. -/
theorem convergeApps_kept {proc : Nat} {project id : String} {apps : List (String × AppSpec)}
    (hown : ∀ c ∈ C, ∀ c' ∈ C, locate c.path = locate c'.path → c = c')
    (hpaths : ∀ a ∈ apps, a.2.outputPath = defaultOutputPath a.1 a.2.type)
    (hconfidential : ∀ a ∈ apps, a.2.type = .confidential → ⟨project, a.1⟩ ∈ C)
    (hpublic : ∀ a ∈ apps, a.2.type = .publicApp → ⟨project, a.1⟩ ∉ C)
    (hx : Kept C x x) (hid : x.1.projects project = some id) :
    wpOk audited (Kept C x) (forEach apps (convergeApp proc (some id)))
      (fun _ y => SameLies C x y ∧ ∀ a ∈ apps, a.2.type = .confidential →
        ¬ ConfidentialApp.Lies ⟨project, a.1⟩ x.1 →
          ConfidentialApp.HoldsCurrent ⟨project, a.1⟩ y.1) x := by
  induction apps generalizing x with
  | nil => exact wpOk_pure hx ⟨.refl x, by simp⟩
  | cons app apps ih =>
    have hmem : app ∈ app :: apps := List.mem_cons_self
    refine kept_seq (convergeApp_kept hown (hpaths app hmem) (hconfidential app hmem)
      (hpublic app hmem) hx hid) fun _ y hy hhead => ?_
    obtain ⟨hsame, hhead⟩ := hhead
    have htail := ih (fun a ha => hpaths a (List.mem_cons_of_mem _ ha))
      (fun a ha => hconfidential a (List.mem_cons_of_mem _ ha))
      (fun a ha => hpublic a (List.mem_cons_of_mem _ ha)) hy.start (hy.projects _ _ hid)
    refine wpOk_mono htail fun _ z hz htail => ⟨hsame.trans htail.1, fun a ha htype hnot => ?_⟩
    rcases List.mem_cons.mp ha with rfl | ha
    · exact hz.held _ (hconfidential a hmem htype) (hhead htype hnot)
    · have hc := hconfidential a (List.mem_cons_of_mem _ ha) htype
      exact htail.2 a ha htype ((hsame _ hc).not.mpr hnot)

end Apps

/-! ## Projects -/

section Projects

variable {C : List ConfidentialApp} {x y : World × List Regenerated}

/-- A search tells nothing that is not there. -/
theorem searchProjects_spec {I : World × List Regenerated → Prop} (hI : I x) (name : String) :
    wpOk audited I (request (.searchProjects name)) (fun found y => y = x ∧
      ∀ p ∈ found, x.1.projects name = some p.id) x := by
  have hsame : ∀ b y, audited.step (.inl (.searchProjects name)) x b y → y = x := by
    intro b y hs
    exact harmless_step (e := .inl (.searchProjects name)) trivial hs
  refine request_spec hI (fun b y hs => hsame b y hs ▸ hI) fun b a y hs hb => ?_
  refine ⟨hsame b y hs, ?_⟩
  rcases hb with rfl | ⟨-, hempty⟩
  · exact (audited_api.mp hs).1.1.2 a rfl
  · cases hempty
    simp

/-- A new project has no apps, so that no file can be about one of them. -/
theorem kept_of_created {name id : String} (hx : Kept C x x) (hfree : x.1.projects name = none)
    (hfresh : ∀ n, x.1.projects n ≠ some id) (hempty : ∀ n, x.1.apps (some id) n = none)
    (hworld : y.1 = x.1.setProject name id) (hlog : y.2 = x.2) : Kept C x y ∧ SameLies C x y := by
  have hother : ∀ n, n ≠ name → y.1.projects n = x.1.projects n := by
    intro n hn
    rw [hworld]
    exact if_neg hn
  have hfiles : ∀ l, y.1.files l = x.1.files l := fun l => by rw [hworld]; rfl
  have happs : ∀ s : Slot, s.app y.1 = s.app x.1 := fun s => by rw [Slot.app, hworld]; rfl
  have hissued : x.1.issued ⊆ y.1.issued := by
    rw [hworld]
    exact fun _ h => h
  refine ⟨⟨hworld ▸ hx.sound.setProject hfresh, ?_, ?_, ?_, fun _ => hlog⟩, fun c hc => ?_⟩
  · intro c hc hhonest
    by_cases hn : c.project = name
    · constructor
      · rintro project i ⟨text, htext, hnamed⟩
        exact hissued (hhonest.issued project i ⟨text, hfiles _ ▸ htext, hnamed⟩)
      · rintro i hi ⟨app, j, happ, -⟩
        rw [hworld, hn] at hi
        obtain rfl : id = i := Option.some.inj ((if_pos rfl).symm.trans hi)
        rw [happs] at happ
        cases (hempty c.name).symm.trans happ
    · exact hhonest.congr (hother _ hn) (fun _ _ => happs _) (hfiles _) hissued
  · intro n i hi
    have hn : n ≠ name := by
      rintro rfl
      rw [hfree] at hi
      cases hi
    rw [hother n hn]
    exact hi
  · rintro c hc ⟨i, hi, hholds⟩
    have hn : c.project ≠ name := by
      rintro rfl
      rw [hfree] at hi
      cases hi
    exact ConfidentialApp.HoldsCurrent.congr ⟨i, hi, hholds⟩ (hother _ hn) (fun _ _ => happs _)
      (hfiles _)
  · by_cases hn : c.project = name
    · constructor
      · rintro ⟨i, hi, app, j, stored, happ, -⟩
        rw [hworld, hn] at hi
        obtain rfl : id = i := Option.some.inj ((if_pos rfl).symm.trans hi)
        rw [happs] at happ
        cases (hempty c.name).symm.trans happ
      · rintro ⟨i, hi, -⟩
        rw [hn, hfree] at hi
        cases hi
    · exact lies_congr (hother _ hn) (fun _ _ => happs _) (hfiles _)

theorem convergeProject_kept (hx : Kept C x x) (name : String) :
    wpOk audited (Kept C x) (convergeProject name)
      (fun r y => SameLies C x y ∧ ∃ id, r = some id ∧ y.1.projects name = some id) x := by
  refine kept_seq (searchProjects_spec hx name) fun found y _ hfound => ?_
  obtain ⟨rfl, hfound⟩ := hfound
  cases found with
  | cons p rest =>
    refine kept_seq (kept_harmless (only_request trivial) hx) fun settings z _ hsame => ?_
    subst hsame
    refine kept_seq (kept_harmless (only_defined _) hx) fun project v _ hsame => ?_
    subst hsame
    have hp := hfound p List.mem_cons_self
    by_cases hroles : (!project.projectRoleAssertion) = true
    · rw [if_pos hroles]
      refine kept_seq (kept_harmless (only_request trivial) hx) fun _ u _ hsame => ?_
      subst hsame
      exact wpOk_pure hx ⟨.refl _, p.id, rfl, hp⟩
    · rw [if_neg hroles]
      exact wpOk_pure hx ⟨.refl _, p.id, rfl, hp⟩
  | nil =>
    have hstep : ∀ b z, audited.step (.inl (.createProject name)) y b z →
        Kept C y z ∧ SameLies C y z := by
      intro b z hs
      obtain ⟨⟨hstep, -⟩, hlog⟩ := audited_api.mp hs
      have hlog : z.2 = y.2 := by simpa [regenerated] using hlog
      rcases (apiStep_createProject hstep).1 with
        hworld | ⟨i, hfree, hfresh, hempty, hworld⟩
      · obtain rfl : z = y := Prod.ext hworld hlog
        exact ⟨hx, .refl _⟩
      · exact kept_of_created hx hfree hfresh hempty hworld hlog
    refine request_spec hx (fun b z hs => (hstep b z hs).1) fun b r z hs hb => ?_
    · rcases hb with rfl | ⟨hpre, -⟩
      · exact ⟨(hstep _ z hs).2, (apiStep_createProject (audited_api.mp hs).1.1).2 r rfl⟩
      · exact absurd hpre (audited_api.mp hs).1.2

/-- One project with its apps: those of `C` that belong to it have what they should. -/
theorem convergeProjectSpec_kept {proc : Nat} {granted : List String}
    {project : String × ProjectSpec}
    (hown : ∀ c ∈ C, ∀ c' ∈ C, locate c.path = locate c'.path → c = c')
    (hpaths : ∀ a ∈ project.2.apps, a.2.outputPath = defaultOutputPath a.1 a.2.type)
    (hmem : ∀ n, (⟨project.1, n⟩ : ConfidentialApp) ∈ C ↔
      ∃ a ∈ project.2.apps, a.1 = n ∧ a.2.type = .confidential)
    (hnames : (project.2.apps.map Prod.fst).Nodup) (hx : Kept C x x) :
    wpOk audited (Kept C x) (convergeProjectSpec proc granted project)
      (fun _ y => SameLies C x y ∧ ∀ c ∈ C, c.project = project.1 → ¬ c.Lies x.1 →
        c.HoldsCurrent y.1) x := by
  refine kept_seq (convergeProject_kept hx project.1) fun r y hy hr => ?_
  obtain ⟨hsame, id, rfl, hid⟩ := hr
  have hpublic : ∀ a ∈ project.2.apps, a.2.type = .publicApp →
      (⟨project.1, a.1⟩ : ConfidentialApp) ∉ C := by
    intro a ha htype hin
    obtain ⟨a', ha', hname, htype'⟩ := (hmem a.1).mp hin
    obtain rfl : a' = a := List.inj_on_of_nodup_map hnames ha' ha hname
    rw [htype] at htype'
    cases htype'
  have hconfidential : ∀ a ∈ project.2.apps, a.2.type = .confidential →
      (⟨project.1, a.1⟩ : ConfidentialApp) ∈ C :=
    fun a ha htype => (hmem a.1).mpr ⟨a, ha, rfl, htype⟩
  refine kept_seq (convergeApps_kept hown hpaths hconfidential hpublic hy.start hid)
    fun _ z hz hholds => ?_
  refine wpOk_mono (kept_harmless (only_convergeRoles _ _ _) hz.start) fun _ v _ hsame' => ?_
  subst hsame'
  refine ⟨hsame.trans hholds.1, ?_⟩
  rintro ⟨p, n⟩ hc rfl hnot
  obtain ⟨a, ha, rfl, htype⟩ := (hmem n).mp hc
  exact hholds.2 a ha htype ((hsame _ hc).not.mpr hnot)

theorem mem_confidentialApps {spec : DesiredState} (hspec : Generated spec)
    {project : String × ProjectSpec} (hproject : project ∈ spec.projects) (n : String) :
    (⟨project.1, n⟩ : ConfidentialApp) ∈ confidentialApps spec ↔
      ∃ a ∈ project.2.apps, a.1 = n ∧ a.2.type = .confidential := by
  simp only [confidentialApps, List.mem_flatMap, List.mem_map, List.mem_filter, decide_eq_true_eq]
  constructor
  · rintro ⟨p, hp, a, ⟨ha, htype⟩, heq⟩
    obtain ⟨hname, hn⟩ := ConfidentialApp.mk.inj heq
    obtain rfl : p = project := List.inj_on_of_nodup_map hspec.projects hp hproject hname
    exact ⟨a, ha, hn, htype⟩
  · rintro ⟨a, ha, rfl, htype⟩
    exact ⟨project, hproject, a, ⟨ha, htype⟩, rfl⟩

/-- All projects of a desired state. -/
theorem convergeProjects_kept {proc : Nat} {granted : List String} {spec : DesiredState}
    (hspec : Generated spec) (hown : OwnFiles spec) {projects : List (String × ProjectSpec)}
    (hsub : projects ⊆ spec.projects) (hx : Kept (confidentialApps spec) x x) :
    wpOk audited (Kept (confidentialApps spec) x)
      (forEach projects (convergeProjectSpec proc granted))
      (fun _ y => SameLies (confidentialApps spec) x y ∧ ∀ p ∈ projects,
        ∀ c ∈ confidentialApps spec, c.project = p.1 → ¬ c.Lies x.1 → c.HoldsCurrent y.1) x := by
  induction projects generalizing x with
  | nil => exact wpOk_pure hx ⟨.refl x, by simp⟩
  | cons project projects ih =>
    have hmem : project ∈ spec.projects := hsub List.mem_cons_self
    refine kept_seq (convergeProjectSpec_kept hown (hspec.outputPaths project hmem)
      (mem_confidentialApps hspec hmem) (hspec.apps project hmem) hx) fun _ y hy hhead => ?_
    obtain ⟨hsame, hhead⟩ := hhead
    have htail := ih (fun p hp => hsub (List.mem_cons_of_mem _ hp)) hy.start
    refine wpOk_mono htail fun _ z hz htail => ⟨hsame.trans htail.1, ?_⟩
    intro p hp c hc hproject hnot
    rcases List.mem_cons.mp hp with rfl | hp
    · exact hz.held c hc (hhead c hc hproject hnot)
    · exact htail.2 p hp c hc hproject ((hsame c hc).not.mpr hnot)

end Projects

/-! ## A run -/

/-- A run of `configure` keeps every file honest wherever it is cut, regenerates nothing where
all files hold what they should, and leaves them so but for those that lied before. -/
theorem configure_kept {proc : Nat} {spec : DesiredState} {x : World × List Regenerated}
    (hspec : Generated spec) (hown : OwnFiles spec) (hx : Kept (confidentialApps spec) x x) :
    wpOk audited (Kept (confidentialApps spec) x) (configure proc spec)
      (fun _ y => SameLies (confidentialApps spec) x y ∧
        ∀ c ∈ confidentialApps spec, ¬ c.Lies x.1 → c.HoldsCurrent y.1) x := by
  refine kept_seq (kept_plain (only_convergeBasics spec) hx) fun _ y _ hsame => ?_
  subst hsame
  refine kept_seq (kept_plain (only_convergeOrgs _) hx) fun orgMap y _ hsame => ?_
  subst hsame
  refine kept_seq (kept_plain (only_convergeSettings spec) hx) fun _ y _ hsame => ?_
  subst hsame
  refine kept_seq (convergeProjects_kept hspec hown (List.Subset.refl _) hx) fun _ y hy hholds => ?_
  refine wpOk_mono (kept_plain (only_convergeActions _) hy.start) fun _ z _ hsame => ?_
  subst hsame
  refine ⟨hholds.1, fun c hc hnot => ?_⟩
  obtain ⟨p, hp, hin⟩ := List.mem_flatMap.mp hc
  obtain ⟨a, -, rfl⟩ := List.mem_map.mp hin
  exact hholds.2 p hp _ hc rfl hnot

/-! ## Any sequence of runs -/

/-- A run of `configure`, with the regenerated secrets and its result where it was not cut. -/
structure Rerun where
  proc : Nat
  log : List Regenerated
  result : Option (Except Failure Unit)

def rerunStep (H : Handler Op (World × List Regenerated)) (spec : DesiredState) (w : World)
    (r : Rerun) (w' : World) : Prop :=
  Run H (configure r.proc spec) (w, []) r.result (w', r.log)

/-- Every file holds the current id and secret of its app, and no run from here on regenerates
a secret. -/
def Settled (H : Handler Op (World × List Regenerated)) (spec : DesiredState) (w : World) : Prop :=
  (∀ c ∈ confidentialApps spec, c.HoldsCurrent w) ∧
    ∀ l w', Trace (rerunStep H spec) w l w' → ∀ e ∈ l, e.2.log = []

section Reruns

variable {spec : DesiredState} {w w' : World} {l : List (World × Rerun)}

/-- The apps of one file cannot both find their client id in it. -/
theorem ownFiles_of_holds (hsound : Sound w)
    (hholds : ∀ c ∈ confidentialApps spec, c.HoldsCurrent w) : OwnFiles spec := by
  intro c hc c' hc' hfile
  obtain ⟨id, hid, app, client, secret, happ, hclient, -, text, htext, hnamed, -⟩ := hholds c hc
  obtain ⟨id', hid', app', client', secret', happ', hclient', -, text', htext', hnamed', -⟩ :=
    hholds c' hc'
  obtain rfl : text = text' := by
    have htexts : some text = some text' := by
      rw [← htext, ← htext']
      exact congrArg w.files hfile
    exact Option.some.inj htexts
  obtain rfl : client = client' := Option.some.inj (hnamed.symm.trans hnamed')
  obtain ⟨hproject, hname⟩ := hsound.owner _ _ _ _ _ _ client happ happ' hclient hclient'
  obtain rfl : id = id' := Option.some.inj hproject
  have hsame := hsound.projectIds _ _ id hid hid'
  rcases c with ⟨project, name⟩
  rcases c' with ⟨project', name'⟩
  obtain rfl : project = project' := hsame
  obtain rfl : name = name' := hname
  rfl

theorem kept_of_rerun (hspec : Generated spec) (hown : OwnFiles spec) (hsound : Sound w)
    {r : Rerun} (h : rerunStep audited spec w r w') :
    Kept (confidentialApps spec) (w, []) (w', r.log) :=
  (configure_kept hspec hown (Kept.refl hsound)).1 _ h.toCut

theorem sound_of_rerun {r : Rerun} (hsound : Sound w) (h : rerunStep audited spec w r w') :
    Sound w' := by
  refine Run.keeps (J := fun x => Sound x.1) (fun e x b y hx hs => ?_) h hsound
  exact sound_step hx ⟨hs.1.1, hs.2⟩

/-- Where every app has a file of its own, the files stay honest over any runs. -/
theorem honest_of_reruns (hspec : Generated spec) (hown : OwnFiles spec)
    (h : Trace (rerunStep audited spec) w l w') (hsound : Sound w)
    (hhonest : ∀ c ∈ confidentialApps spec, c.Honest w) :
    ∀ c ∈ confidentialApps spec, c.Honest w' := by
  have hkeeps : Sound w' ∧ ∀ c ∈ confidentialApps spec, c.Honest w' := by
    refine h.keeps (J := fun w => Sound w ∧ ∀ c ∈ confidentialApps spec, c.Honest w)
      ⟨hsound, hhonest⟩ fun _ hu hstep => ?_
    have hkept := kept_of_rerun hspec hown hu.1 hstep
    exact ⟨hkept.sound, fun c hc => hkept.honest c hc (hu.2 c hc)⟩
  exact hkeeps.2

/-- From a state in which all files hold what they should, no run regenerates a secret. -/
theorem settled_of_holds (hspec : Generated spec) (hown : OwnFiles spec) (hsound : Sound w)
    (hholds : ∀ c ∈ confidentialApps spec, c.HoldsCurrent w) : Settled audited spec w := by
  refine ⟨hholds, fun l w' htrace => ?_⟩
  induction htrace with
  | nil => simp
  | cons first rest ih =>
    have hkept := kept_of_rerun hspec hown hsound first
    have hrest := ih hkept.sound fun c hc => hkept.held c hc (hholds c hc)
    intro e he
    rcases List.mem_cons.mp he with rfl | he
    · exact hkept.log hholds
    · exact hrest e he

/-- After a complete run, with any runs before it, everything is settled exactly where every
confidential app has a file of its own and none of the files lied before the run. With files of
their own, none lies before it where all were honest, or absent, before the first of the runs. -/
theorem rerun_rotates_nothing_iff {w₁ w₂ : World} {r : Rerun} (hspec : Generated spec)
    (hsound : Sound w) (hbefore : Trace (rerunStep audited spec) w l w₁)
    (hrun : rerunStep audited spec w₁ r w₂) (hcomplete : r.result = some (.ok ())) :
    (Settled audited spec w₂ ↔
      OwnFiles spec ∧ ∀ c ∈ confidentialApps spec, ¬ c.Lies w₁) ∧
    (OwnFiles spec → (∀ c ∈ confidentialApps spec, c.Honest w) →
      ∀ c ∈ confidentialApps spec, ¬ c.Lies w₁) := by
  have hsound₁ : Sound w₁ := hbefore.keeps hsound fun _ hu hstep => sound_of_rerun hu hstep
  have hsound₂ : Sound w₂ := sound_of_rerun hsound₁ hrun
  have hend : OwnFiles spec → SameLies (confidentialApps spec) (w₁, []) (w₂, r.log) ∧
      ∀ c ∈ confidentialApps spec, ¬ c.Lies w₁ → c.HoldsCurrent w₂ := by
    intro hown
    have hrun' : Run audited (configure r.proc spec) (w₁, []) (some (.ok ())) (w₂, r.log) := by
      rw [← hcomplete]
      exact hrun
    exact (configure_kept hspec hown (Kept.refl hsound₁)).2 _ _ hrun' () rfl
  refine ⟨⟨fun hsettled => ?_, fun ⟨hown, hnone⟩ => ?_⟩, fun hown hhonest c hc => ?_⟩
  · have hown := ownFiles_of_holds hsound₂ hsettled.1
    refine ⟨hown, fun c hc hlies => ?_⟩
    exact (hsettled.1 c hc).not_lies (((hend hown).1 c hc).mpr hlies)
  · exact settled_of_holds hspec hown hsound₂ fun c hc => (hend hown).2 c hc (hnone c hc)
  · exact (honest_of_reruns hspec hown hbefore hsound hhonest c hc).not_lies

end Reruns

/-! ## Two apps with one name -/

/-- Two projects with one confidential app each. -/
def twoProjects (first second : String) : DesiredState where
  adminOrg := "org"
  adminUsername := "admin"
  orgDomains := []
  policies := ⟨⟨false, false⟩, ⟨false, false⟩, false, false⟩
  projects := [
    ("one", { apps := [(first, {
      type := .confidential, outputPath := defaultOutputPath first .confidential })] }),
    ("two", { apps := [(second, {
      type := .confidential, outputPath := defaultOutputPath second .confidential })] })]

theorem twoProjects_generated (first second : String) : Generated (twoProjects first second) := by
  constructor <;> simp [twoProjects]

/-- Both apps are there already, and no file. -/
def twoApps (first second : String) : World :=
  worldOf [("one", "p1"), ("two", "p2")]
    [((some "p1", first), ⟨"a1", some "c1", some "s1"⟩),
      ((some "p2", second), ⟨"a2", some "c2", some "s2"⟩)]

theorem twoApps_honest (first second : String) (c : ConfidentialApp) :
    c.Honest (twoApps first second) := by
  constructor
  · rintro project id ⟨text, htext, -⟩
    cases htext
  · rintro id - ⟨app, i, -, -, text, htext, -⟩
    cases htext

/-- A run on scripted answers. -/
def scriptedRerun (proc : Nat) (spec : DesiredState) (w : World) :
    Option (Except Failure Unit) × World × List Regenerated :=
  (configure proc spec).exec (scripted fun _ => false) 120 (w, [])

theorem scriptedRerun_step (proc : Nat) (spec : DesiredState) (w : World) :
    rerunStep audited spec w
      ⟨proc, (scriptedRerun proc spec w).2.2, (scriptedRerun proc spec w).1⟩
      (scriptedRerun proc spec w).2.1 :=
  unrefused_run 120 (configure proc spec) (w, [])

/-- The world after the first run. -/
def afterFirst (first second : String) : World :=
  (scriptedRerun 7 (twoProjects first second) (twoApps first second)).2.1

/-- Two apps of different names are settled after the second run, which regenerates nothing any
more. -/
theorem rerun_rotates_nothing_iff_sample : Settled audited (twoProjects "web" "mail")
    (scriptedRerun 8 (twoProjects "web" "mail") (afterFirst "web" "mail")).2.1 := by
  have hsound : Sound (twoApps "web" "mail") :=
    sound_worldOf (by decide) (by decide) (by decide) (by decide)
  have hown : OwnFiles (twoProjects "web" "mail") := by decide +kernel
  obtain ⟨hsettled, hnone⟩ := rerun_rotates_nothing_iff (twoProjects_generated "web" "mail") hsound
    (.cons (scriptedRerun_step 7 _ _) (.nil _)) (scriptedRerun_step 8 _ _) (by decide +kernel)
  exact hsettled.mpr ⟨hown, hnone hown fun c _ => twoApps_honest "web" "mail" c⟩

/-- Two projects with an app of the same name share its file, and the next run regenerates
both secrets. -/
theorem shared_file_rotates : ¬ ∀ (spec : DesiredState) (w w₁ w₂ : World)
    (l : List (World × Rerun)) (r : Rerun), Generated spec → Sound w →
    (∀ c ∈ confidentialApps spec, c.Honest w) → Trace (rerunStep audited spec) w l w₁ →
    rerunStep audited spec w₁ r w₂ → r.result = some (.ok ()) → Settled audited spec w₂ := by
  intro h
  have hsettled := h _ _ _ _ [] _ (twoProjects_generated "web" "web")
    (sound_worldOf (by decide) (by decide) (by decide) (by decide))
    (fun c _ => twoApps_honest "web" "web" c) (.nil _) (scriptedRerun_step 7 _ _)
    (by decide +kernel)
  have hagain := scriptedRerun_step 8 (twoProjects "web" "web") (afterFirst "web" "web")
  have hnone := hsettled.2 _ _ (.cons hagain (.nil _)) _ List.mem_cons_self
  have hboth : (scriptedRerun 8 (twoProjects "web" "web") (afterFirst "web" "web")).2.2 =
      [⟨some "p1", "a1"⟩, ⟨some "p2", "a2"⟩] := by decide +kernel
  rw [hboth] at hnone
  cases hnone

end Foundrix.ZitadelConfigure

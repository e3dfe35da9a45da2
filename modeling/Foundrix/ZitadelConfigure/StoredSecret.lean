import Foundrix.Machine.Trace
import Foundrix.ZitadelConfigure.Scripted

/-!
# The stored client secret

Zitadel does not show a client secret again, so that the file of a confidential app is
right is a relation between the file and what only Zitadel knows.

* `Slot.Honest`, `Slot.Lies`: the file does not claim a secret that is not accepted, or it does.
* `writeCredentialFile_spec`, `existingCredentials_spec`, `newCredentials_spec`: one lemma
  for each function, at every point where it may be cut.
* `stored_secret_true`: the file never lies, over any runs of `convergeConfidentialApp`.
-/

namespace Foundrix.ZitadelConfigure

open Text Effect Machine

/-! ## What is stored -/

/-- The app with a name in a project, and the path of its credentials. -/
structure Slot where
  project : Option String
  name : String
  path : String
deriving DecidableEq, Repr

namespace Slot

def app (s : Slot) (w : World) : Option ServerApp := w.apps s.project s.name

/-- The file names a client id. -/
def Names (s : Slot) (w : World) (id : String) : Prop :=
  ∃ text, w.files (locate s.path) = some text ∧ storedVars text "CLIENT_ID" = some id

/-- The file holds a client id and a secret. -/
def Holds (s : Slot) (w : World) (id secret : String) : Prop :=
  ∃ text, w.files (locate s.path) = some text ∧ storedVars text "CLIENT_ID" = some id ∧
    storedVars text "CLIENT_SECRET" = some secret

/-- The file names the client id that the app has now. -/
def NamesCurrent (s : Slot) (w : World) : Prop :=
  ∃ app id, s.app w = some app ∧ app.clientId = some id ∧ s.Names w id

/-- The file holds the client id that the app has now and the secret accepted for it. -/
def HoldsCurrent (s : Slot) (w : World) : Prop :=
  ∃ app id secret, s.app w = some app ∧ app.clientId = some id ∧ app.secret = some secret ∧
    s.Holds w id secret

/-- The file names no id that was never given out, and claims no secret that is not accepted. -/
structure Honest (s : Slot) (w : World) : Prop where
  issued : ∀ id, s.Names w id → id ∈ w.issued
  truthful : s.NamesCurrent w → s.HoldsCurrent w

/-- The file names the client id that the app has now beside a secret that is not accepted. -/
def Lies (s : Slot) (w : World) : Prop :=
  ∃ app id stored, s.app w = some app ∧ app.clientId = some id ∧
    (w.files (locate s.path)).bind (secretFor · id) = some stored ∧ app.secret ≠ some stored

end Slot

/-! ## Reading what was written -/

theorem storedVars_credentialText {id secret : String} (hid : Clean id) (hsecret : Clean secret) :
    storedVars (credentialText (some id) (some secret)) "CLIENT_ID" = some id ∧
      storedVars (credentialText (some id) (some secret)) "CLIENT_SECRET" = some secret := by
  have hnotMem : ∀ {key v : String}, '\n' ∉ key.toList → Clean v →
      '\n' ∉ (key ++ "=" ++ v).toList := by
    intro key v hkey hv
    simp only [String.toList_append, List.mem_append, not_or]
    exact ⟨⟨hkey, by decide⟩, hv.2.1⟩
  have hlines : split (credentialText (some id) (some secret)) '\n' =
      ["CLIENT_ID" ++ "=" ++ id, "CLIENT_SECRET" ++ "=" ++ secret, ""] := by
    have htext : (credentialText (some id) (some secret)).toList =
        ("CLIENT_ID" ++ "=" ++ id).toList ++ '\n' ::
          (("CLIENT_SECRET" ++ "=" ++ secret).toList ++ '\n' :: []) := by
      have hid : "CLIENT_ID=" = "CLIENT_ID" ++ "=" := by decide
      have hsecret : "CLIENT_SECRET=" = "CLIENT_SECRET" ++ "=" := by decide
      show ("CLIENT_ID=" ++ id ++ "\n" ++ ("CLIENT_SECRET=" ++ secret ++ "\n" ++ "")).toList = _
      rw [hid, hsecret]
      simp only [String.toList_append, List.append_assoc]
      rfl
    rw [split, htext, splitFrom_block (hnotMem (by decide) hid),
      splitFrom_block (hnotMem (by decide) hsecret), splitFrom]
    simp only [List.reverse_nil, List.nil_append, List.map_cons, List.map_nil,
      String.ofList_toList, String.ofList_nil]
  have hfields : ∀ (key : String) {v : String}, '=' ∉ key.toList →
      splitOnce (key ++ "=" ++ v) '=' = some (key, v) :=
    fun key v hkey => splitOnce_of_notMem hkey (by simp)
  have htrim : ∀ {v : String}, Clean v → jsTrim v = v := fun hv => jsTrim_of_ends hv.2.2.1 hv.2.2.2
  have hvars : storedVars (credentialText (some id) (some secret)) = fun k =>
      if k = "CLIENT_SECRET" then some secret else if k = "CLIENT_ID" then some id else none := by
    have hkey : jsTrim "CLIENT_ID" = "CLIENT_ID" ∧ jsTrim "CLIENT_SECRET" = "CLIENT_SECRET" := by
      decide
    have hempty : splitOnce "" '=' = none := by decide
    rw [storedVars, hlines]
    simp only [List.foldl_cons, List.foldl_nil, hfields "CLIENT_ID" (by decide),
      hfields "CLIENT_SECRET" (by decide), hempty, htrim hid, htrim hsecret, hkey]
    rfl
  rw [hvars]
  exact ⟨rfl, rfl⟩

/-- What is trimmed has no outer white space. -/
theorem clean_jsTrim {v : String} (hline : '\n' ∉ v.toList) (hne : jsTrim v ≠ "") :
    Clean (jsTrim v) := by
  have htext : (jsTrim v).toList = (v.toList.dropWhile jsWhitespace).rdropWhile jsWhitespace :=
    String.toList_ofList
  have hpre := List.rdropWhile_prefix jsWhitespace (v.toList.dropWhile jsWhitespace)
  have hcons : (jsTrim v).toList ≠ [] := fun hnil => hne (String.toList_eq_nil_iff.mp hnil)
  refine ⟨hne, fun hmem => hline ?_, fun c hc => ?_, fun c hc => ?_⟩
  · rw [htext] at hmem
    exact (List.dropWhile_suffix _).subset (hpre.subset hmem)
  · rw [htext] at hc hcons
    have hhead : (v.toList.dropWhile jsWhitespace).head? = some c := by
      obtain ⟨rest, hrest⟩ := hpre
      rw [← hrest, List.head?_append, hc]
      rfl
    have hnot := List.head?_dropWhile_not jsWhitespace v.toList
    rw [hhead] at hnot
    simpa using hnot
  · rw [htext] at hc hcons
    have hnot := List.rdropWhile_last_not jsWhitespace _ hcons
    rw [List.getLast?_eq_some_getLast hcons] at hc
    rw [Option.some.inj hc] at hnot
    simpa using hnot

/-- What is read from a file is clean, if anything. -/
theorem clean_of_storedVars {text key v : String} (h : storedVars text key = some v)
    (hne : v ≠ "") : Clean v := by
  have hall : ∀ k v, storedVars text k = some v → v ≠ "" → Clean v := by
    unfold storedVars
    refine List.foldlRecOn
      (motive := fun vars : String → Option String => ∀ k v, vars k = some v → v ≠ "" → Clean v)
      _ _ (fun _ _ hv => by cases hv) fun vars hvars line hline k v hv hne => ?_
    cases hsplit : splitOnce line '=' with
    | none =>
      simp only [hsplit] at hv
      exact hvars k v hv hne
    | some kv =>
      obtain ⟨key, value⟩ := kv
      have hbreak : '\n' ∉ value.toList := by
        intro hmem
        apply mem_split hline
        rw [splitOnce_some hsplit]
        exact List.mem_append_right _ (List.mem_cons_of_mem _ hmem)
      simp only [hsplit] at hv
      split at hv
      · exact hvars k v hv hne
      · dsimp only at hv
        split at hv
        · obtain rfl := Option.some.inj hv
          exact clean_jsTrim hbreak hne
        · exact hvars k v hv hne
  exact hall key v h hne

/-! ## Steps of a run -/

section Steps

variable {x y : World × List Regenerated}

theorem audited_deno {β : Type} {f : Deno β} {r : β} :
    audited.step (.inr f) x r y ↔ denoStep f x.1 r y.1 ∧ y.2 = x.2 := by
  show ((denoStep f x.1 r y.1 ∧ ¬ Swallowed (.inr f) r) ∧
    y.2 = x.2 ++ (regenerated (.inr f) x.1 r).toList) ↔ _
  simp [Swallowed, regenerated]

/-- A function of Deno, by what it does. -/
theorem deno_spec {α : Type} {f : Deno (Except Failure α)} {I : World × List Regenerated → Prop}
    {Q : α → World × List Regenerated → Prop} (hI : I x)
    (h : ∀ r y, denoStep f x.1 r y.1 → y.2 = x.2 → I y)
    (hQ : ∀ a y, denoStep f x.1 (.ok a) y.1 → y.2 = x.2 → Q a y) :
    wpOk audited I (deno f) Q x := by
  refine wp_step hI fun r y hs => ?_
  obtain ⟨hstep, hlog⟩ := audited_deno.mp hs
  apply wp_orFail (h r y hstep hlog)
  rintro a rfl
  exact hQ a y hstep hlog

theorem audited_api {β : Type} {c : Api β} {b : β} :
    audited.step (.inl c) x b y ↔ (apiStep c x.1 b y.1 ∧ ¬ Swallowed (.inl c) b) ∧
      y.2 = x.2 ++ (regenerated (.inl c) x.1 b).toList := Iff.rfl

/-- A search tells nothing that is not there. -/
theorem searchApps_spec {I : World × List Regenerated → Prop} (hI : I x)
    (project : Option String) (name : String) :
    wpOk audited I (request (.searchApps project name)) (fun found y => y = x ∧
      ∀ a ∈ found, ∃ app, x.1.apps project name = some app ∧ a = app.shown) x := by
  have hsame : ∀ b y, audited.step (.inl (.searchApps project name)) x b y → y = x := by
    intro b y hs
    obtain ⟨⟨⟨hworld, -⟩, -⟩, hlog⟩ := audited_api.mp hs
    exact Prod.ext hworld (by simpa [regenerated] using hlog)
  refine request_spec hI (fun b y hs => hsame b y hs ▸ hI) fun b a y hs hb => ?_
  refine ⟨hsame b y hs, ?_⟩
  rcases hb with rfl | ⟨-, hempty⟩
  · exact (audited_api.mp hs).1.1.2 a rfl
  · cases hempty
    simp

end Steps

/-! ## Writing the file -/

/-- What writing a credential file changes, wherever it is cut. -/
structure Wrote (proc : Nat) (path contents : String) (x y : World × List Regenerated) : Prop where
  log : y.2 = x.2
  world : y.1 = { x.1 with files := y.1.files }
  others : ∀ l, l ≠ locate path → l ≠ locate (tmpPath proc path) → y.1.files l = x.1.files l
  file : y.1.files (locate path) = x.1.files (locate path) ∨
    y.1.files (locate path) = some contents

theorem isDigit_of_mem_toString {n : Nat} {c : Char} (h : c ∈ (toString n).toList) :
    c.isDigit = true := by
  rw [Nat.toString_eq_repr, Nat.toList_repr] at h
  exact Nat.isDigit_of_mem_toDigits (by omega) (by omega) h

theorem slash_notMem_tmp (proc : Nat) : '/' ∉ (".tmp." ++ toString proc).toList := by
  rw [String.toList_append, List.mem_append, not_or]
  constructor
  · decide
  · intro h
    exact absurd (isDigit_of_mem_toString h) (by decide)

theorem locate_tmpPath_ne (proc : Nat) (path : String) :
    locate (tmpPath proc path) ≠ locate path := by
  have htmp : tmpPath proc path = path ++ (".tmp." ++ toString proc) := by
    show path ++ ".tmp." ++ toString proc = _
    rw [String.append_assoc]
  rw [htmp]
  apply locate_append_ne
  · exact slash_notMem_tmp proc
  · rw [String.toList_append, List.length_append]
    have : (".tmp.").toList.length = 5 := by decide
    omega

section Writing

variable {proc : Nat} {path contents : String} {x y : World × List Regenerated}

theorem Wrote.refl (proc : Nat) (path contents : String) (x : World × List Regenerated) :
    Wrote proc path contents x x := ⟨rfl, rfl, fun _ _ _ => rfl, Or.inl rfl⟩

/-- Whatever becomes of the temporary file. -/
theorem Wrote.setTmp (h : Wrote proc path contents x y) (text : Option String)
    {z : World × List Regenerated} (hz : z.1 = y.1.setFile (locate (tmpPath proc path)) text)
    (hlog : z.2 = y.2) : Wrote proc path contents x z := by
  have hne := locate_tmpPath_ne proc path
  refine ⟨hlog.trans h.log, ?_, ?_, ?_⟩
  · rw [hz, World.setFile, h.world]
  · intro l hl htmp
    rw [hz, World.setFile_other _ _ htmp]
    exact h.others l hl htmp
  · rw [hz, World.setFile_other _ _ hne.symm]
    exact h.file

theorem Wrote.same (h : Wrote proc path contents x y) {z : World × List Regenerated}
    (hz : z.1 = y.1) (hlog : z.2 = y.2) : Wrote proc path contents x z := by
  obtain ⟨w, l⟩ := z
  obtain ⟨rfl, rfl⟩ : w = y.1 ∧ l = y.2 := ⟨hz, hlog⟩
  exact h

/-- The temporary file takes the place of the old one. -/
theorem Wrote.renamed (h : Wrote proc path contents x y) {z : World × List Regenerated}
    (hz : z.1 = (y.1.setFile (locate (tmpPath proc path)) none).setFile (locate path)
      (some contents)) (hlog : z.2 = y.2) : Wrote proc path contents x z := by
  refine ⟨hlog.trans h.log, ?_, ?_, ?_⟩
  · rw [hz, World.setFile, World.setFile, h.world]
  · intro l hl htmp
    rw [hz, World.setFile_other _ _ hl, World.setFile_other _ _ htmp]
    exact h.others l hl htmp
  · rw [hz, World.setFile_same]
    exact Or.inr rfl

/-- After the file was written it has the new contents; before that, the old ones. -/
theorem writeCredentialFile_spec (proc : Nat) (path contents : String)
    (x : World × List Regenerated) :
    wpOk audited (Wrote proc path contents x) (writeCredentialFile proc path contents)
      (fun _ y => y.1.files (locate path) = some contents) x := by
  have hne := locate_tmpPath_ne proc path
  have hdir : wpOk audited (Wrote proc path contents x) (ensureParentDir path)
      (fun _ _ => True) x := by
    unfold ensureParentDir
    cases parentDir path with
    | none => exact wpOk_pure (.refl _ _ _ _) trivial
    | some dir =>
      exact deno_spec (.refl _ _ _ _) (fun r y hs hlog => (Wrote.refl _ _ _ _).same hs hlog)
        fun _ _ _ _ => trivial
  refine wpOk_seq hdir fun _ y hy _ => ?_
  have hopen : wpOk audited (Wrote proc path contents x) (deno (.openNew (tmpPath proc path)))
      (fun _ _ => True) y := by
    refine deno_spec hy (fun r z hs hlog => ?_) fun _ _ _ _ => trivial
    cases r with
    | ok u => exact hy.setTmp _ hs.2 hlog
    | error e => exact hy.same hs hlog
  refine wpOk_seq hopen fun _ y hy _ => ?_
  have hstore : ∀ y, Wrote proc path contents x y → wpOk audited (Wrote proc path contents x)
      (do let _ ← deno (.write (tmpPath proc path) (utf8 contents))
          deno (.sync (tmpPath proc path)))
      (fun _ z => z.1.files (locate (tmpPath proc path)) = some contents) y := by
    intro y hy
    refine wpOk_seq (deno_spec (Q := fun _ z =>
      z.1.files (locate (tmpPath proc path)) = some contents) hy ?_ ?_) fun _ z hz hfile => ?_
    · intro r z hs hlog
      cases r with
      | ok n =>
        obtain ⟨-, text, -, hset⟩ := hs
        exact hy.setTmp _ hset hlog
      | error e =>
        obtain ⟨text, hset⟩ := hs
        exact hy.setTmp _ hset hlog
    · intro n z hs hlog
      obtain ⟨-, text, htext, hset⟩ := hs
      rw [hset, World.setFile_same, utf8_inj htext]
    · refine deno_spec hz (fun r v hs hlog => hz.same hs hlog) fun _ v hs _ => ?_
      have hv : v.1 = z.1 := hs
      rw [hv]
      exact hfile
  refine wpOk_seq (wpOk_attempt (hstore y hy)) fun stored y hy hfile => ?_
  have hclose : wpOk audited (Wrote proc path contents x) (deno (.close (tmpPath proc path)))
      (fun _ z => z.1 = y.1) y :=
    deno_spec hy (fun r z hs hlog => hy.same hs hlog) fun _ z hs _ => hs
  refine wpOk_seq hclose fun _ z hz hworld => ?_
  cases stored with
  | error e => exact wpOk_fail hz
  | ok u =>
    have htmp : z.1.files (locate (tmpPath proc path)) = some contents := by
      rw [hworld]
      exact hfile u rfl
    have hrename : wpOk audited (Wrote proc path contents x)
        (deno (.rename (tmpPath proc path) path))
        (fun _ v => v.1.files (locate path) = some contents) z := by
      refine deno_spec hz (fun r v hs hlog => ?_) fun _ v hs hlog => ?_
      · cases r with
        | error e => exact hz.same hs hlog
        | ok u =>
          obtain ⟨text, htext, hset⟩ := hs
          obtain rfl : contents = text := Option.some.inj (htmp.symm.trans htext)
          exact hz.renamed hset hlog
      · obtain ⟨text, htext, hset⟩ := hs
        obtain rfl : contents = text := Option.some.inj (htmp.symm.trans htext)
        rw [hset, World.setFile_same]
    change wpOk audited _ ((deno (.rename (tmpPath proc path) path)).attempt.bind _) _ z
    refine wpOk_seq (wpOk_attempt hrename) fun renamed v hv hfile => ?_
    cases renamed with
    | ok u => exact wpOk_pure hv (hfile u rfl)
    | error e =>
      have hremove : wpOk audited (Wrote proc path contents x)
          (deno (.remove (tmpPath proc path))) (fun _ _ => True) v := by
        refine deno_spec hv (fun r u hs hlog => ?_) fun _ _ _ _ => trivial
        rcases hs with hs | hs
        · exact hv.same hs hlog
        · exact hv.setTmp _ hs hlog
      exact wpOk_seq (wpOk_attempt hremove) fun _ u hu _ => wpOk_fail hu

end Writing

/-! ## Converging an app -/

section Converging

variable {proc : Nat} {s : Slot} {x y z : World × List Regenerated}

/-- What converging an app changes, wherever it is cut. -/
structure Within (proc : Nat) (s : Slot) (x y : World × List Regenerated) : Prop where
  sound : Sound y.1
  honest : s.Honest x.1 → s.Honest y.1
  projects : y.1.projects = x.1.projects
  apps : ∀ p n, ¬ (p = s.project ∧ n = s.name) → y.1.apps p n = x.1.apps p n
  files : ∀ l, l ≠ locate s.path → l ≠ locate (tmpPath proc s.path) → y.1.files l = x.1.files l
  issued : x.1.issued ⊆ y.1.issued
  /-- A file that holds what it should goes on holding it, and no secret is regenerated. -/
  held : s.HoldsCurrent x.1 → s.HoldsCurrent y.1 ∧ y.2 = x.2

theorem Within.refl (hsound : Sound x.1) : Within proc s x x :=
  ⟨hsound, fun h => h, rfl, fun _ _ _ => rfl, fun _ _ _ => rfl, fun _ h => h, fun h => ⟨h, rfl⟩⟩

/-- A file that holds what it should is honest. -/
theorem Slot.HoldsCurrent.honest {w : World} (hsound : Sound w) (h : s.HoldsCurrent w) :
    s.Honest w := by
  refine ⟨?_, fun _ => h⟩
  obtain ⟨app, id, secret, happ, hid, -, text, htext, hnamed, -⟩ := h
  rintro id' ⟨text', htext', hnamed'⟩
  obtain rfl : text = text' := Option.some.inj (htext.symm.trans htext')
  obtain rfl : id = id' := Option.some.inj (hnamed.symm.trans hnamed')
  exact hsound.issued _ _ _ _ happ hid

theorem secretFor_eq {text id stored : String} : secretFor text id = some stored ↔
    storedVars text "CLIENT_ID" = some id ∧ storedVars text "CLIENT_SECRET" = some stored ∧
      stored ≠ "" := by
  unfold secretFor
  split
  · rename_i hnamed
    simp [hnamed, Option.filter_eq_some_iff]
  · rename_i hnamed
    simp [hnamed]

/-- A file that holds what it should does not lie. -/
theorem Slot.HoldsCurrent.not_lies {w : World} (h : s.HoldsCurrent w) : ¬ s.Lies w := by
  obtain ⟨app, id, secret, happ, -, hsecret, text, htext, -, hheld⟩ := h
  rintro ⟨app', id', stored, happ', -, hstored, hwrong⟩
  obtain rfl : app = app' := Option.some.inj (happ.symm.trans happ')
  rw [htext, Option.bind_some] at hstored
  have hsame : storedVars text "CLIENT_SECRET" = some stored := (secretFor_eq.mp hstored).2.1
  rw [hsame] at hheld
  exact hwrong (hsecret.trans hheld.symm)

theorem Slot.Honest.not_lies {w : World} (h : s.Honest w) : ¬ s.Lies w := by
  intro hlies
  refine (h.truthful ?_).not_lies hlies
  obtain ⟨app, id, stored, happ, hid, hstored, -⟩ := hlies
  obtain ⟨text, htext, hsecret⟩ := Option.bind_eq_some_iff.mp hstored
  exact ⟨app, id, happ, hid, text, htext, (secretFor_eq.mp hsecret).1⟩

theorem Slot.Lies.congr {w w' : World} (h : s.Lies w) (happ : s.app w' = s.app w)
    (hfile : w'.files (locate s.path) = w.files (locate s.path)) : s.Lies w' := by
  obtain ⟨app, id, stored, happ', hid, hstored, hwrong⟩ := h
  exact ⟨app, id, stored, happ.trans happ', hid, hfile ▸ hstored, hwrong⟩

theorem Slot.HoldsCurrent.namesCurrent {w : World} (h : s.HoldsCurrent w) : s.NamesCurrent w := by
  obtain ⟨app, id, secret, happ, hid, -, text, htext, hnamed, -⟩ := h
  exact ⟨app, id, happ, hid, text, htext, hnamed⟩

/-- A file in which the secret of the current id is not found does not name the id. -/
theorem not_namesCurrent {w : World} (hsound : Sound w) (hhonest : s.Honest w) {app : ServerApp}
    {id : String} (happ : s.app w = some app) (hid : app.clientId = some id)
    (hnone : ∀ text, w.files (locate s.path) = some text → secretFor text id = none) :
    ¬ s.NamesCurrent w := by
  intro hnames
  obtain ⟨app', id', secret, happ', hid', hsecret, text, htext, hnamed, hstored⟩ :=
    hhonest.truthful hnames
  obtain rfl : app = app' := Option.some.inj (happ.symm.trans happ')
  obtain rfl : id = id' := Option.some.inj (hid.symm.trans hid')
  have hclean := hsound.secrets _ _ _ _ happ hsecret
  have hfound := hnone text htext
  rw [secretFor, if_pos hnamed, hstored] at hfound
  simp [hclean.1] at hfound

/-- The credentials are those that Zitadel accepts now. -/
def Current (s : Slot) (w : World) (creds : AppCredentials) : Prop :=
  ∃ app id secret, s.app w = some app ∧ app.clientId = some id ∧ app.secret = some secret ∧
    creds = ⟨some id, some secret⟩

/-- The credentials have a secret that is not accepted. -/
def Wrong (s : Slot) (w : World) (creds : AppCredentials) : Prop :=
  ∃ app id stored, s.app w = some app ∧ app.clientId = some id ∧ app.secret ≠ some stored ∧
    Clean stored ∧ creds = ⟨some id, some stored⟩

/-- The credentials that converging an app finds or makes. -/
structure Given (s : Slot) (x y : World × List Regenerated) (creds : AppCredentials) : Prop where
  current : ¬ s.Lies x.1 → Current s y.1 creds
  wrong : s.Lies x.1 → Wrong s y.1 creds

/-- A new secret for an app for whose id none is stored. -/
theorem regenerate_within (hsound : Sound x.1) {app : ServerApp} {id : String}
    (happ : s.app x.1 = some app) (hid : app.clientId = some id)
    (hnone : ∀ text, x.1.files (locate s.path) = some text → secretFor text id = none)
    {answer : Answer (Option String)}
    (hs : audited.step (.inl (.regenerateClientSecret s.project app.id)) x answer y) :
    Within proc s x y := by
  have hheld : ¬ s.HoldsCurrent x.1 := by
    intro h
    exact not_namesCurrent hsound (h.honest hsound) happ hid hnone h.namesCurrent
  rcases (apiStep_regenerate (audited_api.mp hs).1.1).1 with hworld | ⟨secret, hclean, hworld⟩
  · have hsame : Within proc s x (x.1, y.2) :=
      ⟨hsound, fun h => h, rfl, fun _ _ _ => rfl, fun _ _ _ => rfl, fun _ h => h,
        fun h => absurd h hheld⟩
    rw [← hworld] at hsame
    exact hsame
  · have hsound' : Sound y.1 := hworld ▸ hsound.setSecret hclean
    have hothers : ∀ p n, ¬ (p = s.project ∧ n = s.name) → y.1.apps p n = x.1.apps p n := by
      intro p n hslot
      rw [hworld]
      by_cases hp : p = s.project
      · subst hp
        simp only [World.setSecret, if_true]
        cases hother : x.1.apps s.project n with
        | none => rfl
        | some other =>
          have hid : other.id ≠ app.id := fun hid =>
            hslot ⟨rfl, hsound.appIds _ _ _ _ _ hother happ hid⟩
          simp [hid]
      · simp only [World.setSecret, if_neg hp]
    refine ⟨hsound', fun hhonest => ⟨?_, ?_⟩, by rw [hworld]; rfl, hothers, ?_, ?_,
      fun h => absurd h hheld⟩
    · intro id hnames
      rw [hworld] at hnames ⊢
      exact hhonest.issued id hnames
    · rintro ⟨app', id, happ', hid, hnames⟩
      rw [hworld] at happ' hnames
      obtain ⟨old, hold, -, hsame, -⟩ := setSecret_apps_cases happ'
      exact absurd ⟨old, _, hold, hsame ▸ hid, hnames⟩
        (not_namesCurrent hsound hhonest happ ‹_› hnone)
    · intro l _ _
      rw [hworld]
      rfl
    · rw [hworld]
      exact fun _ h => h

/-- A new app, whose id the file cannot name. -/
theorem created_within (hsound : Sound x.1) {config : OidcConfig}
    {answer : Answer AppCredentials}
    (hs : audited.step (.inl (.createOIDCApp s.project s.name config)) x answer y) :
    Within proc s x y := by
  obtain ⟨⟨hstep, -⟩, hlog⟩ := audited_api.mp hs
  have hlog : y.2 = x.2 := by simpa [regenerated] using hlog
  rcases (apiStep_createOIDCApp hstep).1 with hworld | ⟨app, hcreated⟩
  · obtain rfl : y = x := Prod.ext hworld hlog
    exact Within.refl hsound
  · have hsound' : Sound y.1 := hsound.created hcreated
    obtain ⟨hfree, hfresh, -, -, hworld⟩ := hcreated
    have hfiles : y.1.files = x.1.files := by
      rw [hworld]
      rfl
    have happ : s.app y.1 = some app := by
      rw [hworld]
      exact if_pos ⟨rfl, rfl⟩
    refine ⟨hsound', fun hhonest => ⟨?_, ?_⟩, by rw [hworld]; rfl, ?_,
      fun l _ _ => by rw [hfiles], ?_, ?_⟩
    · intro id' hnames
      rw [hworld]
      exact List.mem_append_right _ (hhonest.issued id' (by rwa [Slot.Names, ← hfiles]))
    · rintro ⟨app', id', happ', hid', hnames⟩
      obtain rfl : app = app' := Option.some.inj (happ.symm.trans happ')
      exact absurd (hhonest.issued id' (by rwa [Slot.Names, ← hfiles])) (hfresh id' hid').1
    · intro p n hslot
      rw [hworld]
      exact if_neg hslot
    · rw [hworld]
      exact List.subset_append_right _ _
    · rintro ⟨app', id', secret, happ', -⟩
      rw [Slot.app, hfree] at happ'
      cases happ'

/-- The secret that is stored, where the file names the id. -/
theorem readStoredClientSecret_spec {I : World × List Regenerated → Prop} (hI : I x)
    (path id : String) :
    wpOk audited I (readStoredClientSecret path id)
      (fun r y => y = x ∧ r = (x.1.files (locate path)).bind (secretFor · id)) x := by
  have hread : wp audited I (deno (.readTextFile path)) (fun r y => y = x ∧
      (∀ text, r = .ok text → x.1.files (locate path) = some text) ∧
      ∀ e, r = .error e → e.notFound = true → x.1.files (locate path) = none) x := by
    refine wp_step hI fun r y hs => ?_
    obtain ⟨⟨hworld, hr⟩, hlog⟩ := audited_deno.mp hs
    obtain rfl : y = x := Prod.ext hworld hlog
    refine wp_orFail hI ⟨rfl, ?_, ?_⟩
    · rintro text rfl
      exact hr
    · rintro e rfl
      exact hr
  refine wpOk_seq (wpOk_attempt hread) fun r y hy hr => ?_
  obtain ⟨rfl, htext, hnone⟩ := hr
  cases r with
  | ok text => exact wpOk_pure hy ⟨rfl, by rw [htext text rfl, Option.bind_some]⟩
  | error e =>
    dsimp only
    by_cases hfound : e.notFound = true
    · rw [if_pos hfound]
      exact wpOk_pure hy ⟨rfl, by rw [hnone e rfl hfound, Option.bind_none]⟩
    · rw [if_neg hfound]
      exact wpOk_fail hy

/-- The secret that is stored is the one that is accepted, or the file lies. -/
theorem given_of_stored {app : ServerApp} {id stored : String} (happ : s.app x.1 = some app)
    (hid : app.clientId = some id)
    (hstored : (x.1.files (locate s.path)).bind (secretFor · id) = some stored) :
    Given s x x ⟨some id, some stored⟩ where
  current := by
    intro hnot
    have haccepted : app.secret = some stored := by
      by_contra hwrong
      exact hnot ⟨app, id, stored, happ, hid, hstored, hwrong⟩
    exact ⟨app, id, stored, happ, hid, haccepted, rfl⟩
  wrong := by
    rintro ⟨app', id', stored', happ', hid', hstored', hwrong⟩
    obtain rfl : app = app' := Option.some.inj (happ.symm.trans happ')
    obtain rfl : id = id' := Option.some.inj (hid.symm.trans hid')
    obtain rfl : stored = stored' := Option.some.inj (hstored.symm.trans hstored')
    obtain ⟨text, -, hsecret⟩ := Option.bind_eq_some_iff.mp hstored
    obtain ⟨-, hvar, hne⟩ := secretFor_eq.mp hsecret
    exact ⟨app, id, stored, happ, hid, hwrong, clean_of_storedVars hvar hne, rfl⟩

/-- An app that was found: its stored secret, or a new one. -/
theorem existingCredentials_spec (hsound : Sound x.1) {spec : AppSpec}
    (hpath : spec.outputPath = s.path) {app : ServerApp} (happ : s.app x.1 = some app) :
    wpOk audited (Within proc s x) (existingCredentials s.project spec app.shown)
      (fun r y => Given s x y r.1) x := by
  have hrefl : Within proc s x x := Within.refl hsound
  unfold existingCredentials
  cases hid : app.clientId with
  | none =>
    simp only [ServerApp.shown, hid]
    exact wpOk_fail hrefl
  | some id =>
    simp only [ServerApp.shown, hid]
    change wpOk audited _ ((readStoredClientSecret spec.outputPath id).bind _) _ x
    refine wpOk_seq (readStoredClientSecret_spec hrefl _ id) fun stored y hy hread => ?_
    obtain ⟨rfl, hstored⟩ := hread
    rw [hpath] at hstored
    cases stored with
    | some secret => exact wpOk_pure hy (given_of_stored happ hid hstored.symm)
    | none =>
      have hnone : ∀ text, y.1.files (locate s.path) = some text → secretFor text id = none := by
        intro text htext
        simpa [htext] using hstored.symm
      have hnot : ¬ s.Lies y.1 := by
        rintro ⟨app', id', stored, happ', hid', hlies, -⟩
        obtain rfl : app = app' := Option.some.inj (happ.symm.trans happ')
        obtain rfl : id = id' := Option.some.inj (hid.symm.trans hid')
        cases hstored.trans hlies
      have hregenerate : wpOk audited (Within proc s y)
          (request (.regenerateClientSecret s.project app.id))
          (fun secret z => Current s z.1 ⟨some id, secret⟩) y := by
        refine request_spec hy (fun b z hs => regenerate_within hsound happ hid hnone hs) ?_
        intro b secret z hs hb
        rcases hb with rfl | ⟨hpre, -⟩
        · obtain ⟨accepted, rfl, -, hworld⟩ := (apiStep_regenerate (audited_api.mp hs).1.1).2 _ rfl
          refine ⟨{ app with secret := some accepted }, id, accepted, ?_, hid, rfl, rfl⟩
          have happ : y.1.apps s.project s.name = some app := happ
          rw [Slot.app, hworld, World.setSecret]
          simp [happ]
        · exact absurd hpre (audited_api.mp hs).1.2
      exact wpOk_seq hregenerate fun secret z hz hcurrent =>
        wpOk_pure hz ⟨fun _ => hcurrent, fun hlies => absurd hlies hnot⟩

/-- A new app, with the secret from the answer. -/
theorem newCredentials_spec (hsound : Sound x.1) (spec : AppSpec) :
    wpOk audited (Within proc s x) (newCredentials s.project s.name spec)
      (fun r y => Given s x y r.1) x := by
  have hrefl : Within proc s x x := Within.refl hsound
  unfold newCredentials
  have htypes : wpOk audited (Within proc s x) (Prog.orFail (zitadelGrantTypes spec.grantTypes))
      (fun _ y => y = x) x := wp_orFail hrefl fun _ _ => rfl
  refine wpOk_seq htypes fun grantTypes y _ hy => ?_
  subst hy
  have hcreate : wpOk audited (Within proc s y)
      (request (.createOIDCApp s.project s.name (confidentialConfig spec grantTypes)))
      (fun creds z => Given s y z creds) y := by
    refine request_spec hrefl (fun b z hs => created_within hsound hs) ?_
    intro b creds z hs hb
    rcases hb with rfl | ⟨hpre, -⟩
    · obtain ⟨app, id, hid, hclient, hsecret, hcreated⟩ :=
        (apiStep_createOIDCApp (audited_api.mp hs).1.1).2 _ rfl
      obtain ⟨hstored, secret, haccepted⟩ := hsecret rfl
      have hfree : s.app y.1 = none := hcreated.free
      refine ⟨fun _ => ⟨app, id, secret, ?_, hid, haccepted, ?_⟩, fun hlies => ?_⟩
      · rw [Slot.app, hcreated.result]
        exact if_pos ⟨rfl, rfl⟩
      · rw [← haccepted, ← hstored, ← hclient]
      · obtain ⟨app', -, -, happ', -⟩ := hlies
        cases hfree.symm.trans happ'
    · exact absurd hpre (audited_api.mp hs).1.2
  refine wpOk_seq hcreate fun creds z hz hgiven => ?_
  refine wpOk_seq (searchApps_spec hz s.project s.name) fun found v hv hfound => ?_
  obtain ⟨rfl, -⟩ := hfound
  exact wpOk_pure hz hgiven

theorem only_updateConfig (project : Option String) (appId unchanged : String) (spec : AppSpec)
    (config : AppSpec → List String → OidcConfig) :
    (updateConfig project appId unchanged spec config).Only Harmless := by
  refine Prog.only_bind (Prog.only_attempt (Prog.only_bind (only_orFail _) fun types => ?_)) ?_
  · apply only_request
    trivial
  · intro updated
    cases updated with
    | ok u => trivial
    | error e =>
      dsimp only
      split <;> trivial

theorem updateConfig_spec {I : World × List Regenerated → Prop} (hI : I x)
    (project : Option String) (appId unchanged : String) (spec : AppSpec)
    (config : AppSpec → List String → OidcConfig) :
    wpOk audited I (updateConfig project appId unchanged spec config) (fun _ y => y = x) x := by
  refine wp_mono (harmless_spec (only_updateConfig project appId unchanged spec config) hI) ?_
  exact fun _ _ _ hsame _ _ => hsame

/-- The file with the current credentials in it. -/
theorem holdsCurrent_of_contents {w : World} (hsound : Sound w) {creds : AppCredentials}
    (hcurrent : Current s w creds)
    (hfile : w.files (locate s.path) = some (credentialText creds.clientId creds.clientSecret)) :
    s.HoldsCurrent w := by
  obtain ⟨app, id, secret, happ, hid, hsecret, rfl⟩ := hcurrent
  obtain ⟨hnamed, hheld⟩ := storedVars_credentialText (hsound.clientIds _ _ _ _ happ hid)
    (hsound.secrets _ _ _ _ happ hsecret)
  exact ⟨app, id, secret, happ, hid, hsecret, _, hfile, hnamed, hheld⟩

/-- The file with credentials in it that are not accepted. -/
theorem lies_of_contents {w : World} (hsound : Sound w) {creds : AppCredentials}
    (hwrong : Wrong s w creds)
    (hfile : w.files (locate s.path) = some (credentialText creds.clientId creds.clientSecret)) :
    s.Lies w := by
  obtain ⟨app, id, stored, happ, hid, hnot, hclean, rfl⟩ := hwrong
  obtain ⟨hnamed, hheld⟩ := storedVars_credentialText (hsound.clientIds _ _ _ _ happ hid) hclean
  refine ⟨app, id, stored, happ, hid, ?_, hnot⟩
  rw [hfile, Option.bind_some]
  exact secretFor_eq.mpr ⟨hnamed, hheld, hclean.1⟩

/-- What the file holds is only a matter of the app and of the file. -/
theorem Slot.HoldsCurrent.congr {w w' : World} (h : s.HoldsCurrent w) (happ : s.app w' = s.app w)
    (hfile : w'.files (locate s.path) = w.files (locate s.path)) : s.HoldsCurrent w' := by
  obtain ⟨app, id, secret, happ', hid, hsecret, text, htext, hheld⟩ := h
  exact ⟨app, id, secret, happ.trans happ', hid, hsecret, text, hfile.trans htext, hheld⟩

theorem Slot.NamesCurrent.congr {w w' : World} (h : s.NamesCurrent w) (happ : s.app w' = s.app w)
    (hfile : w'.files (locate s.path) = w.files (locate s.path)) : s.NamesCurrent w' := by
  obtain ⟨app, id, happ', hid, text, htext, hnamed⟩ := h
  exact ⟨app, id, happ.trans happ', hid, text, hfile.trans htext, hnamed⟩

/-- Writing the credentials, wherever it is cut. -/
theorem Wrote.within {creds : AppCredentials} (hy : Within proc s x y)
    (hgiven : Given s x y creds)
    (h : Wrote proc s.path (credentialText creds.clientId creds.clientSecret) y z) :
    Within proc s x z := by
  have happ : s.app z.1 = s.app y.1 := by
    rw [h.world]
    rfl
  have hsound : Sound z.1 := by
    rw [h.world]
    exact hy.sound.setFiles _
  have hcases : ¬ s.Lies x.1 →
      z.1.files (locate s.path) = y.1.files (locate s.path) ∨ s.HoldsCurrent z.1 := by
    intro hnot
    refine h.file.imp_right (holdsCurrent_of_contents hsound ?_)
    rw [h.world]
    exact hgiven.current hnot
  have hhonest : s.Honest x.1 → s.Honest z.1 := by
    intro hx
    have hhonest := hy.honest hx
    rcases hcases hx.not_lies with hsame | hholds
    · refine ⟨?_, fun hnames => ?_⟩
      · rintro id ⟨text, htext, hnamed⟩
        rw [h.world]
        exact hhonest.issued id ⟨text, hsame ▸ htext, hnamed⟩
      · exact (hhonest.truthful (hnames.congr happ.symm hsame.symm)).congr happ hsame
    · exact hholds.honest hsound
  refine ⟨hsound, hhonest, ?_, ?_, ?_, ?_, ?_⟩
  · rw [h.world]
    exact hy.projects
  · rw [h.world]
    exact hy.apps
  · intro l hl htmp
    exact (h.others l hl htmp).trans (hy.files l hl htmp)
  · rw [h.world]
    exact hy.issued
  · intro hx
    obtain ⟨hholds, hlog⟩ := hy.held hx
    refine ⟨?_, h.log.trans hlog⟩
    rcases hcases hx.not_lies with hsame | hnew
    · exact hholds.congr happ hsame
    · exact hnew

/-- Converging an app keeps its file honest wherever it is cut, and leaves the current id and
secret in it unless the file lied before. -/
theorem convergeConfidentialApp_spec (hsound : Sound x.1) {spec : AppSpec}
    (hpath : spec.outputPath = s.path) :
    wpOk audited (Within proc s x) (convergeConfidentialApp proc s.project s.name spec)
      (fun _ y => (¬ s.Lies x.1 → s.HoldsCurrent y.1) ∧ (s.Lies x.1 → s.Lies y.1)) x := by
  have hrefl : Within proc s x x := Within.refl hsound
  unfold convergeConfidentialApp
  refine wpOk_seq (searchApps_spec hrefl s.project s.name) fun found y _ hfound => ?_
  obtain ⟨rfl, hfound⟩ := hfound
  have hwrite : ∀ creds z, Within proc s y z → Given s y z creds → wpOk audited (Within proc s y)
      (writeCredentialFile proc spec.outputPath (credentialText creds.clientId creds.clientSecret))
      (fun _ v => (¬ s.Lies y.1 → s.HoldsCurrent v.1) ∧ (s.Lies y.1 → s.Lies v.1)) z := by
    intro creds z hz hgiven
    rw [hpath]
    have hspec := writeCredentialFile_spec proc s.path
      (credentialText creds.clientId creds.clientSecret) z
    refine wp_always_mono (wpOk_mono hspec fun _ v hv hfile => ?_) fun v hv =>
      Wrote.within hz hgiven hv
    have hsound' := (Wrote.within hz hgiven hv).sound
    constructor
    · intro hnot
      refine holdsCurrent_of_contents hsound' ?_ hfile
      rw [hv.world]
      exact hgiven.current hnot
    · intro hlies
      refine lies_of_contents hsound' ?_ hfile
      rw [hv.world]
      exact hgiven.wrong hlies
  have hrest : ∀ (r : AppCredentials × String) z, Within proc s y z → Given s y z r.1 →
      wpOk audited (Within proc s y)
        (if r.2 ≠ "" then
          (updateConfig s.project r.2 "No changes" spec confidentialConfig).bind fun _ =>
            writeCredentialFile proc spec.outputPath
              (credentialText r.1.clientId r.1.clientSecret)
        else writeCredentialFile proc spec.outputPath
          (credentialText r.1.clientId r.1.clientSecret))
        (fun _ v => (¬ s.Lies y.1 → s.HoldsCurrent v.1) ∧ (s.Lies y.1 → s.Lies v.1)) z := by
    intro r z hz hgiven
    by_cases hid : r.2 ≠ ""
    · rw [if_pos hid]
      refine wpOk_seq (updateConfig_spec hz s.project r.2 "No changes" spec confidentialConfig) ?_
      rintro - v hv rfl
      exact hwrite r.1 v hv hgiven
    · rw [if_neg hid]
      exact hwrite r.1 z hz hgiven
  cases found with
  | nil => exact wpOk_seq (newCredentials_spec hsound spec) hrest
  | cons shown rest =>
    obtain ⟨app, happ, rfl⟩ := hfound shown List.mem_cons_self
    exact wpOk_seq (existingCredentials_spec hsound hpath happ) hrest

end Converging

/-! ## Any sequence of runs -/

/-- Between the runs the app or its project may be deleted and made anew. -/
structure Elsewhere (s : Slot) (w : World) (s' : Slot) (w' : World) : Prop where
  name : s'.name = s.name
  path : s'.path = s.path
  sound : Sound w'
  file : w'.files (locate s.path) = w.files (locate s.path)
  issued : w.issued ⊆ w'.issued
  app : s'.app w' = s.app w ∨
    ∀ app id, s'.app w' = some app → app.clientId = some id → id ∉ w.issued

/-- A run of `convergeConfidentialApp` for the app, with the regenerated secrets and its
result where it was not cut, or what happens between two runs. -/
inductive Act where
  | converge (pid : Nat) (spec : AppSpec) (log : List Regenerated)
      (result : Option (Except Failure Unit))
  | elsewhere

def actStep (H : Handler Op (World × List Regenerated)) (x : Slot × World) (a : Act)
    (y : Slot × World) : Prop :=
  match a with
  | .converge pid spec log result => spec.outputPath = x.1.path ∧ y.1 = x.1 ∧
      Run H (convergeConfidentialApp pid x.1.project x.1.name spec) (x.2, []) result (y.2, log)
  | .elsewhere => Elsewhere x.1 x.2 y.1 y.2

/-- The file does not lie: where it names the current client id, it holds the secret that is
accepted; a run that starts so regenerates nothing; and a run that completes leaves the current
id and secret. -/
def Truthful (H : Handler Op (World × List Regenerated)) (s : Slot) (w : World) : Prop :=
  (s.NamesCurrent w → s.HoldsCurrent w) ∧
    ∀ pid spec log result y, actStep H (s, w) (.converge pid spec log result) y →
      (s.NamesCurrent w → log = []) ∧ (result = some (.ok ()) → s.HoldsCurrent y.2)

theorem Elsewhere.honest {s s' : Slot} {w w' : World} (h : Elsewhere s w s' w')
    (hhonest : s.Honest w) : s'.Honest w' := by
  have hfile : w'.files (locate s'.path) = w.files (locate s.path) := by
    rw [h.path]
    exact h.file
  constructor
  · rintro id ⟨text, htext, hnamed⟩
    exact h.issued (hhonest.issued id ⟨text, hfile ▸ htext, hnamed⟩)
  · rintro ⟨app, id, happ, hid, text, htext, hnamed⟩
    rw [hfile] at htext
    rcases h.app with hsame | hfresh
    · obtain ⟨app', id', secret, happ', hid', hsecret, text', htext', hheld⟩ :=
        hhonest.truthful ⟨app, id, hsame ▸ happ, hid, text, htext, hnamed⟩
      exact ⟨app', id', secret, hsame.trans happ', hid', hsecret, text', hfile.trans htext', hheld⟩
    · exact absurd (hhonest.issued id ⟨text, htext, hnamed⟩) (hfresh app id happ hid)

theorem honest_of_no_file {s : Slot} {w : World} (hnone : w.files (locate s.path) = none) :
    s.Honest w := by
  constructor
  · rintro id ⟨text, htext, -⟩
    rw [hnone] at htext
    cases htext
  · rintro ⟨-, -, -, -, text, htext, -⟩
    rw [hnone] at htext
    cases htext

/-- The file stays honest over any runs in which no refusal is swallowed. -/
theorem honest_step {x y : Slot × World} {a : Act} (h : actStep audited x a y)
    (hx : Sound x.2 ∧ x.1.Honest x.2) : Sound y.2 ∧ y.1.Honest y.2 := by
  cases a with
  | converge pid spec log result =>
    obtain ⟨hpath, hslot, hrun⟩ := h
    have hwithin : Within pid x.1 (x.2, []) (y.2, log) :=
      (convergeConfidentialApp_spec hx.1 hpath).1 _ hrun.toCut
    rw [hslot]
    exact ⟨hwithin.sound, hwithin.honest hx.2⟩
  | elsewhere => exact ⟨Elsewhere.sound h, Elsewhere.honest h hx.2⟩

/-- After any runs from a time when there was no file, each cut anywhere, the file does not
lie, where no refusal is swallowed. -/
theorem stored_secret_true {s s' : Slot} {w w' : World} {l : List ((Slot × World) × Act)}
    (hsound : Sound w) (hnone : w.files (locate s.path) = none)
    (htrace : Trace (actStep audited) (s, w) l (s', w')) : Truthful audited s' w' := by
  obtain ⟨hsound', hhonest⟩ : Sound w' ∧ s'.Honest w' :=
    htrace.keeps (J := fun x => Sound x.2 ∧ x.1.Honest x.2) ⟨hsound, honest_of_no_file hnone⟩
      fun _ hu h => honest_step h hu
  refine ⟨hhonest.truthful, ?_⟩
  rintro pid spec log result y ⟨hpath, -, hrun⟩
  have hspec : wpOk audited (Within pid s' (w', []))
      (convergeConfidentialApp pid s'.project s'.name spec)
      (fun _ y => (¬ s'.Lies w' → s'.HoldsCurrent y.1) ∧ (s'.Lies w' → s'.Lies y.1))
      (w', []) := convergeConfidentialApp_spec hsound' hpath
  constructor
  · intro hnames
    exact ((hspec.1 _ hrun.toCut).held (hhonest.truthful hnames)).2
  · rintro rfl
    exact (hspec.2 _ _ hrun () rfl).1 hhonest.not_lies

/-! ## An app that was there before its file -/

def sampleSlot : Slot := ⟨some "p", "web", "/var/credentials/web"⟩

def sampleSpec : AppSpec where
  type := .confidential
  outputPath := "/var/credentials/web"

def sampleWorld : World := worldOf [] [((some "p", "web"), ⟨"a", some "c", some "s"⟩)]

theorem sampleWorld_sound : Sound sampleWorld :=
  sound_worldOf (by decide) (by decide) (by decide) (by decide)

/-- A run for the app on scripted answers. -/
def sampleRun (refuse : Regenerated → Bool) :
    Option (Except Failure Unit) × World × List Regenerated :=
  (convergeConfidentialApp 7 sampleSlot.project sampleSlot.name sampleSpec).exec
    (scripted refuse) 40 (sampleWorld, [])

/-- The first run regenerates the secret, and its file is found in order afterwards. -/
theorem stored_secret_true_sample : sampleSlot.HoldsCurrent (sampleRun fun _ => false).2.1 ∧
    Truthful audited sampleSlot (sampleRun fun _ => false).2.1 := by
  have hstep : actStep audited (sampleSlot, sampleWorld)
      (.converge 7 sampleSpec (sampleRun fun _ => false).2.2 (sampleRun fun _ => false).1)
      (sampleSlot, (sampleRun fun _ => false).2.1) := ⟨rfl, rfl, unrefused_run 40 _ _⟩
  have hnow := stored_secret_true sampleWorld_sound rfl (.nil (sampleSlot, sampleWorld))
  refine ⟨(hnow.2 7 sampleSpec _ _ _ hstep).2 ?_, ?_⟩
  · decide +kernel
  · exact stored_secret_true sampleWorld_sound rfl (.cons hstep (.nil _))

/-- A refusal of the regeneration that names a failed precondition is swallowed: the file
names the current id beside a secret that is not accepted. -/
theorem refused_secret_stored : ¬ ∀ (s s' : Slot) (w w' : World) (l : List ((Slot × World) × Act)),
    Sound w → w.files (locate s.path) = none → Trace (actStep logged) (s, w) l (s', w') →
    Truthful logged s' w' := by
  intro h
  have hfile : (sampleRun fun _ => true).2.1.files (locate sampleSlot.path) =
      some (credentialText (some "c") none) := by decide +kernel
  have happ : sampleSlot.app (sampleRun fun _ => true).2.1 =
      some ⟨"a", some "c", some "s"⟩ := by decide +kernel
  have hvars : storedVars (credentialText (some "c") none) "CLIENT_ID" = some "c" ∧
      storedVars (credentialText (some "c") none) "CLIENT_SECRET" = some "undefined" := by
    decide +kernel
  have hstep : actStep logged (sampleSlot, sampleWorld)
      (.converge 7 sampleSpec (sampleRun fun _ => true).2.2 (sampleRun fun _ => true).1)
      (sampleSlot, (sampleRun fun _ => true).2.1) := ⟨rfl, rfl, scripted_run _ 40 _ _⟩
  have htruthful := h _ _ _ _ _ sampleWorld_sound rfl (.cons hstep (.nil _))
  obtain ⟨app, id, secret, happ', -, hsecret, text, htext, -, hheld⟩ :=
    htruthful.1 ⟨_, "c", happ, rfl, _, hfile, hvars.1⟩
  obtain rfl := Option.some.inj (happ.symm.trans happ')
  obtain rfl := Option.some.inj (hfile.symm.trans htext)
  rw [hvars.2, ← hsecret] at hheld
  exact absurd hheld (by decide)

end Foundrix.ZitadelConfigure

import Foundrix.GeneratedSecrets.Service

/-!
# The variant of a generated secret belongs to it

Runs of the service that are cut anywhere, and deletions of the secret between them.

* `Pair`: a secret and its variant at two paths, through the stages of the script.
* `script_spec`, `finish_spec`, `rename_spec`: the script, from its end.
* `secret_matches_variant`: the result.
-/

namespace Foundrix.GeneratedSecrets

open Effect Machine

variable {s : Secret} {fs fs' : Files} {q r t : String}

/-! ## The four paths -/

theorem Secret.length_variantPath (s : Secret) : s.variantPath.length = s.path.length + 8 := by
  rw [Secret.variantPath, String.length_append]
  rfl

theorem Secret.length_pathNew (s : Secret) : s.pathNew.length = s.path.length + 4 := by
  rw [Secret.pathNew, String.length_append]
  rfl

theorem Secret.length_variantNew (s : Secret) : s.variantNew.length = s.path.length + 12 := by
  rw [Secret.variantNew, String.length_append, Secret.length_variantPath]
  rfl

theorem ne_of_length_ne (h : q.length ≠ r.length) : q ≠ r :=
  fun he => h (congrArg String.length he)

namespace Secret

@[simp]
theorem path_ne_pathNew : s.path ≠ s.pathNew :=
  ne_of_length_ne (by rw [length_pathNew]; omega)

@[simp]
theorem path_ne_variantNew : s.path ≠ s.variantNew :=
  ne_of_length_ne (by rw [length_variantNew]; omega)

@[simp]
theorem path_ne_variantPath : s.path ≠ s.variantPath :=
  ne_of_length_ne (by rw [length_variantPath]; omega)

theorem variantNew_ne_pathNew : s.variantNew ≠ s.pathNew :=
  ne_of_length_ne (by rw [length_variantNew, length_pathNew]; omega)

theorem variantPath_ne_pathNew : s.variantPath ≠ s.pathNew :=
  ne_of_length_ne (by rw [length_variantPath, length_pathNew]; omega)

theorem variantNew_ne_variantPath : s.variantNew ≠ s.variantPath :=
  ne_of_length_ne (by rw [length_variantNew, length_variantPath]; omega)

end Secret

/-! ## What a command leaves -/

theorem Blank.touches {paths : List String} (h : Blank q fs) (ht : Touches paths fs fs')
    (hq : q ∉ paths) : Blank q fs' := by
  intro f hf
  rw [ht q hq] at hf
  exact h f hf

theorem touches_update (fs : Files) (q : String) (f : Option File) :
    Touches [q] fs (Function.update fs q f) := by
  intro r hr
  have hne : r ≠ q := by simpa using hr
  rw [Function.update_of_ne hne]

theorem touches_changeAll (change : File → File) (paths : List String) (fs : Files) :
    Touches paths fs (changeAll change paths fs) := by
  intro r hr
  exact if_neg hr

theorem touches_redirected (s : Secret) (fs : Files) (target : String) (content : List UInt8) :
    Touches [target] fs (redirected s fs target content) :=
  touches_update fs target _

/-- The files that a command writes. -/
def Cmd.written : Cmd → List String
  | .install path => [path]
  | .generate _ _ _ path => [path]
  | .dropLast path => [path]
  | .concat _ _ _ target => [target]
  | .chown _ _ paths => paths
  | .chmod _ paths => paths
  | .mv source target => [source, target]
  | .conditionEmpty _ => []
  | .endsInNewline _ => []
  | .sync _ => []

theorem Touches.rfl {paths : List String} : Touches paths fs fs := fun _ _ => Eq.refl _

theorem Done.touches {c : Cmd} (h : Done s c fs fs') : Touches c.written fs fs' := by
  cases c with
  | conditionEmpty path => exact h.2 ▸ Touches.rfl
  | install path => exact h ▸ touches_update fs path _
  | generate binary symbols length path =>
    obtain ⟨content, -, rfl⟩ := h
    exact touches_redirected s fs path content
  | endsInNewline path => exact h.2 ▸ Touches.rfl
  | dropLast path => exact h ▸ touches_changeAll _ _ fs
  | concat before path after target =>
    obtain ⟨f, -, rfl⟩ := h
    exact touches_redirected s fs target _
  | chown owner group paths => exact h ▸ touches_changeAll _ _ fs
  | chmod mode paths => exact h ▸ touches_changeAll _ _ fs
  | sync paths => exact h ▸ Touches.rfl
  | mv source target =>
    obtain ⟨f, -, rfl⟩ := h
    intro q hq
    have hne : q ≠ source ∧ q ≠ target := by simpa [Cmd.written] using hq
    rw [Function.update_of_ne hne.1, Function.update_of_ne hne.2]

theorem Failed.touches {c : Cmd} (h : Failed c fs fs') : Touches c.written fs fs' := by
  cases c with
  | conditionEmpty path => exact h.2 ▸ Touches.rfl
  | endsInNewline path => exact h.2 ▸ Touches.rfl
  | sync paths => exact h ▸ Touches.rfl
  | mv source target => exact h ▸ Touches.rfl
  | install | generate | dropLast | concat | chown | chmod => exact h

theorem Blank.matches (h : Blank s.path fs) : Matches s fs :=
  fun f hf hne => absurd (h f hf) hne

/-! ## The stages of the script -/

/-- A secret at `q` and its variant at `r`, both of them with `P`. -/
def Pair (s : Secret) (q r : String) (P : File → Prop) (fs : Files) : Prop :=
  ∃ f g, fs q = some f ∧ fs r = some g ∧ g.content = s.before ++ f.content ++ s.after ∧ P f ∧ P g

theorem Pair.changed {P P' : File → Prop} {change : File → File} (h : Pair s q r P fs)
    (hcontent : ∀ f, (change f).content = f.content) (hP : ∀ f, P f → P' (change f)) :
    Pair s q r P' (changeAll change [q, r] fs) := by
  obtain ⟨f, g, hf, hg, heq, hPf, hPg⟩ := h
  have hq : changeAll change [q, r] fs q = some (change f) := by simp [changeAll, hf]
  have hr : changeAll change [q, r] fs r = some (change g) := by simp [changeAll, hg]
  refine ⟨change f, change g, hq, hr, ?_, hP f hPf, hP g hPg⟩
  rw [hcontent, hcontent, heq]

theorem Pair.movedVariant {P : File → Prop} (h : Pair s q r P fs) (hrq : r ≠ q) (htq : t ≠ q)
    (hrt : r ≠ t) (hmv : Done s (.mv r t) fs fs') : Pair s q t P fs' := by
  obtain ⟨f, g, hf, hg, hrest⟩ := h
  obtain ⟨g', hg', rfl⟩ := hmv
  obtain rfl : g = g' := Option.some.inj (hg.symm.trans hg')
  refine ⟨f, g, ?_, ?_, hrest⟩
  · rw [Function.update_of_ne hrq.symm, Function.update_of_ne htq.symm, hf]
  · rw [Function.update_of_ne hrt.symm, Function.update_self]

theorem Pair.movedSecret {P : File → Prop} (h : Pair s q r P fs) (hqr : q ≠ r) (htr : t ≠ r)
    (hqt : q ≠ t) (hmv : Done s (.mv q t) fs fs') : Pair s t r P fs' := by
  obtain ⟨f, g, hf, hg, hrest⟩ := h
  obtain ⟨f', hf', rfl⟩ := hmv
  obtain rfl : f = f' := Option.some.inj (hf.symm.trans hf')
  refine ⟨f, g, ?_, ?_, hrest⟩
  · rw [Function.update_of_ne hqt.symm, Function.update_self]
  · rw [Function.update_of_ne hqr.symm, Function.update_of_ne htr.symm, hg]

theorem Pair.matches (h : Pair s s.path s.variantPath (Configured s) fs) : Matches s fs := by
  obtain ⟨f, g, hf, hg, heq, hcf, hcg⟩ := h
  intro f' hf' _
  obtain rfl : f = f' := Option.some.inj (hf.symm.trans hf')
  exact ⟨hcf, g, hg, heq, hcg⟩

/-- A command that leaves the secret alone, while there is none. -/
theorem sh_blank_spec {c : Cmd} {R : Files → Prop} (hblank : Blank s.path fs)
    (hc : s.path ∉ c.written) (hR : ∀ fs', Done s c fs fs' → R fs') :
    wpOk (shell s) (Blank s.path) (sh c) (fun _ fs' => R fs') fs := by
  apply must_spec hblank
  · intro fs' hs
    exact ⟨hblank.touches (Done.touches hs) hc, hR fs' hs⟩
  · intro fs' hs
    exact hblank.touches (Failed.touches hs) hc

theorem trimNewline_spec (hblank : Blank s.path fs) :
    wpOk (shell s) (Blank s.path) (trimNewline s) (fun _ _ => True) fs := by
  rw [trimNewline]
  cases s.binary with
  | true => exact wpOk_pure hblank trivial
  | false =>
    apply wpOk_step hblank
    intro b fs' hs
    cases b with
    | true =>
      obtain ⟨-, rfl⟩ := hs
      exact sh_blank_spec hblank (by simp [Cmd.written])
        fun _ _ => trivial
    | false =>
      obtain ⟨-, rfl⟩ := hs
      exact wpOk_pure hblank trivial

/-- Such a command and what follows it. -/
theorem wpOk_sh {c : Cmd} {f : Unit → Prog Op Unit Unit} {R : Files → Prop}
    (hblank : Blank s.path fs) (hc : s.path ∉ c.written) (hR : ∀ fs', Done s c fs fs' → R fs')
    (hf : ∀ fs', Blank s.path fs' → R fs' →
      wpOk (shell s) (Matches s) (f ()) (fun _ _ => True) fs') :
    wpOk (shell s) (Matches s) ((sh c).bind f) (fun _ _ => True) fs :=
  wpOk_seq_within (sh_blank_spec hblank hc hR) (fun _ h => h.matches) fun _ fs' => hf fs'

/-- The variant is put in its place while there is no secret, and then the secret. -/
theorem rename_spec (hblank : Blank s.path fs)
    (hpair : Pair s s.pathNew s.variantNew (Configured s) fs) :
    wpOk (shell s) (Matches s)
      ((sh (.mv s.variantNew s.variantPath)).bind fun _ => sh (.mv s.pathNew s.path))
      (fun _ _ => True) fs := by
  apply wpOk_sh hblank (R := Pair s s.pathNew s.variantPath (Configured s)) (by simp [Cmd.written])
  · intro fs' hs
    exact hpair.movedVariant Secret.variantNew_ne_pathNew Secret.variantPath_ne_pathNew
      Secret.variantNew_ne_variantPath hs
  · intro fs' hblank' hplaced
    apply must_spec hblank'.matches
    · intro fs'' hs
      have hboth := hplaced.movedSecret Secret.variantPath_ne_pathNew.symm
        Secret.path_ne_variantPath Secret.path_ne_pathNew.symm hs
      exact ⟨hboth.matches, trivial⟩
    · intro fs'' hs
      obtain rfl : fs'' = fs' := hs
      exact hblank'.matches

/-- The two files are given owner and mode, and put in their places. -/
theorem finish_spec (hblank : Blank s.path fs)
    (hpair : Pair s s.pathNew s.variantNew (fun _ => True) fs) :
    wpOk (shell s) (Matches s) (do
      sh (.chown s.owner s.fileGroup [s.pathNew, s.variantNew])
      sh (.chmod s.mode [s.pathNew, s.variantNew])
      sh (.sync [s.pathNew, s.variantNew])
      sh (.mv s.variantNew s.variantPath)
      sh (.mv s.pathNew s.path)) (fun _ _ => True) fs := by
  have hkept : s.path ∉ [s.pathNew, s.variantNew] := by simp
  have howned : ∀ fs', Done s (.chown s.owner s.fileGroup [s.pathNew, s.variantNew]) fs fs' →
      Pair s s.pathNew s.variantNew (fun f => f.owner = s.owner ∧ f.group = s.fileGroup) fs' := by
    intro fs' hs
    obtain rfl := hs
    apply hpair.changed
    · intro f
      rfl
    · intro f _
      exact ⟨rfl, rfl⟩
  apply wpOk_sh (c := .chown s.owner s.fileGroup [s.pathNew, s.variantNew]) hblank hkept howned
  intro fs₁ hblank₁ hpair₁
  have hconf : ∀ fs', Done s (.chmod s.mode [s.pathNew, s.variantNew]) fs₁ fs' →
      Pair s s.pathNew s.variantNew (Configured s) fs' := by
    intro fs' hs
    obtain rfl := hs
    apply hpair₁.changed
    · intro f
      rfl
    · intro f hf
      exact ⟨hf.1, hf.2, rfl⟩
  apply wpOk_sh (c := .chmod s.mode [s.pathNew, s.variantNew]) hblank₁ hkept hconf
  intro fs₂ hblank₂ hpair₂
  apply wpOk_sh (c := .sync [s.pathNew, s.variantNew]) (R := fun fs' => fs' = fs₂) hblank₂
    (by simp [Cmd.written]) fun _ hs => hs
  intro fs₃ hblank₃ hsame
  exact rename_spec hblank₃ (hsame ▸ hpair₂)

theorem script_spec (hblank : Blank s.path fs) :
    wpOk (shell s) (Matches s) (script s) (fun _ _ => True) fs := by
  have hnew : s.path ∉ [s.pathNew] := by simp
  have hvariant : s.path ∉ [s.variantNew] := by simp
  apply wpOk_sh (c := .install s.pathNew) (R := fun _ => True) hblank hnew fun _ _ => trivial
  intro fs₁ hblank₁ _
  apply wpOk_sh (c := .install s.variantNew) (R := fun _ => True) hblank₁ hvariant fun _ _ => trivial
  intro fs₂ hblank₂ _
  apply wpOk_sh (c := .generate s.binary s.symbols s.length s.pathNew) (R := fun _ => True) hblank₂
    hnew fun _ _ => trivial
  intro fs₃ hblank₃ _
  apply wpOk_seq_within (trimNewline_spec hblank₃) fun _ h => h.matches
  intro _ fs₄ hblank₄ _
  -- the variant is written from the secret that is in its file now
  have hwritten : ∀ fs', Done s (.concat s.before s.pathNew s.after s.variantNew) fs₄ fs' →
      Pair s s.pathNew s.variantNew (fun _ => True) fs' := by
    intro fs' hs
    obtain ⟨f, hf, rfl⟩ := hs
    have hsecret : redirected s fs₄ s.variantNew (s.before ++ f.content ++ s.after) s.pathNew =
        some f := by
      rw [redirected, Function.update_of_ne Secret.variantNew_ne_pathNew.symm, hf]
    have hcopy : ∃ g, redirected s fs₄ s.variantNew (s.before ++ f.content ++ s.after)
        s.variantNew = some g ∧ g.content = s.before ++ f.content ++ s.after := by
      rw [redirected, Function.update_self]
      cases fs₄ s.variantNew with
      | none => exact ⟨_, rfl, rfl⟩
      | some g => exact ⟨_, rfl, rfl⟩
    obtain ⟨g, hg, heq⟩ := hcopy
    exact ⟨f, g, hsecret, hg, heq, trivial, trivial⟩
  apply wpOk_sh (c := .concat s.before s.pathNew s.after s.variantNew) hblank₄ hvariant hwritten
  intro fs₅ hblank₅ hpair
  exact finish_spec hblank₅ hpair

/-! ## Runs and deletions -/

theorem service_spec (h : Matches s fs) :
    wpOk (shell s) (Matches s) (service s) (fun _ _ => True) fs := by
  apply wpOk_step h
  intro b fs' hs
  cases b with
  | true =>
    obtain ⟨hblank, rfl⟩ := hs
    exact script_spec hblank
  | false =>
    obtain ⟨-, rfl⟩ := hs
    exact wpOk_pure h trivial

/-- A start of the unit where the secret is there does nothing. -/
theorem service_kept (h : ¬ Blank s.path fs) {o : Option (Except Unit Unit)}
    (hrun : Run (shell s) (service s) fs o fs') : fs' = fs := by
  have hkept : wpOk (shell s) (fun w => w = fs) (service s) (fun _ _ => True) fs := by
    refine wpOk_step rfl ?_
    intro b w hs
    cases b with
    | true => exact absurd hs.1 h
    | false => exact wpOk_pure hs.2 trivial
  exact hkept.1 fs' hrun.toCut

theorem step_matches {a : Act} (h : Matches s fs) (hs : step s fs a fs') : Matches s fs' := by
  cases a with
  | run =>
    obtain ⟨o, hrun⟩ := hs
    exact (service_spec h).1 fs' hrun.toCut
  | delete =>
    obtain rfl := hs
    intro f hf
    rw [Function.update_self] at hf
    cases hf

theorem runs_keep_secret {l : List (Files × Act)} (h : Trace (step s) fs l fs')
    (hruns : ∀ x ∈ l, x.2 = .run) (hthere : ¬ Blank s.path fs) : fs' = fs := by
  apply h.keeps (J := fun w => w = fs) rfl
  intro u a v hmem hu hs
  obtain rfl : a = .run := hruns (u, a) hmem
  obtain ⟨o, hrun⟩ := hs
  subst hu
  exact service_kept hthere hrun

/-- In every state that runs and deletions lead to from one without a secret, the variant
belongs to the secret, and runs that follow keep a secret that is not empty. -/
theorem secret_matches_variant (s : Secret) {fs fs' : Files} {l : List (Files × Act)}
    (hblank : Blank s.path fs) (h : Trace (step s) fs l fs') :
    ∀ u ∈ visited l fs', Matches s u ∧
      ∀ f, u s.path = some f → f.content ≠ [] →
        ∀ l' v, Trace (step s) u l' v → (∀ x ∈ l', x.2 = .run) → v s.path = some f := by
  intro u hu
  have hmatches := h.keeps_visited hblank.matches (fun _ => step_matches) u hu
  refine ⟨hmatches, ?_⟩
  intro f hf hne l' v hlater hruns
  have hthere : ¬ Blank s.path u := fun hb => hne (hb f hf)
  rw [runs_keep_secret hlater hruns hthere, hf]

/-! A run for a secret with a prefix, every command of which succeeds. -/

section Sample

def sampleSecret : Secret where
  name := "db"
  owner := "postgres"
  before := [112]

/-- The files after the command, and whether it succeeds; one letter is generated. -/
def sampleRun (c : Cmd) (fs : Files) : Option (Bool × Files) :=
  match c with
  | .conditionEmpty path => match fs path with
    | none => some (true, fs)
    | some f => if f.content = [] then some (true, fs) else none
  | .install path => some (true, Function.update fs path
      (some { content := [], owner := "root", group := "root", mode := "600" }))
  | .generate _ _ _ path => some (true, redirected sampleSecret fs path [97])
  | .endsInNewline path => match fs path with
    | none => none
    | some f => if f.content.getLast? = some 10 then none else some (false, fs)
  | .dropLast path =>
    some (true, changeAll (fun f => { f with content := f.content.dropLast }) [path] fs)
  | .concat before path after target => (fs path).map fun f =>
      (true, redirected sampleSecret fs target (before ++ f.content ++ after))
  | .chown owner group paths =>
    some (true, changeAll (fun f => { f with owner, group }) paths fs)
  | .chmod mode paths => some (true, changeAll (fun f => { f with mode }) paths fs)
  | .sync _ => some (true, fs)
  | .mv source target => (fs source).map fun f =>
      (true, Function.update (Function.update fs target (some f)) source none)

def sampleOracle : Oracle Op Files where
  answer e fs := match e with
    | .run c => sampleRun c fs

theorem sampleOracle_answers {β : Type} (e : Op β) (w : Files) (b : β) (w' : Files)
    (h : sampleOracle.answer e w = some (b, w')) : (shell sampleSecret).step e w b w' := by
  obtain ⟨c⟩ := e
  replace h : sampleRun c w = some (b, w') := h
  cases c with
  | conditionEmpty path =>
    rw [sampleRun] at h
    cases hf : w path with
    | none =>
      rw [hf] at h
      cases h
      exact ⟨fun f hf' => absurd (hf.symm.trans hf') nofun, rfl⟩
    | some f =>
      rw [hf] at h
      by_cases hempty : f.content = []
      · simp only [hempty, if_true] at h
        cases h
        exact ⟨fun f' hf' => Option.some.inj (hf.symm.trans hf') ▸ hempty, rfl⟩
      · simp [hempty] at h
  | endsInNewline path =>
    rw [sampleRun] at h
    cases hf : w path with
    | none => rw [hf] at h; cases h
    | some f =>
      rw [hf] at h
      by_cases hlast : f.content.getLast? = some 10
      · simp [hlast] at h
      · simp only [hlast, if_false] at h
        cases h
        refine ⟨?_, rfl⟩
        rintro ⟨f', hf', hlast'⟩
        exact hlast (Option.some.inj (hf.symm.trans hf') ▸ hlast')
  | generate binary symbols length path =>
    cases h
    exact ⟨[97], fun _ => by decide, rfl⟩
  | concat before path after target =>
    obtain ⟨f, hf, he⟩ := Option.map_eq_some_iff.mp h
    cases he
    exact ⟨f, hf, rfl⟩
  | mv source target =>
    obtain ⟨f, hf, he⟩ := Option.map_eq_some_iff.mp h
    cases he
    exact ⟨f, hf, rfl⟩
  | install | dropLast | chown | chmod | sync =>
    cases h
    rfl

/-- The files after the run. -/
def sampleFiles : Files := ((service sampleSecret).exec sampleOracle 30 fun _ => none).2

theorem sampleFiles_reached :
    Trace (step sampleSecret) (fun _ => none) [(fun _ => none, .run)] sampleFiles :=
  .cons ⟨_, exec_run sampleOracle_answers 30 (service sampleSecret) fun _ => none⟩ (.nil _)

theorem secret_matches_variant_sample :
    (∃ f, sampleFiles sampleSecret.path = some f ∧ f.content = [97]) ∧
      ∀ u ∈ visited [(fun _ => none, Act.run)] sampleFiles, Matches sampleSecret u := by
  constructor
  · exact ⟨{ content := [97], owner := "postgres", group := "postgres", mode := "0400" },
      by decide +kernel, rfl⟩
  · intro u hu
    have hblank : Blank sampleSecret.path fun _ => none := by
      intro f hf
      cases hf
    exact (secret_matches_variant sampleSecret hblank sampleFiles_reached u hu).1

end Sample

end Foundrix.GeneratedSecrets

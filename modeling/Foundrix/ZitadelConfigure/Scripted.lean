import Foundrix.ZitadelConfigure.AppWorld

/-!
# Runs on scripted answers

A deterministic Zitadel for concrete runs: every call does what it can, apart from the
regenerations that are refused, and a file function succeeds exactly where it can.
-/

namespace Foundrix.ZitadelConfigure

open Text Effect

/-! ## Worlds given by lists -/

/-- A world with some projects and apps, and no files. -/
def worldOf (projects : List (String × String))
    (apps : List ((Option String × String) × ServerApp)) : World where
  projects name := projects.lookup name
  apps project name := apps.lookup (project, name)
  issued := apps.filterMap fun e => e.2.clientId
  files _ := none

theorem mem_of_lookup {α β : Type} [BEq α] [LawfulBEq α] {l : List (α × β)} {a : α} {b : β}
    (h : l.lookup a = some b) : (a, b) ∈ l := by
  obtain ⟨l₁, l₂, rfl, -⟩ := List.lookup_eq_some_iff.mp h
  simp

theorem sound_worldOf {projects : List (String × String)}
    {apps : List ((Option String × String) × ServerApp)}
    (hclean : ∀ e ∈ apps, (∀ id ∈ e.2.clientId, Clean id) ∧ ∀ secret ∈ e.2.secret, Clean secret)
    (hids : ∀ e ∈ apps, ∀ e' ∈ apps, e.1.1 = e'.1.1 → e.2.id = e'.2.id → e.1.2 = e'.1.2)
    (howner : ∀ e ∈ apps, ∀ e' ∈ apps, ∀ id ∈ e.2.clientId, e'.2.clientId = some id → e.1 = e'.1)
    (hprojects : ∀ e ∈ projects, ∀ e' ∈ projects, e.2 = e'.2 → e.1 = e'.1) :
    Sound (worldOf projects apps) := by
  constructor
  · intro p n app id h hid
    exact List.mem_filterMap.mpr ⟨_, mem_of_lookup h, hid⟩
  · intro p n app id h hid
    exact (hclean _ (mem_of_lookup h)).1 id hid
  · intro p n app secret h hsecret
    exact (hclean _ (mem_of_lookup h)).2 secret hsecret
  · intro p n n' app app' h h' hid
    exact hids _ (mem_of_lookup h) _ (mem_of_lookup h') rfl hid
  · intro n n' id h h'
    exact hprojects _ (mem_of_lookup h) _ (mem_of_lookup h') rfl
  · intro p n app p' n' app' id h h' hid hid'
    have hkey := howner _ (mem_of_lookup h) _ (mem_of_lookup h') id hid hid'
    exact ⟨congrArg Prod.fst hkey, congrArg Prod.snd hkey⟩

/-! ## Answers -/

/-- The text of a list of bytes, where they are ASCII. -/
def asciiText (data : List UInt8) : String :=
  String.ofList (data.map fun b => Char.ofNat b.toNat)

/-- What a call answers. A project or an app that is not there is not created. -/
def callReply (refuse : Regenerated → Bool) : {β : Type} → Api β → World → Option (β × World)
  | _, .searchProjects name, w =>
    some (.ok ((w.projects name).toList.map fun id => ⟨id, name⟩), w)
  | _, .searchApps project name, w =>
    some (.ok ((w.apps project name).toList.map ServerApp.shown), w)
  | _, .regenerateClientSecret project appId, w =>
    if refuse ⟨project, appId⟩ then some (.refused 400 "\x7b\"code\":9\x7d", w)
    else some (.ok (some "renewed"), w.setSecret project appId "renewed")
  | _, .getPolicy _, w => some (.ok (some []), w)
  | _, .getProject _, w => some (.ok (some ⟨"", true⟩), w)
  | _, .createProject _, w => some (.failed "unavailable", w)
  | _, .createOIDCApp _ _ _, w => some (.failed "unavailable", w)
  | _, .createSAMLApp _ _ _, w => some (.failed "unavailable", w)
  | _, c, w => c.ofErrorBody.map fun a => (a, w)

def fileReply : {β : Type} → Deno β → World → β × World
  | _, .mkdir _, w => (.ok (), w)
  | _, .openNew path, w =>
    match w.files (locate path) with
    | none => (.ok (), w.setFile (locate path) (some ""))
    | some _ => (.error { message := "File exists (os error 17)" }, w)
  | _, .write path data, w =>
    if utf8 (asciiText data) = data then
      (.ok data.length, w.setFile (locate path) (some (asciiText data)))
    else (.error { message := "unsupported" }, w.setFile (locate path) none)
  | _, .sync _, w => (.ok (), w)
  | _, .close _, w => (.ok (), w)
  | _, .rename src dst, w =>
    match w.files (locate src) with
    | some text => (.ok (), (w.setFile (locate src) none).setFile (locate dst) (some text))
    | none => (.error { message := "No such file or directory (os error 2)" }, w)
  | _, .remove path, w => (.ok (), w.setFile (locate path) none)
  | _, .readTextFile path, w =>
    match w.files (locate path) with
    | some text => (.ok text, w)
    | none => (.error { message := "No such file or directory (os error 2)", notFound := true }, w)
  | _, .writeTextFile path text, w => (.ok (), w.setFile (locate path) (some text))
  | _, .readFile _, w => (.ok (), w)

def scripted (refuse : Regenerated → Bool) : Oracle Op (World × List Regenerated) where
  answer e x :=
    match e with
    | .inl c => (callReply refuse c x.1).map fun r =>
        (r.1, (r.2, x.2 ++ (regenerated (.inl c) x.1 r.1).toList))
    | .inr f => some ((fileReply f x.1).1, ((fileReply f x.1).2, x.2))

theorem callReply_sound {refuse : Regenerated → Bool} {β : Type} {c : Api β} {w w' : World} {b : β}
    (h : callReply refuse c w = some (b, w')) : apiStep c w b w' := by
  cases c with
  | searchProjects name =>
    cases h
    refine ⟨rfl, ?_⟩
    rintro a ha p hp
    cases ha
    simp only [List.mem_map, Option.mem_toList] at hp
    obtain ⟨id, hid, rfl⟩ := hp
    exact hid
  | searchApps project name =>
    cases h
    refine ⟨rfl, ?_⟩
    rintro a ha p hp
    cases ha
    simp only [List.mem_map, Option.mem_toList] at hp
    obtain ⟨app, happ, rfl⟩ := hp
    exact ⟨app, happ, rfl⟩
  | regenerateClientSecret project appId =>
    simp only [callReply] at h
    by_cases hrefuse : refuse ⟨project, appId⟩ = true
    · rw [if_pos hrefuse] at h
      cases h
      exact Or.inl rfl
    · rw [if_neg hrefuse] at h
      cases h
      exact ⟨"renewed", rfl, by decide, rfl⟩
  | createProject | createOIDCApp | createSAMLApp => cases h; exact Or.inl rfl
  | getOrgPasswordComplexityPolicy | getOrgLabelPolicy | uploadAsset => cases h
  | _ => cases h; rfl

theorem fileReply_sound {β : Type} (f : Deno β) (w : World) :
    denoStep f w (fileReply f w).1 (fileReply f w).2 := by
  cases f with
  | openNew path =>
    cases hfile : w.files (locate path) with
    | none =>
      simp only [fileReply, hfile]
      exact ⟨hfile, rfl⟩
    | some text =>
      simp only [fileReply, hfile]
      rfl
  | write path data =>
    by_cases htext : utf8 (asciiText data) = data
    · simp only [fileReply, if_pos htext]
      exact ⟨rfl, _, htext, rfl⟩
    · simp only [fileReply, if_neg htext]
      exact ⟨none, rfl⟩
  | rename src dst =>
    cases hfile : w.files (locate src) with
    | none =>
      simp only [fileReply, hfile]
      rfl
    | some text =>
      simp only [fileReply, hfile]
      exact ⟨text, hfile, rfl⟩
  | remove path => exact Or.inr rfl
  | readTextFile path =>
    cases hfile : w.files (locate path) with
    | none =>
      simp only [fileReply, hfile]
      exact ⟨rfl, fun _ => hfile⟩
    | some text =>
      simp only [fileReply, hfile]
      exact ⟨rfl, hfile⟩
  | _ => rfl

/-- A scripted run of the script is one of its runs. -/
theorem scripted_run (refuse : Regenerated → Bool) {α : Type} (n : Nat) (p : Script α)
    (x : World × List Regenerated) :
    Run logged p x (p.exec (scripted refuse) n x).1 (p.exec (scripted refuse) n x).2 := by
  refine exec_run (fun e x b y h => ?_) n p x
  cases e with
  | inl c =>
    obtain ⟨r, hr, he⟩ := Option.map_eq_some_iff.mp h
    cases he
    exact ⟨callReply_sound hr, rfl⟩
  | inr f =>
    cases h
    exact ⟨fileReply_sound f x.1, by simp [regenerated]⟩

/-- Where nothing is refused, it is one of the runs in which no refusal is swallowed. -/
theorem unrefused_run {α : Type} (n : Nat) (p : Script α) (x : World × List Regenerated) :
    Run audited p x (p.exec (scripted fun _ => false) n x).1
      (p.exec (scripted fun _ => false) n x).2 := by
  refine exec_run (fun e x b y h => ?_) n p x
  cases e with
  | inl c =>
    obtain ⟨r, hr, he⟩ := Option.map_eq_some_iff.mp h
    cases he
    refine ⟨⟨callReply_sound hr, ?_⟩, rfl⟩
    cases c <;> cases hr <;> exact id
  | inr f =>
    cases h
    exact ⟨⟨fileReply_sound f x.1, id⟩, by simp [regenerated]⟩

end Foundrix.ZitadelConfigure

import Foundrix.VarDisk.Effects
import Foundrix.VarDisk.Scripted

/-!
# Runs on a simulated machine

A deterministic world for concrete runs on a machine: the commands do what they can and say
what is so, and every prompt is answered at once.

* `Bench`, `simulated`: what is not decided by the machine, and what the commands print.
* `bench_run`: a run on the bench is a run of the daemon.
-/

namespace Foundrix.VarDisk

open Effect Text

/-- What a simulated machine does not decide. -/
structure Bench where
  volumes : List String
  partuuid : String → String
  answer : Prompt → String

variable {D : Type} (b : Bench) (cfg : Cfg)

def refused : Output := { status := ⟨some 1, "exit status: 1"⟩ }

/-- What `blkid` says of a filesystem. -/
def typeOf : Option (Content D) → Output
  | some (.btrfs _) => printed "btrfs"
  | some .other => printed "ext4"
  | some .blank | none => nothingFound

def simulated (m : Machine D) : Cmd → Output
  | .blkid .type (.part1 id) =>
    match m.partition id with
    | some (.luks _) => printed "crypto_LUKS"
    | _ => typeOf (m.content (.part1 id))
  | .blkid .type .mapper => typeOf (m.content .mapper)
  | .blkid .type (.disk _) => nothingFound
  | .blkid .pttype (.disk id) => if (m.partition id).isSome then printed "gpt" else nothingFound
  | .blkid .pttype _ => nothingFound
  | .blkid .label d =>
    match m.fs d with
    | some fs => printed fs.label
    | none => nothingFound
  | .lsblk (.part1 id) => printed (b.partuuid id)
  | .blockdev _ => printed "1073741824"
  | .usage _ => printed "    Used: 0"
  | .subvolShow dir s => if (m.subvol dir s).isSome then printed "" else refused
  | .receive dir => if (m.setReceived dir m.stream.source).isSome then printed "" else refused
  | c => if (c.effect cfg m).isSome then printed "" else refused

/-- The machine after an operation. -/
def moved (m : Machine D) : {β : Type} → Op β → Machine D
  | _, .output c | _, .feed c _ => (c.effect cfg m).getD m
  | _, .spawn (.send dir s) => { m with stream := { source := m.subvol dir s } }
  | _, .wait (.send _ _) => { m with stream := { m.stream with sent := true } }
  | _, .wait (.receive dir) => (m.setReceived dir m.stream.source).getD m
  | _, _ => m

/-- The script of a machine in its present state. -/
def Bench.script (m : Machine D) : Script where
  volumes := b.volumes
  output c _ := simulated b cfg m c
  present d _ :=
    match d with
    | .part1 id => (m.partition id).isSome
    | _ => true
  answer := b.answer

def Bench.oracle : Oracle Op (Site D) where
  answer e x :=
    let r := reply (b.script cfg x.2) e x.1.1 x.1.2
    some (r.1, (r.2, x.1.2 ++ (record e x.1.1 r.1).toList), moved cfg x.2 e)

variable {b cfg} {m : Machine D}

/-- The types that `blkid` names, as they are read. -/
theorem trim_types : trim "btrfs" = "btrfs" ∧ trim "ext4" = "ext4" ∧ trim "" = "" ∧
    trim "crypto_LUKS" = "crypto_LUKS" := by decide

theorem typeOf_btrfs {c : Option (Content D)} (h : trim (typeOf c).stdout = "btrfs") :
    ∃ fs, c = some (.btrfs fs) := by
  obtain ⟨-, hext, hnone, -⟩ := trim_types
  rcases c with _ | (_ | fs | _)
  · simp [typeOf, nothingFound, hnone] at h
  · simp [typeOf, nothingFound, hnone] at h
  · exact ⟨fs, rfl⟩
  · simp [typeOf, printed, hext] at h

theorem typeOf_not_luks (c : Option (Content D)) : trim (typeOf c).stdout ≠ "crypto_LUKS" := by
  obtain ⟨hbtrfs, hext, hnone, -⟩ := trim_types
  rcases c with _ | (_ | fs | _) <;> simp [typeOf, nothingFound, printed, hbtrfs, hext, hnone]

theorem typeOf_nothing {c : Content D} (h : (typeOf (some c)).status.code = some 2) :
    c = .blank := by
  cases c with
  | blank => rfl
  | btrfs fs => simp [typeOf, printed] at h
  | other => simp [typeOf, printed] at h

theorem isSome_fs {d : Device} {fs : Btrfs D} (h : m.content d = some (.btrfs fs)) :
    (m.fs d).isSome := by
  rw [Machine.fs_eq_some.mpr h]
  rfl

theorem partition_inner {id : String} {c : Content D} (h : m.partition id = some (.luks c)) :
    m.inner id = some c := by
  obtain ⟨disk, hdisk, hvolume⟩ := Option.bind_eq_some_iff.mp h
  split at hvolume
  · simp [Machine.inner, hdisk, Option.some.inj hvolume]
  · cases hvolume

theorem simulated_truthful (c : Cmd) : Truthful m (simulated b cfg m c) c := by
  have shown : ∀ {dir : Dir} {s : Subvol},
      (simulated b cfg m (.subvolShow dir s)).status.code = some 0 → (m.subvol dir s).isSome := by
    intro dir s h
    by_contra hno
    simp [simulated, hno, refused] at h
  cases c with
  | blkid tag d =>
    cases tag with
    | type =>
      cases d with
      | disk id => trivial
      | part1 id =>
        show (_ → trim (simulated b cfg m (.blkid .type (.part1 id))).stdout = "btrfs" → _) ∧ _
        cases hpart : m.partition id with
        | some volume =>
          cases volume with
          | luks inner =>
            refine ⟨fun _ h => ?_, fun _ _ => by rw [partition_inner hpart]; rfl⟩
            simp [simulated, hpart, printed, trim_types] at h
          | plain c =>
            refine ⟨fun _ h => ?_, fun _ h => ?_⟩
            · simp only [simulated, hpart] at h
              obtain ⟨fs, hfs⟩ := typeOf_btrfs h
              exact isSome_fs hfs
            · simp only [simulated, hpart] at h
              exact (typeOf_not_luks _ h).elim
        | none =>
          refine ⟨fun _ h => ?_, fun _ h => ?_⟩
          · simp only [simulated, hpart] at h
            obtain ⟨fs, hfs⟩ := typeOf_btrfs h
            exact isSome_fs hfs
          · simp only [simulated, hpart] at h
            exact (typeOf_not_luks _ h).elim
      | mapper =>
        refine ⟨fun _ h => ?_, fun h c hc => ?_⟩
        · obtain ⟨fs, hfs⟩ := typeOf_btrfs h
          exact isSome_fs hfs
        · simp only [simulated, hc] at h
          exact typeOf_nothing h
    | pttype => cases d <;> trivial
    | label =>
      intro _ fs hfs
      simp [simulated, hfs, printed]
  | subvolShow dir s => exact shown
  | _ => trivial

/-- A command on the bench ends as it may. -/
theorem simulated_ended (c : Cmd) :
    Ended cfg c m ((c.effect cfg m).getD m) (.ok (simulated b cfg m c)) := by
  refine ⟨simulated_truthful c, ?_⟩
  cases heffect : c.effect cfg m with
  | some m' => exact Or.inl rfl
  | none =>
    refine Or.inr ⟨?_, rfl⟩
    cases c with
    | blkid tag d => cases heffect
    | lsblk d => cases heffect
    | blockdev d => cases heffect
    | usage dir => cases heffect
    | subvolShow dir s => cases heffect
    | receive dir => cases heffect
    | _ => simp [simulated, heffect, refused, Status.success]

theorem bench_sound {β : Type} (e : Op β) (x : Site D) (r : β) (y : Site D)
    (h : (b.oracle cfg).answer e x = some (r, y)) : (onMachine cfg).step e x r y := by
  have hreply : ((scripted (b.script cfg x.2)).answer e x.1 = some (r, y.1)) ∧
      y.2 = moved cfg x.2 e := by
    simp only [Bench.oracle, Option.some.injEq, Prod.mk.injEq] at h
    obtain ⟨rfl, rfl⟩ := h
    exact ⟨rfl, rfl⟩
  obtain ⟨hreply, hm⟩ := hreply
  refine ⟨scripted_sound _ e x.1 r y.1 hreply, ?_⟩
  have hr : (reply (b.script cfg x.2) e x.1.1 x.1.2).1 = r :=
    congrArg Prod.fst (Option.some.inj hreply)
  rw [hm, ← hr]
  cases e with
  | output c => exact simulated_ended c
  | feed c secret => exact simulated_ended c
  | spawn c =>
    cases c with
    | send dir s => rfl
    | receive dir => exact Or.inl rfl
    | _ => rfl
  | wait c =>
    cases c with
    | send dir s => exact Or.inl ⟨⟨_, rfl, rfl⟩, rfl⟩
    | receive dir =>
      rw [show moved cfg x.2 (.wait (.receive dir)) =
        (x.2.setReceived dir x.2.stream.source).getD x.2 from rfl]
      cases hset : x.2.setReceived dir x.2.stream.source with
      | some m' => exact ⟨Or.inr ⟨_, hset⟩, fun _ _ => hset⟩
      | none =>
        refine ⟨Or.inl rfl, fun ⟨status, hstatus, hok⟩ => ?_⟩
        obtain rfl := Except.ok.inj hstatus
        simp [Bench.script, simulated, hset, refused, Status.success] at hok
    | _ => rfl
  | «exists» d =>
    refine ⟨rfl, ?_⟩
    cases d with
    | part1 id => exact Or.inr rfl
    | _ => trivial
  | _ => rfl

/-- A run on the bench is one of the runs of the daemon on the machine. -/
theorem bench_run {α : Type} (n : Nat) (p : Daemon α) (x : Site D) :
    Run (onMachine cfg) p x (p.exec (b.oracle cfg) n x).1 (p.exec (b.oracle cfg) n x).2 :=
  exec_run (fun e x r y h => bench_sound e x r y h) n p x

/-! ## Runs on known volumes -/

/-- What the survey does before it looks for volumes. -/
def prepare : Daemon Unit := do
  requireTools requiredTools
  question (← Prog.perform (.createDirAll "/run/var-disk-manager"))
  Prog.perform .removeSocket
  inContext "binding control socket" (← Prog.perform .bindSocket)
  Ui.state "enumerate" "waiting for data volumes"
  settle

/-- The daemon where it is known which volumes there are. -/
def runOn (cfg : Cfg) (ids : List String) : Daemon Unit := do
  prepare
  Ui.state "classify" "classifying data volumes"
  let infos ← classifyAll cfg ids
  Ui.mutate fun s => { s with disks := infos }
  carryOut cfg (plan (classesOf infos))

theorem survey_eq (cfg : Cfg) : survey cfg = prepare.bind fun _ =>
    (awaitVolumes cfg 90 0 0).bind fun _ =>
      (Ui.state "classify" "classifying data volumes").bind fun _ =>
        (listVolumes cfg).bind fun ids => classifyAll cfg ids := by
  simp only [survey, prepare, Prog.bind_eq, Prog.bind_assoc]

/-- Any names may be read. -/
theorem listVolumes_run (names : List String) (x : Site D) :
    Run (onMachine cfg) (listVolumes cfg) x (some (.ok (volumesOf cfg names))) x :=
  run_bind_ok.mpr ⟨names, x, run_perform_ok.mpr ⟨⟨rfl, by simp [record]⟩, rfl⟩, .pure _ _⟩

theorem awaitVolumes_run (x : Site D) (n stable prev : Nat) :
    Run (onMachine cfg) (awaitVolumes cfg n stable prev) x (some (.ok ())) x := by
  have slept : Run (onMachine cfg) (Prog.perform (.sleep 1000) : Daemon Unit) x (some (.ok ())) x :=
    run_perform_ok.mpr ⟨⟨rfl, by simp [record]⟩, rfl⟩
  induction n generalizing stable prev with
  | zero => exact .pure _ _
  | succ n ih =>
    refine run_bind_ok.mpr ⟨_, x, listVolumes_run [] x, ?_⟩
    dsimp only
    split
    · split
      · exact .pure _ _
      · exact run_bind_ok.mpr ⟨(), x, slept, ih _ _⟩
    · exact run_bind_ok.mpr ⟨(), x, slept, ih _ _⟩

/-- A run on the volumes that some names stand for is a run of the daemon. -/
theorem runOn_run {cli : Cli} (hcfg : cli.cfg = some cfg) (names : List String) {x y : Site D}
    {o : Option (Except Error Unit)} (h : Run (onMachine cfg) (runOn cfg (volumesOf cfg names)) x o y) :
    Run (onMachine cfg) (run cli) x o y := by
  unfold run
  rw [hcfg]
  change Run (onMachine cfg) ((survey cfg).bind _) x o y
  rw [survey_eq]
  simp only [Prog.bind_assoc]
  rcases run_bind.mp h with hcut | hfail | ⟨_, z, hprepare, h⟩
  · exact run_bind.mpr (Or.inl hcut)
  · exact run_bind.mpr (Or.inr (Or.inl hfail))
  refine run_bind.mpr (Or.inr (Or.inr ⟨_, z, hprepare, ?_⟩))
  refine run_bind.mpr (Or.inr (Or.inr ⟨_, z, awaitVolumes_run z 90 0 0, ?_⟩))
  rcases run_bind.mp h with hcut | hfail | ⟨_, u, hstate, h⟩
  · exact run_bind.mpr (Or.inl hcut)
  · exact run_bind.mpr (Or.inr (Or.inl hfail))
  refine run_bind.mpr (Or.inr (Or.inr ⟨_, u, hstate, ?_⟩))
  exact run_bind.mpr (Or.inr (Or.inr ⟨_, u, listVolumes_run names u, h⟩))

end Foundrix.VarDisk

import Foundrix.VarDisk.Released

/-!
# Which commands a plan can run

Every function of the daemon runs a fixed set of commands with an effect, whatever it is told
and answered. What such a set cannot change is left alone by all runs of the function.

* `Within`: the operations that run no other command with an effect than those of a list.
* `effect_cases`, `within_step`: all that a command, and such an operation, can do to the machine.
* `Plan.commands`, `carryOut_within`: the commands of each plan.
-/

namespace Foundrix.VarDisk

open Effect Text

/-- Operations that run no command with an effect but those of the list, and leave the list of
disks that is shown. -/
def Within (cs : List Cmd) : {β : Type} → Op β → Prop
  | _, .mutate f => ∀ s, (f s).disks = s.disks
  | _, .output c | _, .feed c _ => c.Inert ∨ c ∈ cs
  | _, .spawn c | _, .wait c => c ∈ cs
  | _, _ => True

variable {cs cs' : List Cmd} {cfg : Cfg} {α β : Type}

theorem Aside.within {e : Op β} (he : Aside e) : Within cs e := by
  cases e with
  | mutate f => exact he
  | output c => exact Or.inl he
  | feed c secret => exact Or.inl he
  | spawn c => exact he.elim
  | wait c => exact he.elim
  | _ => trivial

theorem Within.mono {e : Op β} (he : Within cs e) (h : cs ⊆ cs') : Within cs' e := by
  cases e with
  | mutate f => exact he
  | output c => exact he.imp_right fun hc => h hc
  | feed c secret => exact he.imp_right fun hc => h hc
  | spawn c => exact h he
  | wait c => exact h he
  | _ => trivial

theorem aside_within {p : Daemon α} (hp : p.Only Aside) : p.Only (Within cs) :=
  hp.mono fun _ he => he.within

theorem looking_within {p : Daemon α} (hp : p.Only Looking) : p.Only (Within cs) :=
  aside_within (looking_aside hp)

theorem within_mono {p : Daemon α} (hp : p.Only (Within cs)) (h : cs ⊆ cs') :
    p.Only (Within cs') :=
  hp.mono fun _ he => he.mono h

theorem runOk_within {c : Cmd} (hc : c ∈ cs) : (runOk cfg c).Only (Within cs) :=
  runOk_only cfg (Or.inr hc)

theorem runWithStdin_within {c : Cmd} {secret : String} (hc : c ∈ cs) :
    (runWithStdin cfg c secret).Only (Within cs) :=
  runWithStdin_only cfg (Or.inr hc)

theorem never_within {p : Daemon Empty} {f : Empty → Daemon α} (hp : p.Only (Within cs)) :
    (p.bind f).Only (Within cs) :=
  Prog.only_bind hp fun never => never.elim

theorem blockForever_within (reason : String) : (Ui.blockForever reason).Only (Within cs) :=
  looking_within (blockForever_looking reason)

theorem state_within (phase message : String) : (Ui.state phase message).Only (Within cs) :=
  aside_within (state_aside phase message)

theorem settle_within : settle.Only (Within cs) := looking_within settle_looking

theorem subvolExists_within (dir : Dir) (s : Subvol) : (subvolExists dir s).Only (Within cs) :=
  looking_within (subvolExists_looking dir s)

/-! ## What such operations do -/

section Steps

variable {D : Type} {m m' : Machine D} {x y : Site D} {b : β} {e : Op β}

/-- The command puts this filesystem in the place of what a device held. -/
def Cmd.Writes (cfg : Cfg) (m : Machine D) (d : Device) (c : Content D) (fs' : Btrfs D) :
    Cmd → Prop
  | .mkfs d' => d' = d ∧ fs' = { label := cfg.id.fsLabel }
  | .setLabel d' => d' = d ∧ ∃ fs, c = .btrfs fs ∧ fs' = { fs with label := cfg.id.fsLabel }
  | .subvolCreate dir s =>
    m.mounts dir = some d ∧ ∃ fs, c = .btrfs fs ∧ fs' = fs.set s (some .empty)
  | .subvolSnapshot _ src s dir t => m.mounts dir = some d ∧
    ∃ fs tree, c = .btrfs fs ∧ m.subvol src s = some tree ∧ fs' = fs.set t (some tree)
  | .subvolDelete dir s => m.mounts dir = some d ∧ ∃ fs, c = .btrfs fs ∧ fs' = fs.set s none
  | _ => False

/-- The command says whether the partition table of a disk has partition 1. -/
def Cmd.Tables (id : String) (present : Bool) : Cmd → Prop
  | .sgdiskZap d => d = .disk id ∧ present = false
  | .sgdiskNew d | .sgdiskRegrow d => d = .disk id ∧ present = true
  | _ => False

/-- What is open and mounted after a command that touches no disk. -/
def Cmd.Sets (m : Machine D) (mapper : Option String) (mounts : Dir → Option Device) : Cmd → Prop
  | .luksOpen _ d =>
    ∃ id, d = .part1 id ∧ (m.partition id).isSome ∧ mapper = some id ∧ mounts = m.mounts
  | .luksClose => mapper = none ∧ mounts = m.mounts
  | .mount d dir => mapper = m.mapper ∧ mounts = Function.update m.mounts dir (some d)
  | .umount dir => mapper = m.mapper ∧ mounts = Function.update m.mounts dir none
  | _ => mapper = m.mapper ∧ mounts = m.mounts

/-- A command writes a filesystem, changes a partition table, formats a partition, or opens,
closes, mounts or unmounts something, if it does anything at all. -/
theorem effect_cases {c : Cmd} (h : c.effect cfg m = some m') :
    (∃ d old fs, m.content d = some old ∧ c.Writes cfg m d old fs ∧ m.Wrote d (.btrfs fs) m') ∨
    (∃ id present, c.Tables id present ∧ m.setPart1 id present = some m') ∨
    (∃ id, c = .luksFormat (.part1 id) ∧ (m.partition id).isSome ∧
      m.setVolume id (.luks .blank) = some m') ∨
    ∃ mapper mounts, c.Sets m mapper mounts ∧ m' = { m with mapper, mounts } := by
  cases c with
  | sgdiskZap d =>
    cases d with
    | disk id => exact Or.inr (Or.inl ⟨id, false, ⟨rfl, rfl⟩, h⟩)
    | part1 id => cases h
    | mapper => cases h
  | sgdiskNew d =>
    cases d with
    | disk id => exact Or.inr (Or.inl ⟨id, true, ⟨rfl, rfl⟩, h⟩)
    | part1 id => cases h
    | mapper => cases h
  | sgdiskRegrow d =>
    cases d with
    | disk id =>
      obtain ⟨_, -, hset⟩ := Option.bind_eq_some_iff.mp h
      exact Or.inr (Or.inl ⟨id, true, ⟨rfl, rfl⟩, hset⟩)
    | part1 id => cases h
    | mapper => cases h
  | luksFormat d =>
    cases d with
    | disk id => cases h
    | part1 id =>
      simp only [Cmd.effect] at h
      split at h
      · cases h
      · obtain ⟨v, hv, hset⟩ := Option.bind_eq_some_iff.mp h
        exact Or.inr (Or.inr (Or.inl ⟨id, rfl, by rw [hv]; rfl, hset⟩))
    | mapper => cases h
  | luksOpen persistent d =>
    cases d with
    | disk id => cases h
    | part1 id =>
      simp only [Cmd.effect] at h
      split at h
      · rename_i hpart
        obtain rfl := Option.some.inj h
        exact Or.inr (Or.inr (Or.inr ⟨_, _, ⟨id, rfl, by rw [hpart]; rfl, rfl, rfl⟩, rfl⟩))
      · cases h
    | mapper => cases h
  | luksClose =>
    obtain ⟨_, -, rfl⟩ := Option.map_eq_some_iff.mp h
    exact Or.inr (Or.inr (Or.inr ⟨_, _, ⟨rfl, rfl⟩, rfl⟩))
  | mkfs d =>
    obtain ⟨old, hold, -⟩ := Option.bind_eq_some_iff.mp h
    exact Or.inl ⟨d, old, _, hold, ⟨rfl, rfl⟩, mkfs_some h⟩
  | mount d dir => exact Or.inr (Or.inr (Or.inr ⟨_, _, ⟨rfl, rfl⟩, mount_some h⟩))
  | umount dir => exact Or.inr (Or.inr (Or.inr ⟨_, _, ⟨rfl, rfl⟩, umount_some h⟩))
  | setLabel d =>
    obtain ⟨fs, fs', hfs, hf, hw⟩ := Machine.setFs_some h
    cases hf
    exact Or.inl ⟨d, _, _, Machine.fs_eq_some.mp hfs, ⟨rfl, fs, rfl, rfl⟩, hw⟩
  | subvolCreate dir s =>
    obtain ⟨d, fs, hd, hfs, -, hw⟩ := Machine.addSubvol_some h
    exact Or.inl ⟨d, _, _, Machine.fs_eq_some.mp hfs, ⟨hd, fs, rfl, rfl⟩, hw⟩
  | subvolSnapshot readonly src s dir t =>
    obtain ⟨tree, htree, hadd⟩ := Option.bind_eq_some_iff.mp h
    obtain ⟨d, fs, hd, hfs, -, hw⟩ := Machine.addSubvol_some hadd
    exact Or.inl ⟨d, _, _, Machine.fs_eq_some.mp hfs, ⟨hd, fs, tree, rfl, htree, rfl⟩, hw⟩
  | subvolDelete dir s =>
    obtain ⟨d, fs, hd, hfs, hw⟩ := Machine.dropSubvol_some h
    exact Or.inl ⟨d, _, _, Machine.fs_eq_some.mp hfs, ⟨hd, fs, rfl, rfl⟩, hw⟩
  | _ =>
    obtain rfl := Option.some.inj h
    exact Or.inr (Or.inr (Or.inr ⟨_, _, ⟨rfl, rfl⟩, rfl⟩))

/-- The machine after an operation: the same, or after one of the commands, or with another
part of a stream or of what it was received to. -/
theorem within_step (he : Within cs e) (hs : (onMachine cfg).step e x b y) :
    y.2 = x.2 ∨ (∃ c ∈ cs, c.effect cfg x.2 = some y.2) ∨
      (∃ dir tree, .receive dir ∈ cs ∧ x.2.setReceived dir tree = some y.2) ∨
      ∃ stream, y.2 = { x.2 with stream } := by
  have ended : ∀ {c : Cmd} {r : Except String Output}, c.Inert ∨ c ∈ cs →
      Ended cfg c x.2 y.2 r → y.2 = x.2 ∨ ∃ c ∈ cs, c.effect cfg x.2 = some y.2 := by
    intro c r hc hended
    rcases hc with hc | hc
    · exact Or.inl (hended.inert hc)
    · exact hended.effect_or.symm.imp_right fun h => ⟨c, hc, h⟩
  have hm : MachineStep cfg e x.2 b y.2 := hs.2
  cases e with
  | output c => exact (ended he hm).imp_right Or.inl
  | feed c secret =>
    cases b with
    | notSpawned e => exact Or.inl hm
    | ran written out => exact (ended he hm).imp_right Or.inl
  | spawn c =>
    cases c with
    | send dir s =>
      cases b with
      | error e => exact Or.inl hm
      | ok u => exact Or.inr (Or.inr (Or.inr ⟨_, hm⟩))
    | receive dir =>
      rcases hm with hm | ⟨-, tree, hm⟩
      · exact Or.inl hm
      · exact Or.inr (Or.inr (Or.inl ⟨dir, tree, he, hm⟩))
    | _ => exact Or.inl hm
  | wait c =>
    cases c with
    | send dir s =>
      rcases hm with ⟨-, hm⟩ | ⟨-, hm⟩
      · exact Or.inr (Or.inr (Or.inr ⟨_, hm⟩))
      · exact Or.inl hm
    | receive dir =>
      rcases hm.1 with hm | ⟨tree, hm⟩
      · exact Or.inl hm
      · exact Or.inr (Or.inr (Or.inl ⟨dir, tree, he, hm⟩))
    | _ => exact Or.inl hm
  | «exists» d => exact Or.inl hm.1
  | _ => exact Or.inl hm

theorem within_disks (he : Within cs e) (hs : (onMachine cfg).step e x b y) :
    y.1.1.snapshot.disks = x.1.1.snapshot.disks := by
  have hworld : Answer e x.1.1 b y.1.1 := hs.1.1
  cases e with
  | mutate f => exact hworld ▸ he _
  | nextPromptId => rw [hworld.2]
  | writeState line => exact congrArg (fun w => w.snapshot.disks) hworld
  | _ => rw [show y.1.1 = x.1.1 from hworld]

end Steps

/-! ## The commands of each function -/

def varCmds : List Cmd :=
  [.mount .mapper .newVarFs, .subvolCreate .newVarFs .var, .umount .newVarFs]

def openCmds (id : String) : List Cmd :=
  [.sgdiskRegrow (.disk id), .luksOpen false (.part1 id)]

def labelCmds (id : String) : List Cmd := [.blkid .label (.part1 id), .setLabel (.part1 id)]

def formatCmds (id : String) : List Cmd :=
  [.sgdiskZap (.disk id), .sgdiskNew (.disk id), .luksFormat (.part1 id), .luksOpen true (.part1 id),
    .mkfs .mapper]

def inspectCmds (id : String) : List Cmd :=
  [.mount (.part1 id) .old, .subvolDelete .old .migrateSrc, .umount .old]

def streamCmds : List Cmd := [.send .old .migrateSrc, .receive .new]

def copyCmds : List Cmd :=
  streamCmds ++ [.subvolSnapshot true .old .var .old .migrateSrc, .mount .mapper .new,
    .subvolSnapshot false .new .migrateSrc .new .var, .subvolDelete .new .migrateSrc]

def cleanCmds : List Cmd :=
  [.subvolDelete .old .migrateSrc, .umount .new, .umount .old, .luksClose]

/-- The commands with an effect that a plan can run. -/
def Plan.commands : Plan → List Cmd
  | .unlock id => openCmds id ++ (.mkfs .mapper :: varCmds)
  | .bootLegacy id => labelCmds id
  | .migrate legacy blank => inspectCmds legacy ++ (formatCmds blank ++ (copyCmds ++ cleanCmds))
  | .provision id => formatCmds id ++ varCmds
  | .block _ | .noDisks => []

/-! ## Unlock -/

theorem maybeGrowPartition_within (id : String) :
    (maybeGrowPartition cfg id).Only (Within (openCmds id)) := by
  refine Prog.only_bind (looking_within (blockdevBytes_looking cfg _)) fun diskBytes => ?_
  refine Prog.only_bind (looking_within (blockdevBytes_looking cfg _)) fun partBytes => ?_
  split
  · trivial
  · refine Prog.only_bind (state_within _ _) fun _ => ?_
    refine Prog.only_bind (runOk_only cfg (Or.inl trivial)) fun _ => ?_
    refine Prog.only_bind (runOk_within (by simp [openCmds])) fun _ => ?_
    exact Prog.only_bind settle_within fun _ => trivial

theorem openVolume_within (id : String) : (openVolume cfg id).Only (Within (openCmds id)) := by
  refine Prog.only_iterate fun _ => Prog.only_bind (aside_within (ask_aside _ _)) fun pw => ?_
  refine Prog.only_bind (state_within _ _) fun _ => ?_
  have fed : (runWithStdin cfg (.luksOpen false (.part1 id)) pw).attempt.Only
      (Within (openCmds id)) :=
    Prog.only_attempt (runWithStdin_within (by simp [openCmds]))
  refine Prog.only_bind fed fun r => ?_
  cases r with
  | ok _ => trivial
  | error e => exact Prog.only_bind (state_within _ _) fun _ => trivial

theorem createVarSubvol_within : (createVarSubvol cfg).Only (Within varCmds) := by
  refine Prog.only_bind (Prog.only_perform trivial) fun r => ?_
  refine Prog.only_bind (question_only r) fun _ => ?_
  refine Prog.only_bind (runOk_within (by simp [varCmds])) fun _ => ?_
  refine Prog.only_bind (runOk_within (by simp [varCmds])) fun _ => ?_
  exact Prog.only_bind (runOk_within (by simp [varCmds])) fun _ => trivial

theorem unlockBtrfs_within (id : String) : (unlockBtrfs cfg id).Only (Within varCmds) := by
  have umount : (runOk cfg (.umount .newVarFs)).Only (Within varCmds) :=
    runOk_within (by simp [varCmds])
  refine Prog.only_bind (Prog.only_perform trivial) fun r => ?_
  refine Prog.only_bind (question_only r) fun _ => ?_
  refine Prog.only_bind (runOk_within (by simp [varCmds])) fun _ => ?_
  refine Prog.only_bind (runOk_only cfg (Or.inl trivial)) fun _ => ?_
  refine Prog.only_bind (subvolExists_within _ _) fun found => ?_
  cases found with
  | true => exact Prog.only_bind umount fun _ => trivial
  | false =>
    refine Prog.only_bind (aside_within (askConfirm_aside _)) fun yes => ?_
    cases yes with
    | true =>
      refine Prog.only_bind (runOk_within (by simp [varCmds])) fun _ => ?_
      exact Prog.only_bind umount fun _ => trivial
    | false => exact Prog.only_bind umount fun _ => never_within (blockForever_within _)

theorem unlockEmpty_within (id : String) :
    (unlockEmpty cfg id).Only (Within (.mkfs .mapper :: varCmds)) := by
  refine Prog.only_bind (aside_within (askConfirm_aside _)) fun yes => ?_
  cases yes with
  | true =>
    refine Prog.only_bind (state_within _ _) fun _ => ?_
    refine Prog.only_bind (runOk_within (by simp)) fun _ => ?_
    refine Prog.only_bind settle_within fun _ => ?_
    exact within_mono createVarSubvol_within (List.subset_cons_self _ _)
  | false => exact never_within (blockForever_within _)

theorem checkContent_within (id : String) :
    (checkContent cfg id).Only (Within (.mkfs .mapper :: varCmds)) := by
  refine Prog.only_bind (Prog.only_perform (Or.inl nofun)) fun r => ?_
  cases mapperFs r with
  | btrfs => exact within_mono (unlockBtrfs_within id) (List.subset_cons_self _ _)
  | empty => exact unlockEmpty_within id
  | other fstype => exact never_within (blockForever_within _)
  | unknown => exact never_within (blockForever_within _)

theorem unlock_within (id : String) :
    (unlock cfg id).Only (Within (openCmds id ++ (.mkfs .mapper :: varCmds))) := by
  have opened : openCmds id ⊆ openCmds id ++ (.mkfs .mapper :: varCmds) :=
    List.subset_append_left _ _
  have check : ((checkContent cfg id).bind fun _ => Ui.state "unlock" "unlocked; boot continuing").Only
      (Within (openCmds id ++ (.mkfs .mapper :: varCmds))) :=
    Prog.only_bind (within_mono (checkContent_within id) (List.subset_append_right _ _))
      fun _ => state_within _ _
  refine Prog.only_bind (within_mono (maybeGrowPartition_within id) opened) fun grew => ?_
  refine Prog.only_bind (within_mono (openVolume_within id) opened) fun pw => ?_
  refine Prog.only_bind settle_within fun _ => ?_
  refine Prog.only_bind (looking_within (needsResize_looking cfg id grew)) fun resize => ?_
  cases resize with
  | false => exact check
  | true =>
    refine Prog.only_bind (state_within _ _) fun _ => ?_
    refine Prog.only_bind (runWithStdin_only cfg (Or.inl trivial)) fun _ => ?_
    exact Prog.only_bind settle_within fun _ => check

/-! ## The other plans -/

theorem ensureLabel_within (id : String) : (ensureLabel cfg id).Only (Within (labelCmds id)) := by
  refine Prog.only_bind (probeValue_only (Or.inr (by simp [labelCmds]))) fun label => ?_
  dsimp only
  split
  · refine Prog.only_bind (state_within _ _) fun _ => ?_
    refine Prog.only_bind (runOk_within (by simp [labelCmds])) fun _ => ?_
    exact Prog.only_bind (Prog.only_perform (Or.inl trivial)) fun _ => state_within _ _
  · exact state_within _ _

/-- What follows the first step of the format, which drops the partition table. -/
def formatRest (cfg : Cfg) (id pw : String) : Daemon Unit :=
  (runOk cfg (.sgdiskNew (.disk id))).bind fun _ => settle.bind fun _ =>
    (awaitDevice (.part1 id) 60).bind fun _ =>
      (Prog.perform (.exists (.part1 id))).bind fun present =>
        if !present then bail s!"partition {(Device.part1 id).path cfg} did not appear"
        else do
          Ui.state "format/luks" s!"creating LUKS2 container on {id}-part1"
          runWithStdin cfg (.luksFormat (.part1 id)) pw
          runWithStdin cfg (.luksOpen true (.part1 id)) pw
          Ui.state "format/mkfs" s!"creating btrfs on /dev/mapper/{cfg.id.mapper}"
          let _ ← runOk cfg (.mkfs .mapper)
          settle

theorem formatEncrypted_eq (id pw : String) : formatEncrypted cfg id pw =
    (Ui.state "format/partition" s!"partitioning {id}").bind fun _ =>
      (runOk cfg (.sgdiskZap (.disk id))).bind fun _ => formatRest cfg id pw := rfl

theorem formatRest_within (id pw : String) :
    (formatRest cfg id pw).Only (Within (formatCmds id).tail) := by
  refine Prog.only_bind (runOk_within (by simp [formatCmds])) fun _ => ?_
  refine Prog.only_bind settle_within fun _ => ?_
  refine Prog.only_bind (awaitDevice_only trivial trivial 60) fun _ => ?_
  refine Prog.only_bind (Prog.only_perform trivial) fun present => ?_
  split
  · trivial
  · refine Prog.only_bind (state_within _ _) fun _ => ?_
    refine Prog.only_bind (runWithStdin_within (by simp [formatCmds])) fun _ => ?_
    refine Prog.only_bind (runWithStdin_within (by simp [formatCmds])) fun _ => ?_
    refine Prog.only_bind (state_within _ _) fun _ => ?_
    refine Prog.only_bind (runOk_within (by simp [formatCmds])) fun _ => ?_
    exact Prog.only_bind settle_within fun _ => trivial

theorem formatEncrypted_within (id pw : String) :
    (formatEncrypted cfg id pw).Only (Within (formatCmds id)) := by
  rw [formatEncrypted_eq]
  refine Prog.only_bind (state_within _ _) fun _ => ?_
  refine Prog.only_bind (runOk_within (by simp [formatCmds])) fun _ => ?_
  exact within_mono (formatRest_within id pw) (List.subset_cons_self _ _)

theorem pump_aside (total : Nat) : (pump total).Only Aside := by
  refine Prog.only_iterate fun copied => ?_
  refine Prog.only_bind (Prog.only_perform trivial) fun r => ?_
  refine Prog.only_bind (inContext_only _ r) fun n => ?_
  split
  · trivial
  · refine Prog.only_bind (Prog.only_perform trivial) fun r => ?_
    refine Prog.only_bind (inContext_only _ r) fun _ => ?_
    refine Prog.only_bind (Prog.only_perform trivial) fun due => ?_
    split
    · exact Prog.only_bind (Prog.only_perform fun _ => rfl) fun _ => trivial
    · trivial

theorem reapCopy_within (total : Nat) (r : Except Error Unit) :
    (reapCopy total r).Only (Within streamCmds) := by
  have sent : Cmd.send .old .migrateSrc ∈ streamCmds := by simp [streamCmds]
  have received : Cmd.receive .new ∈ streamCmds := by simp [streamCmds]
  refine Prog.only_bind (Prog.only_perform sent) fun s => ?_
  refine Prog.only_bind (inContext_only _ s) fun sendStatus => ?_
  refine Prog.only_bind (Prog.only_perform received) fun s => ?_
  refine Prog.only_bind (inContext_only _ s) fun recvStatus => ?_
  refine Prog.only_bind (Prog.only_perform trivial) fun _ => ?_
  refine Prog.only_bind (Prog.only_perform trivial) fun _ => ?_
  cases r with
  | error e => trivial
  | ok u =>
    dsimp only
    split
    · trivial
    · split
      · trivial
      · exact Prog.only_perform fun _ => rfl

theorem copyWithProgress_within (total : Nat) :
    (copyWithProgress total).Only (Within streamCmds) := by
  have sent : Cmd.send .old .migrateSrc ∈ streamCmds := by simp [streamCmds]
  have received : Cmd.receive .new ∈ streamCmds := by simp [streamCmds]
  refine Prog.only_bind (Prog.only_perform sent) fun r => ?_
  refine Prog.only_bind (inContext_only _ r) fun _ => ?_
  refine Prog.only_bind (Prog.only_perform received) fun r => ?_
  refine Prog.only_bind (inContext_only _ r) fun _ => ?_
  refine Prog.only_bind (Prog.only_attempt (aside_within (pump_aside total))) fun pumpResult => ?_
  refine Prog.only_bind (Prog.only_perform trivial) fun _ => ?_
  dsimp only
  split
  · refine Prog.only_bind (Prog.only_perform trivial) fun _ => ?_
    exact Prog.only_bind (Prog.only_perform trivial) fun _ => reapCopy_within total _
  · exact reapCopy_within total _

theorem copyVar_within (used : Nat) : (copyVar cfg used).Only (Within copyCmds) := by
  refine Prog.only_bind (state_within _ _) fun _ => ?_
  refine Prog.only_bind (runOk_within (by simp [copyCmds])) fun _ => ?_
  refine Prog.only_bind (runOk_only cfg (Or.inl trivial)) fun _ => ?_
  refine Prog.only_bind (runOk_within (by simp [copyCmds])) fun _ => ?_
  have streamed : streamCmds ⊆ copyCmds := List.subset_append_left _ _
  refine Prog.only_bind (within_mono (copyWithProgress_within used) streamed) fun _ => ?_
  refine Prog.only_bind (runOk_within (by simp [copyCmds])) fun _ => ?_
  exact Prog.only_bind (runOk_within (by simp [copyCmds])) fun _ => trivial

theorem cleanUp_within : (cleanUp cfg).Only (Within cleanCmds) := by
  refine Prog.only_bind (state_within _ _) fun _ => ?_
  refine Prog.only_bind (runOk_within (by simp [cleanCmds])) fun _ => ?_
  refine Prog.only_bind (runOk_only cfg (Or.inl trivial)) fun _ => ?_
  refine Prog.only_bind (runOk_within (by simp [cleanCmds])) fun _ => ?_
  refine Prog.only_bind (runOk_within (by simp [cleanCmds])) fun _ => ?_
  refine Prog.only_bind (runOk_within (by simp [cleanCmds])) fun _ => ?_
  exact Prog.only_perform fun _ => rfl

theorem umountOld_within (id : String) :
    (runOk cfg (.umount .old)).attempt.Only (Within (inspectCmds id)) :=
  Prog.only_attempt (runOk_within (by simp [inspectCmds]))

theorem admitSize_within (id : String) (used target : Nat) :
    (admitSize cfg used target).Only (Within (inspectCmds id)) := by
  by_cases hsmall : target < addU64 used sizeHeadroom
  · simp only [admitSize, if_pos hsmall]
    exact Prog.only_bind (umountOld_within id) fun _ => never_within (blockForever_within _)
  · simp only [admitSize, if_neg hsmall]
    trivial

theorem admitTarget_within (id blankId usage : String) :
    (admitTarget cfg blankId usage).Only (Within (inspectCmds id)) := by
  unfold admitTarget
  cases parseBtrfsUsed usage with
  | none => exact Prog.only_bind (umountOld_within id) fun _ => never_within (blockForever_within _)
  | some used =>
    refine Prog.only_bind (runOk_only cfg (Or.inl trivial)) fun sizeOut => ?_
    refine Prog.only_bind (inContext_only _ _) fun target => ?_
    exact admitSize_within id used target

theorem inspectSource_within (legacyId blankId : String) :
    (inspectSource cfg legacyId blankId).Only (Within (inspectCmds legacyId)) := by
  have admitted : ((runOk cfg (.usage .old)).bind (admitTarget cfg blankId)).Only
      (Within (inspectCmds legacyId)) :=
    Prog.only_bind (runOk_only cfg (Or.inl trivial)) fun usage => admitTarget_within _ _ usage
  refine Prog.only_bind (Prog.only_perform trivial) fun r => ?_
  refine Prog.only_bind (question_only r) fun _ => ?_
  refine Prog.only_bind (Prog.only_perform trivial) fun r => ?_
  refine Prog.only_bind (question_only r) fun _ => ?_
  refine Prog.only_bind (state_within _ _) fun _ => ?_
  refine Prog.only_bind (runOk_within (by simp [inspectCmds])) fun _ => ?_
  refine Prog.only_bind (subvolExists_within _ _) fun torn => ?_
  dsimp only
  split
  · refine Prog.only_bind (runOk_within (by simp [inspectCmds])) fun _ => ?_
    exact Prog.only_bind (runOk_only cfg (Or.inl trivial)) fun _ => admitted
  · exact admitted

theorem migrate_within (legacyId blankId : String) : (migrate cfg legacyId blankId).Only
    (Within (inspectCmds legacyId ++ (formatCmds blankId ++ (copyCmds ++ cleanCmds)))) := by
  have inspected := List.subset_append_left (inspectCmds legacyId)
    (formatCmds blankId ++ (copyCmds ++ cleanCmds))
  have rest := List.subset_append_right (inspectCmds legacyId)
    (formatCmds blankId ++ (copyCmds ++ cleanCmds))
  have formatted := List.subset_append_left (formatCmds blankId) (copyCmds ++ cleanCmds)
  have copied := List.subset_append_right (formatCmds blankId) (copyCmds ++ cleanCmds)
  refine Prog.only_bind (within_mono (inspectSource_within _ _) inspected) fun used => ?_
  refine Prog.only_bind (aside_within (askNewPassphrase_aside cfg)) fun pw => ?_
  refine within_mono ?_ rest
  refine Prog.only_bind (within_mono (formatEncrypted_within _ _) formatted) fun _ => ?_
  refine within_mono ?_ copied
  refine Prog.only_bind (within_mono (copyVar_within used) (List.subset_append_left _ _)) fun _ => ?_
  refine Prog.only_bind (within_mono cleanUp_within (List.subset_append_right _ _)) fun _ => ?_
  exact blockForever_within _

theorem provision_within (id : String) :
    (provision cfg id).Only (Within (formatCmds id ++ varCmds)) := by
  refine Prog.only_bind (state_within _ _) fun _ => ?_
  refine Prog.only_bind (aside_within (askNewPassphrase_aside cfg)) fun pw => ?_
  have formatted := List.subset_append_left (formatCmds id) varCmds
  refine Prog.only_bind (within_mono (formatEncrypted_within _ _) formatted) fun _ => ?_
  have made := List.subset_append_right (formatCmds id) varCmds
  exact Prog.only_bind (within_mono createVarSubvol_within made) fun _ => state_within _ _

/-- A plan runs no other command with an effect than its own. -/
theorem carryOut_within (p : Plan) : (carryOut cfg p).Only (Within p.commands) := by
  cases p with
  | unlock id => exact unlock_within id
  | bootLegacy id => exact ensureLabel_within id
  | migrate legacy blank => exact never_within (migrate_within legacy blank)
  | provision id => exact provision_within id
  | block reason => exact never_within (blockForever_within reason)
  | noDisks => trivial

end Foundrix.VarDisk

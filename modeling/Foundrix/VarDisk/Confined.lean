import Foundrix.VarDisk.Consent

/-!
# What a run changes

On a machine with any disks, wherever a run is cut: the disks that its plan does not name are
what they were, of a legacy disk only the subvolume `var` is sure to be left alone, an encrypted
volume is left alone until a yes, and a disk is only formatted where it has no partition 1.

* `Cmd.Spares`, `Apart`, `apart_spec`: the commands, and the programs, that stay off a disk.
* `Machine.Booted`, `run_carryOut`: a run surveys the disks and carries out a plan for what is so
  of them.
* `Changed`, `run_changes`: what a run may make of each disk.
-/

namespace Foundrix.VarDisk

open Effect Text

variable {D : Type} {cfg : Cfg} {m m' : Machine D} {id : String}

/-! ## Disks that are not named -/

/-- The commands that do not name a disk or its partition. -/
def Cmd.Spares (id : String) : Cmd → Prop
  | .sgdiskZap d | .sgdiskNew d | .sgdiskRegrow d => d ≠ .disk id
  | .luksFormat d | .luksOpen _ d | .mkfs d | .setLabel d | .mount d _ => d ≠ .part1 id
  | _ => True

/-- The disk is this one, and neither open nor mounted. -/
structure Apart (id : String) (disk : Option (Disk D)) (m : Machine D) : Prop where
  same : m.disks id = disk
  closed : m.mapper ≠ some id
  unmounted : ∀ dir, m.mounts dir ≠ some (.part1 id)

variable {disk : Option (Disk D)}

theorem Apart.of_same (h : Apart id disk m) (hdisk : m'.disks id = m.disks id)
    (hmapper : m'.mapper = m.mapper) (hmounts : m'.mounts = m.mounts) : Apart id disk m' :=
  ⟨hdisk.trans h.same, hmapper ▸ h.closed, hmounts ▸ h.unmounted⟩

/-- What is written elsewhere. -/
theorem Apart.wrote {d : Device} {old c : Content D} (h : Apart id disk m)
    (hold : m.content d = some old) (hw : m.Wrote d c m') (hd : d ≠ .part1 id) :
    Apart id disk m' := by
  refine h.of_same (hw.others id fun hof => ?_) hw.mapper hw.mounts
  cases d with
  | disk j => cases hold
  | part1 j => exact hd (congrArg Device.part1 (Option.some.inj hof))
  | mapper => exact h.closed hof

theorem Apart.writes {c : Cmd} {d : Device} {old : Content D} {fs' : Btrfs D}
    (h : Apart id disk m) (hc : c.Spares id) (hw : c.Writes cfg m d old fs') : d ≠ .part1 id := by
  cases c with
  | mkfs d' => exact hw.1 ▸ hc
  | setLabel d' => exact hw.1 ▸ hc
  | subvolCreate dir s => exact fun hd => h.unmounted dir (hd ▸ hw.1)
  | subvolSnapshot readonly src s dir t => exact fun hd => h.unmounted dir (hd ▸ hw.1)
  | subvolDelete dir s => exact fun hd => h.unmounted dir (hd ▸ hw.1)
  | _ => exact hw.elim

theorem Cmd.Spares.tables {c : Cmd} {j : String} {present : Bool} (hc : c.Spares id)
    (ht : c.Tables j present) : id ≠ j := by
  rintro rfl
  cases c with
  | sgdiskZap d => exact hc ht.1
  | sgdiskNew d => exact hc ht.1
  | sgdiskRegrow d => exact hc ht.1
  | _ => exact ht.elim

theorem Apart.sets {c : Cmd} {mapper : Option String} {mounts : Dir → Option Device}
    (h : Apart id disk m) (hc : c.Spares id) (hs : c.Sets m mapper mounts) :
    Apart id disk { m with mapper, mounts } := by
  cases c with
  | luksOpen persistent d =>
    obtain ⟨j, rfl, -, rfl, rfl⟩ := hs
    exact ⟨h.same, fun hj => hc (congrArg Device.part1 (Option.some.inj hj)), h.unmounted⟩
  | luksClose =>
    obtain ⟨rfl, rfl⟩ := hs
    exact ⟨h.same, (Option.some_ne_none id).symm, h.unmounted⟩
  | mount d dir =>
    obtain ⟨rfl, rfl⟩ := hs
    refine ⟨h.same, h.closed, fun dir' hdir' => ?_⟩
    by_cases hsame : dir' = dir
    · subst hsame
      exact hc (by simpa using hdir')
    · exact h.unmounted dir' (by simpa [hsame] using hdir')
  | umount dir =>
    obtain ⟨rfl, rfl⟩ := hs
    refine ⟨h.same, h.closed, fun dir' hdir' => ?_⟩
    by_cases hsame : dir' = dir
    · simp [hsame] at hdir'
    · exact h.unmounted dir' (by simpa [hsame] using hdir')
  | _ => exact h.of_same rfl hs.1 hs.2

theorem Apart.effect {c : Cmd} (h : Apart id disk m) (hc : c.Spares id)
    (heffect : c.effect cfg m = some m') : Apart id disk m' := by
  rcases effect_cases heffect with ⟨d, old, fs, hold, hwrites, hw⟩ | ⟨j, present, ht, hset⟩ |
    ⟨j, rfl, -, hset⟩ | ⟨mapper, mounts, hs, rfl⟩
  · exact h.wrote hold hw (h.writes hc hwrites)
  · obtain ⟨_, -, rfl⟩ := Machine.setPart1_some hset
    exact h.of_same (setDisk_other (hc.tables ht)) rfl rfl
  · obtain ⟨_, -, rfl⟩ := Machine.setVolume_some hset
    exact h.of_same (setDisk_other fun hj => hc (congrArg Device.part1 hj.symm)) rfl rfl
  · exact h.sets hc hs

section Programs

variable {cs : List Cmd} {x : Site D} {α : Type}

theorem apart_spec {p : Daemon α} (hp : p.Only (Within cs)) (hcs : ∀ c ∈ cs, c.Spares id)
    (hx : Apart id disk x.2) :
    wp (onMachine cfg) (fun y => Apart id disk y.2) p (fun _ y => Apart id disk y.2) x := by
  refine wp_only hp (fun e y b z he hy hs => ?_) hx
  rcases within_step he hs with hsame | ⟨c, hc, heffect⟩ | ⟨dir, tree, -, hset⟩ | ⟨stream, hsame⟩
  · rw [hsame]
    exact hy
  · exact hy.effect (hcs c hc) heffect
  · obtain ⟨d, fs, hd, hfs, hw⟩ := Machine.setReceived_some hset
    refine hy.wrote (Machine.fs_eq_some.mp hfs) hw fun hpart => ?_
    exact hy.unmounted dir (hpart ▸ hd)
  · rw [hsame]
    exact hy.of_same rfl rfl rfl

/-- A plan stays off the disks that it does not name. -/
theorem commands_spare {p : Plan} (hid : ∀ c, (id, c) ∉ p.named) : ∀ c ∈ p.commands, c.Spares id := by
  cases p with
  | unlock j =>
    have hj : j ≠ id := fun hj => hid .luks (by simp [Plan.named, hj])
    simp [Plan.commands, openCmds, varCmds, Cmd.Spares, hj]
  | bootLegacy j =>
    have hj : j ≠ id := fun hj => hid .legacy (by simp [Plan.named, hj])
    simp [Plan.commands, labelCmds, Cmd.Spares, hj]
  | migrate legacy blank =>
    have hlegacy : legacy ≠ id := fun hj => hid .legacy (by simp [Plan.named, hj])
    have hblank : blank ≠ id := fun hj => hid .blank (by simp [Plan.named, hj])
    simp [Plan.commands, inspectCmds, formatCmds, copyCmds, streamCmds, cleanCmds, Cmd.Spares,
      hlegacy, hblank]
  | provision j =>
    have hj : j ≠ id := fun hj => hid .blank (by simp [Plan.named, hj])
    simp [Plan.commands, formatCmds, varCmds, Cmd.Spares, hj]
  | block reason => simp [Plan.commands]
  | noDisks => simp [Plan.commands]

/-- Disks are neither attached nor detached. -/
theorem attached_spec {p : Daemon α} (hp : p.Only (Within cs)) {b : Bool}
    (hx : (x.2.table id).isSome = b) :
    wp (onMachine cfg) (fun y => (y.2.table id).isSome = b) p
      (fun _ y => (y.2.table id).isSome = b) x := by
  refine wp_only hp (fun e y b z he hy hs => ?_) hx
  rcases within_step he hs with hsame | ⟨c, -, heffect⟩ | ⟨dir, tree, -, hset⟩ | ⟨stream, hsame⟩
  · rw [hsame]
    exact hy
  · exact (effect_table heffect id).1.trans hy
  · obtain ⟨d, fs, -, -, hw⟩ := Machine.setReceived_some hset
    exact (congrArg Option.isSome (hw.tables id)).trans hy
  · rw [hsame]
    exact hy

end Programs

/-! ## One run -/

/-- A run is cut or fails before the disks are touched, or it carries out a plan whose classes
say of the disks what is so. -/
theorem run_carryOut (cli : Cli) (hcfg : cli.cfg = some cfg) {m : Machine D}
    {o : Option (Except Error Unit)} {z : Site D}
    (h : Run (onMachine cfg) (run cli) (({}, []), m) o z) :
    (z.2 = m ∧ ∀ u, o ≠ some (.ok u)) ∨
      ∃ y : Site D, y.2 = m ∧ Inv cfg.minPassphraseLen y.1 ∧ Ready y.1 ∧
        (∀ d ∈ z.1.1.plan.named, ClassTold m d.1 d.2) ∧
        Run (onMachine cfg) (carryOut cfg z.1.1.plan) y o z := by
  have hsurvey : wpOk (onMachine cfg) (fun y : Site D => y.2 = m) (survey cfg) (fun infos y =>
      Later (({}, []), m) y ∧ y.2 = m ∧ ∀ i ∈ infos, ClassTold m i.id i.diskClass) (({}, []), m) :=
    survey_spec (fun h _ hsame => hsame.trans h) rfl ⟨by simp, by simp⟩
  have hseen := quiet_spec ((survey_looking cfg).mono Looking.quiet)
    (inv_initial cfg.minPassphraseLen)
  unfold run at h
  rw [hcfg] at h
  change Run (onMachine cfg) ((survey cfg).bind _) _ _ _ at h
  rcases run_bind.mp h with ⟨rfl, hfirst⟩ | ⟨e, rfl, hfirst⟩ | ⟨infos, y, hfirst, hrest⟩
  · exact Or.inl ⟨hsurvey.1 z hfirst, nofun⟩
  · exact Or.inl ⟨hsurvey.1 z hfirst.toCut, nofun⟩
  obtain ⟨-, hy, htold⟩ := hsurvey.2 _ y hfirst infos rfl
  have hI : Inv cfg.minPassphraseLen y.1 := hseen.1 _ hfirst.ofBeside.toCut
  have hfollows : Follows ({}, []) y.1 := hseen.2 _ _ hfirst.ofBeside infos rfl
  rcases run_op.mp hrest with ⟨rfl, rfl⟩ | ⟨u, v, hs, hrest⟩
  · exact Or.inl ⟨hy, nofun⟩
  · obtain ⟨hIv, hready, -⟩ := listed_step hI (hfollows.calm.ready ready_initial) hs.1
    have hv : v.1.1.snapshot.disks = infos := by
      rw [show v.1.1 = y.1.1.mutate _ from hs.1.1]
      rfl
    -- the disks that are shown are not changed any more
    have hz : z.1.1.snapshot.disks = infos := by
      refine hrest.keepsOnly (J := fun w => w.1.1.snapshot.disks = infos)
        (fun e w b w' he hw hs => ?_) (carryOut_within _) hv
      exact (within_disks he hs).trans hw
    have hplan : z.1.1.plan = plan (classesOf infos) := by rw [World.plan, hz]
    refine Or.inr ⟨v, hs.2.trans hy, hIv, hready, fun d hd => ?_, hplan ▸ hrest⟩
    rw [hplan] at hd
    obtain ⟨i, hi, rfl⟩ := List.mem_map.mp (plan_named hd)
    exact htold i hi

/-- Nothing is open, mounted or repartitioned. -/
structure Machine.Booted (m : Machine D) : Prop where
  closed : m.mapper = none
  unmounted : ∀ dir, m.mounts dir = none
  settled : m.repartitioned = []

theorem Machine.Booted.apart (h : m.Booted) (id : String) : Apart id (m.disks id) m :=
  ⟨rfl, by simp [h.closed], by simp [h.unmounted]⟩

theorem luks_volume (h : ClassTold m id .luks) : ∃ c, m.volume id = some (.luks c) := by
  obtain ⟨c, hc⟩ := Option.isSome_iff_exists.mp h
  exact ⟨c, inner_eq_some.mp hc⟩

/-- A disk that is taken for a legacy one is one. -/
theorem legacy_disk (h : ClassTold m id .legacy) : ∃ fs, m.disks id = some ⟨true, .plain (.btrfs fs)⟩ := by
  obtain ⟨fs, hfs⟩ := Option.isSome_iff_exists.mp h
  exact ⟨fs, disk_of_part1 (Machine.fs_eq_some.mp hfs)⟩

/-- A disk that is taken for blank has no partition 1. -/
theorem blank_told (hm : m.Booted) (h : ClassTold m id .blank) : m.table id ≠ some true := by
  have hshown : id ∈ m.repartitioned ∨ false = (m.partition id).isSome := h
  rcases hshown with hmem | hpart
  · rw [hm.settled] at hmem
    cases hmem
  · exact fun htable => Bool.false_ne_true (hpart.trans (partition_isSome.mpr htable))

/-- The disk that is taken for the legacy one is not taken for blank. -/
theorem told_apart (hm : m.Booted) {d : String} (h : ClassTold m id .legacy)
    (h' : ClassTold m d .blank) : id ≠ d := by
  rintro rfl
  obtain ⟨fs, hdisk⟩ := legacy_disk h
  refine blank_told hm h' ?_
  rw [Machine.table, hdisk, Option.map_some]

theorem Machine.Booted.intact (hm : m.Booted) {fs : Btrfs D}
    (hdisk : m.disks id = some ⟨true, .plain (.btrfs fs)⟩) : Intact id fs.var m := by
  refine ⟨⟨fs, ?_, rfl⟩, by simp [hm.closed], by simp [hm.unmounted]⟩
  rw [Machine.fs_eq_some, Machine.content, Machine.partition, hdisk]
  rfl

/-! ## What a run may make of a disk -/

/-- What a run may have made of a disk, by the class that its plan takes the disk for. -/
def Changed (p : Plan) (log : List Event) (id : String) (disk₀ disk : Disk D) : Prop :=
  disk = disk₀ ∨
  (id, .luks) ∈ p.named ∧ (∃ c, disk₀.volume = .luks c) ∧ (Agreed log ∨
    disk.volume = disk₀.volume ∧ (disk₀.part1 = true → disk.part1 = true)) ∨
  (id, .legacy) ∈ p.named ∧ (∃ fs fs', disk₀ = ⟨true, .plain (.btrfs fs)⟩ ∧
    disk = ⟨true, .plain (.btrfs fs')⟩ ∧ fs'.var = fs.var) ∨
  (id, .blank) ∈ p.named ∧ disk₀.part1 = false

section Changes

variable {cli : Cli} {o : Option (Except Error Unit)} {z : Site D} {disk₀ : Disk D}

theorem run_attached (hcfg : cli.cfg = some cfg)
    (h : Run (onMachine cfg) (run cli) (({}, []), m) o z) :
    (z.2.table id).isSome = (m.table id).isSome := by
  rcases run_carryOut cli hcfg h with ⟨hsame, -⟩ | ⟨y, hy, -, -, -, hrun⟩
  · rw [hsame]
  · exact (attached_spec (carryOut_within _) (by rw [hy])).1 _ hrun.toCut

/-- The disk that is taken for the legacy one. -/
theorem legacy_changed (hm : m.Booted) {p : Plan} (htold : ∀ d ∈ p.named, ClassTold m d.1 d.2)
    {y : Site D} (hy : y.2 = m) (hrun : Run (onMachine cfg) (carryOut cfg p) y none z)
    (hnamed : (id, .legacy) ∈ p.named) :
    ∃ fs fs', m.disks id = some ⟨true, .plain (.btrfs fs)⟩ ∧
      z.2.disks id = some ⟨true, .plain (.btrfs fs')⟩ ∧ fs'.var = fs.var := by
  obtain ⟨fs, hdisk⟩ := legacy_disk (htold _ hnamed)
  have hluks : (id, .luks) ∉ p.named := by
    cases p <;> simp [Plan.named] at hnamed ⊢
  have hblank : (id, .blank) ∉ p.named :=
    fun hmem => told_apart hm (htold _ hnamed) (htold _ hmem) rfl
  have hend := (carryOut_intact hluks hblank (hy ▸ hm.intact hdisk)).1 _ hrun
  obtain ⟨fs', hfs', hvar⟩ := hend.legacy
  exact ⟨fs, fs', hdisk, disk_of_part1 (Machine.fs_eq_some.mp hfs'), hvar⟩

/-- The disk that is to be unlocked. -/
theorem luks_changed {p : Plan} {y : Site D} (hy : y.2 = m) (hI : Inv cfg.minPassphraseLen y.1)
    (hready : Ready y.1) (hrun : Run (onMachine cfg) (carryOut cfg p) y none z)
    (hnamed : (id, .luks) ∈ p.named) : Agreed z.1.2 ∨ m.Holds z.2 := by
  cases p with
  | unlock j => exact (unlock_kept j hI hready (hy ▸ Machine.Holds.refl m)).1 _ hrun
  | _ => simp [Plan.named] at hnamed

/-- What the plan of a run makes of a disk that is attached. -/
theorem carryOut_changes (hm : m.Booted) {p : Plan} (htold : ∀ d ∈ p.named, ClassTold m d.1 d.2)
    {y : Site D} (hy : y.2 = m) (hI : Inv cfg.minPassphraseLen y.1) (hready : Ready y.1)
    (hrun : Run (onMachine cfg) (carryOut cfg p) y none z) {disk : Disk D}
    (hdisk : m.disks id = some disk₀) (hend : z.2.disks id = some disk) :
    Changed p z.1.2 id disk₀ disk := by
  by_cases hluks : (id, .luks) ∈ p.named
  · obtain ⟨c, hc⟩ := luks_volume (htold _ hluks)
    rw [Machine.volume, hdisk, Option.map_some] at hc
    refine Or.inr (Or.inl ⟨hluks, ⟨c, Option.some.inj hc⟩, ?_⟩)
    refine (luks_changed hy hI hready hrun hluks).imp_right fun holds => ?_
    obtain ⟨disk', hdisk', hvolume, hpart⟩ := holds id disk hend
    obtain rfl : disk' = disk₀ := Option.some.inj (hdisk'.symm.trans hdisk)
    exact ⟨hvolume, hpart⟩
  by_cases hlegacy : (id, .legacy) ∈ p.named
  · obtain ⟨fs, fs', hfirst, hlast, hvar⟩ := legacy_changed hm htold hy hrun hlegacy
    refine Or.inr (Or.inr (Or.inl ⟨hlegacy, fs, fs', ?_, ?_, hvar⟩))
    · exact Option.some.inj (hdisk.symm.trans hfirst)
    · exact Option.some.inj (hend.symm.trans hlast)
  by_cases hblank : (id, .blank) ∈ p.named
  · refine Or.inr (Or.inr (Or.inr ⟨hblank, ?_⟩))
    have htable := blank_told hm (htold _ hblank)
    rw [Machine.table, hdisk, Option.map_some] at htable
    simpa using htable
  · have hnone : ∀ c, (id, c) ∉ p.named := by
      intro c
      cases c with
      | luks => exact hluks
      | legacy => exact hlegacy
      | blank => exact hblank
      | foreign => cases p <;> simp [Plan.named]
    have hstart : Apart id (m.disks id) y.2 := by
      rw [hy]
      exact hm.apart id
    have hapart := (apart_spec (carryOut_within p) (commands_spare hnone) hstart).1 _ hrun
    exact Or.inl (Option.some.inj (hend.symm.trans (hapart.same.trans hdisk)))

/-- Wherever a run of the daemon ends or is cut: every disk is still attached, and nothing was made
of it but what the plan of the run may make of it. -/
theorem run_changes (cli : Cli) {cfg : Cfg} (hcfg : cli.cfg = some cfg) {m : Machine D}
    (hm : m.Booted) {o : Option (Except Error Unit)} {z : Site D}
    (h : Run (onMachine cfg) (run cli) (({}, []), m) o z) {id : String} {disk₀ : Disk D}
    (hdisk : m.disks id = some disk₀) :
    ∃ disk, z.2.disks id = some disk ∧ Changed z.1.1.plan z.1.2 id disk₀ disk := by
  have hattached : (z.2.table id).isSome := by
    rw [run_attached hcfg h, Machine.table, hdisk]
    rfl
  obtain ⟨disk, hend, -⟩ := Option.map_eq_some_iff.mp (Option.some_get hattached).symm
  refine ⟨disk, hend, ?_⟩
  rcases run_carryOut cli hcfg h with ⟨hsame, -⟩ | ⟨y, hy, hI, hready, htold, hrun⟩
  · rw [hsame, hdisk] at hend
    exact Or.inl (Option.some.inj hend).symm
  · exact carryOut_changes hm htold hy hI hready hrun.toCut hdisk hend

end Changes

/-- The one disk of an unlocked machine. -/
theorem run_changes_sample : ∃ disk, (unlocked "var").2.2.disks "scsi-0HC_Volume_1" = some disk ∧
    Changed (unlocked "var").2.1.1.plan (unlocked "var").2.1.2 "scsi-0HC_Volume_1"
      ⟨true, .luks (.btrfs { label := "var", var := some (.whole 1) })⟩ disk :=
  run_changes sampleCli rfl ⟨rfl, fun _ => rfl, rfl⟩ (unlocked_run "var") rfl

end Foundrix.VarDisk

import Foundrix.VarDisk.Within

/-!
# The legacy subvolume is left alone

Of a plain filesystem on partition 1 the daemon touches the label and `.migrate-src`, and
nothing else: whatever is planned, and wherever a run is cut, its subvolume `var` is what it
was.

* `Intact`: partition 1 of a disk is a plain filesystem with that `var`.
* `Cmd.LeavesVar`, `intact_spec`: the commands, and the programs, that leave it so.
* `carryOut_intact`: all plans do that do not unlock or format the disk.
-/

namespace Foundrix.VarDisk

open Effect Text

variable {D : Type} {cfg : Cfg} {m m' : Machine D} {id : String} {var : Option (Tree D)}

/-- Partition 1 of the disk holds a plain filesystem with this `var`. It is not opened, and
mounted nowhere but at `/old`. -/
structure Intact (id : String) (var : Option (Tree D)) (m : Machine D) : Prop where
  legacy : ∃ fs, m.fs (.part1 id) = some fs ∧ fs.var = var
  closed : m.mapper ≠ some id
  mounted : ∀ dir, m.mounts dir = some (.part1 id) → dir = .old

theorem fs_of_same (h : m'.disks id = m.disks id) : m'.fs (.part1 id) = m.fs (.part1 id) := by
  simp only [Machine.fs, Machine.content, Machine.partition, h]

/-- The disk is the same, and neither opened nor mounted anew. -/
theorem Intact.of_same (h : Intact id var m) (hdisk : m'.disks id = m.disks id)
    (hmapper : m'.mapper ≠ some id)
    (hmounted : ∀ dir, m'.mounts dir = some (.part1 id) → dir = .old) : Intact id var m' :=
  ⟨by rw [fs_of_same hdisk]; exact h.legacy, hmapper, hmounted⟩

/-- A filesystem was written; if it is this one, its `var` is the same. -/
theorem Intact.wrote {d : Device} {old : Content D} {fs' : Btrfs D} (h : Intact id var m)
    (hold : m.content d = some old) (hw : m.Wrote d (.btrfs fs') m')
    (hvar : d = .part1 id → ∃ fs, old = .btrfs fs ∧ fs'.var = fs.var) : Intact id var m' := by
  have hmapper : m'.mapper ≠ some id := hw.mapper ▸ h.closed
  have hmounted : ∀ dir, m'.mounts dir = some (.part1 id) → dir = .old := hw.mounts ▸ h.mounted
  by_cases hd : d = .part1 id
  · obtain ⟨fs, rfl, hsame⟩ := hvar hd
    subst hd
    obtain ⟨fs₀, hfs₀, hvar₀⟩ := h.legacy
    obtain rfl : fs₀ = fs := Option.some.inj (hfs₀.symm.trans (Machine.fs_eq_some.mpr hold))
    exact ⟨⟨fs', hw.fs, hsame.trans hvar₀⟩, hmapper, hmounted⟩
  · refine h.of_same (hw.others id fun hof => ?_) hmapper hmounted
    cases d with
    | disk j => cases hold
    | part1 j => exact hd (congrArg Device.part1 (Option.some.inj hof))
    | mapper => exact h.closed hof

/-! ## Commands -/

/-- The commands that leave `var` of the plain filesystem of a disk. -/
def Cmd.LeavesVar (id : String) : Cmd → Prop
  | .sgdiskZap d | .sgdiskNew d | .sgdiskRegrow d => d ≠ .disk id
  | .luksFormat d | .luksOpen _ d => d ≠ .part1 id
  | .mkfs d => d = .mapper
  | .mount d dir => d = .mapper ∨ dir = .old
  | .subvolCreate dir s | .subvolDelete dir s | .subvolSnapshot _ _ _ dir s =>
    dir ≠ .old ∨ s = .migrateSrc
  | _ => True

theorem set_migrateSrc_var (fs : Btrfs D) (tree : Option (Tree D)) :
    (fs.set .migrateSrc tree).var = fs.var := rfl

theorem Intact.setPart1 {j : String} {present : Bool} (h : Intact id var m) (hj : j ≠ id)
    (hset : m.setPart1 j present = some m') : Intact id var m' := by
  obtain ⟨disk, -, rfl⟩ := Machine.setPart1_some hset
  refine h.of_same ?_ h.closed h.mounted
  rw [show ({ m.setDisk j { disk with part1 := present } with
    repartitioned := j :: m.repartitioned } : Machine D).disks id = (m.setDisk j _).disks id from rfl,
    Machine.setDisk_disks, if_neg (Ne.symm hj)]

/-- What such a command writes to the partition has the `var` of what was there. -/
theorem Intact.writes {c : Cmd} {old : Content D} {fs' : Btrfs D} (h : Intact id var m)
    (hc : c.LeavesVar id) (hw : c.Writes cfg m (.part1 id) old fs') :
    ∃ fs, old = .btrfs fs ∧ fs'.var = fs.var := by
  -- below `/old`, where alone the partition is mounted, only `.migrate-src` is changed
  have sub : ∀ {dir : Dir} {s : Subvol} {fs : Btrfs D} {tree : Option (Tree D)},
      dir ≠ .old ∨ s = .migrateSrc → m.mounts dir = some (.part1 id) →
        (fs.set s tree).var = fs.var := by
    rintro dir s fs tree (hdir | rfl) hd
    · exact absurd (h.mounted dir hd) hdir
    · exact set_migrateSrc_var fs tree
  cases c with
  | mkfs d =>
    obtain ⟨hd, -⟩ := hw
    cases hc.symm.trans hd
  | setLabel d =>
    obtain ⟨-, fs, hold, rfl⟩ := hw
    exact ⟨fs, hold, rfl⟩
  | subvolCreate dir s =>
    obtain ⟨hd, fs, hold, rfl⟩ := hw
    exact ⟨fs, hold, sub hc hd⟩
  | subvolSnapshot readonly src s dir t =>
    obtain ⟨hd, fs, tree, hold, -, rfl⟩ := hw
    exact ⟨fs, hold, sub hc hd⟩
  | subvolDelete dir s =>
    obtain ⟨hd, fs, hold, rfl⟩ := hw
    exact ⟨fs, hold, sub hc hd⟩
  | _ => exact hw.elim

theorem Cmd.LeavesVar.tables {c : Cmd} {j : String} {present : Bool} (hc : c.LeavesVar id)
    (ht : c.Tables j present) : j ≠ id := by
  rintro rfl
  cases c with
  | sgdiskZap d => exact hc ht.1
  | sgdiskNew d => exact hc ht.1
  | sgdiskRegrow d => exact hc ht.1
  | _ => exact ht.elim

/-- Such a command does not open the partition, and mounts it nowhere but at `/old`. -/
theorem Intact.sets {c : Cmd} {mapper : Option String} {mounts : Dir → Option Device}
    (h : Intact id var m) (hc : c.LeavesVar id) (hs : c.Sets m mapper mounts) :
    Intact id var { m with mapper, mounts } := by
  have same : mapper = m.mapper → mounts = m.mounts → Intact id var { m with mapper, mounts } := by
    rintro rfl rfl
    exact h
  cases c with
  | luksOpen persistent d =>
    obtain ⟨j, rfl, -, rfl, rfl⟩ := hs
    exact h.of_same rfl (fun hj => hc (congrArg Device.part1 (Option.some.inj hj))) h.mounted
  | luksClose =>
    obtain ⟨rfl, rfl⟩ := hs
    exact h.of_same rfl (Option.some_ne_none id).symm h.mounted
  | mount d dir =>
    obtain ⟨rfl, rfl⟩ := hs
    refine h.of_same rfl h.closed fun dir' hdir' => ?_
    by_cases hsame : dir' = dir
    · subst hsame
      rcases hc with rfl | hold
      · simp at hdir'
      · exact hold
    · exact h.mounted dir' (by simpa [hsame] using hdir')
  | umount dir =>
    obtain ⟨rfl, rfl⟩ := hs
    refine h.of_same rfl h.closed fun dir' hdir' => ?_
    by_cases hsame : dir' = dir
    · simp [hsame] at hdir'
    · exact h.mounted dir' (by simpa [hsame] using hdir')
  | _ => exact same hs.1 hs.2

theorem Intact.effect {c : Cmd} (h : Intact id var m) (hc : c.LeavesVar id)
    (heffect : c.effect cfg m = some m') : Intact id var m' := by
  rcases effect_cases heffect with ⟨d, old, fs, hold, hwrites, hw⟩ | ⟨j, present, ht, hset⟩ |
    ⟨j, rfl, -, hset⟩ | ⟨mapper, mounts, hs, rfl⟩
  · exact h.wrote hold hw fun hd => h.writes hc (hd ▸ hwrites)
  · exact h.setPart1 (hc.tables ht) hset
  · obtain ⟨disk, -, rfl⟩ := Machine.setVolume_some hset
    refine h.of_same ?_ h.closed h.mounted
    rw [Machine.setDisk_disks, if_neg fun hj : id = j => hc (congrArg Device.part1 hj.symm)]
  · exact h.sets hc hs

/-! ## Programs -/

variable {cs : List Cmd} {x : Site D} {α : Type}

theorem intact_spec {p : Daemon α} (hp : p.Only (Within cs)) (hcs : ∀ c ∈ cs, c.LeavesVar id)
    (hx : Intact id var x.2) :
    wp (onMachine cfg) (fun y => Intact id var y.2) p (fun _ y => Intact id var y.2) x := by
  refine wp_only hp (fun e y b z he hy hs => ?_) hx
  rcases within_step he hs with hsame | ⟨c, hc, heffect⟩ | ⟨dir, tree, -, hset⟩ | ⟨stream, hsame⟩
  · rw [hsame]
    exact hy
  · exact hy.effect (hcs c hc) heffect
  · obtain ⟨d, fs, -, hfs, hw⟩ := Machine.setReceived_some hset
    exact hy.wrote (Machine.fs_eq_some.mp hfs) hw fun _ => ⟨fs, rfl, set_migrateSrc_var fs tree⟩
  · rw [hsame]
    exact hy.of_same rfl hy.closed hy.mounted

/-- A plan leaves the disk alone that it neither unlocks nor formats. -/
theorem commands_leaveVar {p : Plan} (hluks : (id, DiskClass.luks) ∉ p.named)
    (hblank : (id, DiskClass.blank) ∉ p.named) : ∀ c ∈ p.commands, c.LeavesVar id := by
  cases p with
  | unlock j =>
    have hj : j ≠ id := fun hj => hluks (by simp [Plan.named, hj])
    simp [Plan.commands, openCmds, varCmds, Cmd.LeavesVar, hj]
  | bootLegacy j => simp [Plan.commands, labelCmds, Cmd.LeavesVar]
  | migrate legacy blank =>
    have hj : blank ≠ id := fun hj => hblank (by simp [Plan.named, hj])
    simp [Plan.commands, inspectCmds, formatCmds, copyCmds, streamCmds, cleanCmds, Cmd.LeavesVar, hj]
  | provision j =>
    have hj : j ≠ id := fun hj => hblank (by simp [Plan.named, hj])
    simp [Plan.commands, formatCmds, varCmds, Cmd.LeavesVar, hj]
  | block reason => simp [Plan.commands]
  | noDisks => simp [Plan.commands]

theorem carryOut_intact {p : Plan} (hluks : (id, DiskClass.luks) ∉ p.named)
    (hblank : (id, DiskClass.blank) ∉ p.named) (hx : Intact id var x.2) :
    wp (onMachine cfg) (fun y => Intact id var y.2) (carryOut cfg p)
      (fun _ y => Intact id var y.2) x :=
  intact_spec (carryOut_within p) (commands_leaveVar hluks hblank) hx

end Foundrix.VarDisk

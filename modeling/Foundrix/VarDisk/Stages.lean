import Foundrix.VarDisk.Legacy

/-!
# The stages of the new disk

Wherever a migration is cut, the new disk holds what it held before, or an encrypted volume on
partition 1 that is empty, or one with a filesystem, whose subvolume `var` is a complete copy if
there is one.

* `Machine.volume`, `Machine.table`, `Machine.Wrote.disk`: the volume and the partition table of
  a disk, and what writing to a device does.
* `table_spec`: the programs that leave a partition table.
* `Stage`, `Staged`, `staged_spec`: the stages, and the programs that keep within them.
-/

namespace Foundrix.VarDisk

open Effect Text

variable {D : Type} {cfg : Cfg} {m m' : Machine D} {id : String}

/-- What is at the place of partition 1 of an attached disk. -/
def Machine.volume (m : Machine D) (id : String) : Option (Volume D) :=
  (m.disks id).map Disk.volume

/-- Whether the table of an attached disk has partition 1. -/
def Machine.table (m : Machine D) (id : String) : Option Bool := (m.disks id).map Disk.part1

/-- A volume with a filesystem, and one with another filesystem in its place. -/
def Volume.Altered (fs fs' : Btrfs D) (v v' : Volume D) : Prop :=
  v = .plain (.btrfs fs) ∧ v' = .plain (.btrfs fs') ∨ v = .luks (.btrfs fs) ∧ v' = .luks (.btrfs fs')

theorem disk_of_part1 {c : Content D} (h : m.content (.part1 id) = some c) :
    m.disks id = some ⟨true, .plain c⟩ := by
  obtain ⟨v, hv, h⟩ := Option.bind_eq_some_iff.mp h
  obtain ⟨⟨present, v'⟩, hdisk, hpart⟩ := Option.bind_eq_some_iff.mp hv
  cases present with
  | false => cases hpart
  | true =>
    obtain rfl : v' = v := Option.some.inj hpart
    cases v' with
    | luks inner => cases h
    | plain c' =>
      obtain rfl : c' = c := Option.some.inj h
      exact hdisk

theorem inner_eq_some {c : Content D} : m.inner id = some c ↔ m.volume id = some (.luks c) := by
  unfold Machine.inner Machine.volume
  rcases m.disks id with _ | ⟨present, _ | inner⟩ <;> simp

theorem volume_of_mapper {c : Content D} (hmapper : m.mapper = some id)
    (h : m.content .mapper = some c) : m.volume id = some (.luks c) := by
  have hinner : m.mapper.bind m.inner = some c := h
  rw [hmapper] at hinner
  exact inner_eq_some.mp hinner

/-- Where a device was overwritten, the disk it is on holds the new content. -/
theorem Machine.Wrote.disk {d : Device} {c c' : Content D} (hw : m.Wrote d c' m')
    (hd : m.content d = some c) (id : String) : m'.disks id = m.disks id ∨
      d = .part1 id ∧ m.disks id = some ⟨true, .plain c⟩ ∧ m'.disks id = some ⟨true, .plain c'⟩ ∨
      d = .mapper ∧ m.mapper = some id ∧
        ∃ part1, m.disks id = some ⟨part1, .luks c⟩ ∧ m'.disks id = some ⟨part1, .luks c'⟩ := by
  by_cases hof : m.diskOf d = some id
  · cases d with
    | disk j => cases hd
    | part1 j =>
      obtain rfl : j = id := Option.some.inj hof
      exact Or.inr (Or.inl ⟨rfl, disk_of_part1 hd, disk_of_part1 hw.content⟩)
    | mapper =>
      have hmapper : m.mapper = some id := hof
      have hold : m.volume id = some (.luks c) := volume_of_mapper hmapper hd
      have hnew : m'.volume id = some (.luks c') :=
        volume_of_mapper (hw.mapper.trans hmapper) hw.content
      obtain ⟨⟨part1, v⟩, hdisk, rfl⟩ := Option.map_eq_some_iff.mp hold
      obtain ⟨⟨part1', v'⟩, hdisk', rfl⟩ := Option.map_eq_some_iff.mp hnew
      have hpart : part1' = part1 := by simpa [hdisk, hdisk'] using hw.tables id
      subst hpart
      exact Or.inr (Or.inr ⟨rfl, hmapper, part1', hdisk, hdisk'⟩)
  · exact Or.inl (hw.others id hof)

/-- Where a filesystem was changed, so was the volume it is on. -/
theorem Machine.Wrote.altered {d : Device} {fs fs' : Btrfs D} (hw : m.Wrote d (.btrfs fs') m')
    (hfs : m.content d = some (.btrfs fs)) (id : String) : m'.disks id = m.disks id ∨
      ∃ part1 v v', m.disks id = some ⟨part1, v⟩ ∧ m'.disks id = some ⟨part1, v'⟩ ∧
        v.Altered fs fs' v' := by
  refine (hw.disk hfs id).imp_right ?_
  rintro (⟨-, hold, hnew⟩ | ⟨-, -, part1, hold, hnew⟩)
  · exact ⟨true, _, _, hold, hnew, Or.inl ⟨rfl, rfl⟩⟩
  · exact ⟨part1, _, _, hold, hnew, Or.inr ⟨rfl, rfl⟩⟩

theorem setDisk_other {j : String} {disk : Disk D} (h : id ≠ j) :
    (m.setDisk j disk).disks id = m.disks id := by
  rw [Machine.setDisk_disks, if_neg h]

theorem setDisk_self {disk : Disk D} : (m.setDisk id disk).disks id = some disk := by
  rw [Machine.setDisk_disks, if_pos rfl]

/-! ## Partition tables -/

theorem partition_isSome : (m.partition id).isSome ↔ m.table id = some true := by
  unfold Machine.partition Machine.table
  rcases m.disks id with _ | ⟨_ | _, v⟩ <;> simp

theorem table_of_disk (h : m'.disks id = m.disks id) : m'.table id = m.table id := by
  rw [Machine.table, Machine.table, h]

/-- A command leaves the partition table of a disk, or is one that changes it; it attaches and
detaches nothing. -/
theorem effect_table {c : Cmd} (h : c.effect cfg m = some m') (id : String) :
    (m'.table id).isSome = (m.table id).isSome ∧
      (m'.table id = m.table id ∨ ∃ present, c.Tables id present) := by
  have same : m'.table id = m.table id → (m'.table id).isSome = (m.table id).isSome ∧
      (m'.table id = m.table id ∨ ∃ present, c.Tables id present) :=
    fun h => ⟨by rw [h], Or.inl h⟩
  rcases effect_cases h with ⟨d, old, fs, -, -, hw⟩ | ⟨j, present, ht, hset⟩ | ⟨j, -, -, hset⟩ |
    ⟨mapper, mounts, -, rfl⟩
  · exact same (hw.tables id)
  · obtain ⟨disk, hdisk, rfl⟩ := Machine.setPart1_some hset
    by_cases hid : id = j
    · subst hid
      refine ⟨?_, Or.inr ⟨present, ht⟩⟩
      have hnew : (m.setDisk id { disk with part1 := present }).table id = some present := by
        rw [Machine.table, setDisk_self, Option.map_some]
      have hold : m.table id = some disk.part1 := by rw [Machine.table, hdisk, Option.map_some]
      rw [hold]
      exact Option.isSome_iff_exists.mpr ⟨present, hnew⟩
    · exact same (table_of_disk (setDisk_other hid))
  · obtain ⟨disk, hdisk, rfl⟩ := Machine.setVolume_some hset
    by_cases hid : id = j
    · subst hid
      refine same ?_
      rw [Machine.table, Machine.table, setDisk_self, hdisk]
      rfl
    · exact same (table_of_disk (setDisk_other hid))
  · exact same rfl

section Table

variable {cs : List Cmd} {x : Site D} {α : Type} {table : Option Bool}

/-- The partition table of a disk that is not attached, or that no command of a program changes,
is what it was. -/
theorem table_spec {p : Daemon α} (hp : p.Only (Within cs))
    (hcs : table.isSome → ∀ c ∈ cs, ∀ present, ¬ c.Tables id present) (hx : x.2.table id = table) :
    wpOk (onMachine cfg) (fun y => y.2.table id = table) p (fun _ y => y.2.table id = table) x := by
  refine wp_mono (wp_only hp (fun e y b z he hy hs => ?_) hx) fun _ _ h _ _ _ => h
  rcases within_step he hs with hsame | ⟨c, hc, heffect⟩ | ⟨dir, tree, -, hset⟩ | ⟨stream, hsame⟩
  · rw [hsame]
    exact hy
  · obtain ⟨hattached, hsame | ⟨present, ht⟩⟩ := effect_table heffect id
    · exact hsame.trans hy
    · rw [hy] at hattached
      cases table with
      | none => exact Option.not_isSome_iff_eq_none.mp (by rw [hattached]; exact Bool.false_ne_true)
      | some b => exact (hcs rfl c hc present ht).elim
  · obtain ⟨d, fs, -, -, hw⟩ := Machine.setReceived_some hset
    exact (hw.tables id).trans hy
  · rw [hsame]
    exact hy

end Table

/-! ## Stages -/

/-- The volume still holds what another one held, up to the label and `.migrate-src` of a
filesystem. -/
def Was (v₀ v : Volume D) : Prop := v = v₀ ∨ ∃ fs₀ fs, v₀.Altered fs₀ fs v ∧ fs.var = fs₀.var

/-- What a disk holds whose volume was `v₀`, wherever a migration to it was cut. Only `copies`
become its subvolume `var`. -/
inductive Stage (copies : Tree D → Prop) (v₀ : Volume D) : Disk D → Prop where
  | untouched {part1 : Bool} {v : Volume D} (h : Was v₀ v) : Stage copies v₀ ⟨part1, v⟩
  | encrypted : Stage copies v₀ ⟨true, .luks .blank⟩
  | formatted {fs : Btrfs D} (hvar : ∀ tree, fs.var = some tree → copies tree) :
    Stage copies v₀ ⟨true, .luks (.btrfs fs)⟩

variable {copies copies' : Tree D → Prop} {v₀ v v' : Volume D} {part1 : Bool}

theorem Stage.mono {disk : Disk D} (h : Stage copies v₀ disk)
    (hle : ∀ tree, copies tree → copies' tree) : Stage copies' v₀ disk := by
  cases h with
  | untouched h => exact .untouched h
  | encrypted => exact .encrypted
  | formatted hvar => exact .formatted fun tree htree => hle tree (hvar tree htree)

/-- A disk without partition 1 is one that no migration has touched. -/
theorem Stage.was {disk : Disk D} (h : Stage copies v₀ disk) (hpart : disk.part1 = false) :
    Was v₀ disk.volume := by
  cases h with
  | untouched h => exact h
  | encrypted => cases hpart
  | formatted hvar => cases hpart

theorem Stage.parted (h : Stage copies v₀ ⟨part1, v⟩) : Stage copies v₀ ⟨true, v⟩ := by
  cases h with
  | untouched h => exact .untouched h
  | encrypted => exact .encrypted
  | formatted hvar => exact .formatted hvar

theorem Was.altered {fs fs' : Btrfs D} (h : Was v₀ v) (ha : v.Altered fs fs' v')
    (hvar : fs'.var = fs.var) : Was v₀ v' := by
  rcases h with rfl | ⟨fs₀, fs₁, ha₀, hvar₀⟩
  · exact Or.inr ⟨fs, fs', ha, hvar⟩
  · refine Or.inr ⟨fs₀, fs', ?_⟩
    rcases ha₀ with ⟨hv₀, hv⟩ | ⟨hv₀, hv⟩ <;> rcases ha with ⟨hv', hnew⟩ | ⟨hv', hnew⟩ <;>
      cases hv.symm.trans hv'
    · exact ⟨Or.inl ⟨hv₀, hnew⟩, hvar.trans hvar₀⟩
    · exact ⟨Or.inr ⟨hv₀, hnew⟩, hvar.trans hvar₀⟩

theorem Stage.altered {fs fs' : Btrfs D} (h : Stage copies v₀ ⟨part1, v⟩)
    (ha : v.Altered fs fs' v') (hvar : fs'.var = fs.var) : Stage copies v₀ ⟨part1, v'⟩ := by
  cases h with
  | untouched h => exact .untouched (h.altered ha hvar)
  | encrypted => rcases ha with ⟨hv, -⟩ | ⟨hv, -⟩ <;> cases hv
  | formatted hcopy =>
    rcases ha with ⟨hv, -⟩ | ⟨hv, rfl⟩
    · cases hv
    · cases hv
      exact .formatted (hvar ▸ hcopy)

/-- The disk is at one of the stages, and is open only where it has a partition. -/
structure Staged (copies : Tree D → Prop) (v₀ : Volume D) (id : String) (m : Machine D) :
    Prop where
  stage : ∀ disk, m.disks id = some disk → Stage copies v₀ disk
  opened : m.mapper = some id → (m.partition id).isSome

namespace Staged

theorem of_disk (h : Staged copies v₀ id m) (hdisk : m'.disks id = m.disks id)
    (hmapper : m'.mapper = m.mapper) : Staged copies v₀ id m' := by
  refine ⟨hdisk ▸ h.stage, fun hopen => ?_⟩
  rw [Machine.partition, hdisk]
  exact h.opened (hmapper ▸ hopen)

/-- A filesystem was written; if there was one, its `var` is the same, and otherwise it is on an
encrypted volume and has none. -/
theorem wrote {d : Device} {old : Content D} {fs' : Btrfs D} (h : Staged copies v₀ id m)
    (hold : m.content d = some old) (hw : m.Wrote d (.btrfs fs') m')
    (hvar : (∃ fs, old = .btrfs fs ∧ fs'.var = fs.var) ∨ d = .mapper ∧ fs'.var = none) :
    Staged copies v₀ id m' := by
  refine ⟨fun disk hdisk => ?_, fun hopen => ?_⟩
  · rcases hvar with ⟨fs, rfl, hvar⟩ | ⟨rfl, hnone⟩
    · rcases hw.altered hold id with hsame | ⟨part1, v, v', hwas, his, ha⟩
      · exact h.stage disk (hsame ▸ hdisk)
      · obtain rfl := Option.some.inj (his.symm.trans hdisk)
        exact (h.stage _ hwas).altered ha hvar
    · rcases hw.disk hold id with hsame | ⟨hno, -⟩ | ⟨-, hmapper, part1, hwas, his⟩
      · exact h.stage disk (hsame ▸ hdisk)
      · cases hno
      · obtain rfl := Option.some.inj (his.symm.trans hdisk)
        have hpart : part1 = true := by
          simpa [Machine.table, hwas] using partition_isSome.mp (h.opened hmapper)
        subst hpart
        exact .formatted fun tree htree => by rw [hnone] at htree; cases htree
  · rw [partition_isSome, show m'.table id = m.table id from hw.tables id, ← partition_isSome]
    exact h.opened (hw.mapper ▸ hopen)

theorem parted {j : String} (h : Staged copies v₀ id m) (hset : m.setPart1 j true = some m') :
    Staged copies v₀ id m' := by
  obtain ⟨⟨part1, v⟩, hdisk, rfl⟩ := Machine.setPart1_some hset
  by_cases hid : id = j
  · subst hid
    refine ⟨fun disk hnew => ?_, fun _ => partition_isSome.mpr ?_⟩
    · obtain rfl := Option.some.inj (setDisk_self.symm.trans hnew)
      exact (h.stage _ hdisk).parted
    · exact congrArg (Option.map Disk.part1) setDisk_self
  · exact h.of_disk (setDisk_other hid) rfl

/-- The table of a disk without partitions loses none. -/
theorem zapped (h : Staged copies v₀ id m) (hnone : m.table id ≠ some true)
    (hset : m.setPart1 id false = some m') : Staged copies v₀ id m' := by
  obtain ⟨⟨part1, v⟩, hdisk, rfl⟩ := Machine.setPart1_some hset
  obtain rfl : part1 = false := by simpa [Machine.table, hdisk] using hnone
  exact h.of_disk (setDisk_self.trans hdisk.symm) rfl

theorem formatted {j : String} (h : Staged copies v₀ id m) (hpart : (m.partition j).isSome)
    (hset : m.setVolume j (.luks .blank) = some m') : Staged copies v₀ id m' := by
  obtain ⟨⟨part1, v⟩, hdisk, rfl⟩ := Machine.setVolume_some hset
  by_cases hid : id = j
  · subst hid
    obtain rfl : part1 = true := by simpa [Machine.table, hdisk] using partition_isSome.mp hpart
    refine ⟨fun disk hnew => ?_, fun _ => partition_isSome.mpr ?_⟩
    · obtain rfl := Option.some.inj (setDisk_self.symm.trans hnew)
      exact .encrypted
    · exact congrArg (Option.map Disk.part1) setDisk_self
  · exact h.of_disk (setDisk_other hid) rfl

end Staged

/-- The commands that leave every `var`, format nothing but the mapper, and keep the partition
table of a disk. -/
def Cmd.SparesVar (id : String) : Cmd → Prop
  | .sgdiskZap d => d ≠ .disk id
  | .mkfs d => d = .mapper
  | .subvolCreate _ s | .subvolSnapshot _ _ _ _ s | .subvolDelete _ s => s = .migrateSrc
  | _ => True

theorem Cmd.SparesVar.writes {c : Cmd} {d : Device} {old : Content D} {fs' : Btrfs D}
    (hc : c.SparesVar id) (hw : c.Writes cfg m d old fs') :
    (∃ fs, old = .btrfs fs ∧ fs'.var = fs.var) ∨ d = .mapper ∧ fs'.var = none := by
  cases c with
  | mkfs d' =>
    obtain ⟨rfl, rfl⟩ := hw
    exact Or.inr ⟨hc, rfl⟩
  | setLabel d' =>
    obtain ⟨-, fs, hold, rfl⟩ := hw
    exact Or.inl ⟨fs, hold, rfl⟩
  | subvolCreate dir s =>
    obtain rfl : s = .migrateSrc := hc
    obtain ⟨-, fs, hold, rfl⟩ := hw
    exact Or.inl ⟨fs, hold, set_migrateSrc_var fs _⟩
  | subvolSnapshot readonly src s dir t =>
    obtain rfl : t = .migrateSrc := hc
    obtain ⟨-, fs, tree, hold, -, rfl⟩ := hw
    exact Or.inl ⟨fs, hold, set_migrateSrc_var fs _⟩
  | subvolDelete dir s =>
    obtain rfl : s = .migrateSrc := hc
    obtain ⟨-, fs, hold, rfl⟩ := hw
    exact Or.inl ⟨fs, hold, set_migrateSrc_var fs _⟩
  | _ => exact hw.elim

/-- Such a command takes the partition of another disk at most. -/
theorem Cmd.SparesVar.tables {c : Cmd} {j : String} {present : Bool} (hc : c.SparesVar id)
    (ht : c.Tables j present) : present = true ∨ id ≠ j := by
  cases c with
  | sgdiskZap d =>
    refine Or.inr fun hid => hc ?_
    rw [hid]
    exact ht.1
  | sgdiskNew d => exact Or.inl ht.2
  | sgdiskRegrow d => exact Or.inl ht.2
  | _ => exact ht.elim

/-- What is opened has a partition. -/
theorem Staged.sets {c : Cmd} {mapper : Option String} {mounts : Dir → Option Device}
    (h : Staged copies v₀ id m) (hs : c.Sets m mapper mounts) :
    Staged copies v₀ id { m with mapper, mounts } := by
  refine ⟨h.stage, fun hopen => ?_⟩
  have same : mapper = m.mapper → (m.partition id).isSome := fun hmapper => h.opened (hmapper ▸ hopen)
  cases c with
  | luksOpen persistent d =>
    obtain ⟨j, -, hpart, hmapper, -⟩ := hs
    obtain rfl : j = id := Option.some.inj (hmapper.symm.trans hopen)
    exact hpart
  | luksClose => cases hs.1.symm.trans hopen
  | _ => exact same hs.1

theorem Staged.effect {c : Cmd} (h : Staged copies v₀ id m) (hc : c.SparesVar id)
    (heffect : c.effect cfg m = some m') : Staged copies v₀ id m' := by
  rcases effect_cases heffect with ⟨d, old, fs, hold, hwrites, hw⟩ | ⟨j, present, ht, hset⟩ |
    ⟨j, -, hpart, hset⟩ | ⟨mapper, mounts, hs, rfl⟩
  · exact h.wrote hold hw (hc.writes hwrites)
  · rcases hc.tables ht with rfl | hid
    · exact h.parted hset
    · obtain ⟨disk, -, rfl⟩ := Machine.setPart1_some hset
      exact h.of_disk (setDisk_other hid) rfl
  · exact h.formatted hpart hset
  · exact h.sets hs

/-! ## Programs that keep the stage -/

variable {cs : List Cmd} {x : Site D} {α : Type}

theorem staged_spec {p : Daemon α} (hp : p.Only (Within cs)) (hcs : ∀ c ∈ cs, c.SparesVar id)
    (hx : Staged copies v₀ id x.2) :
    wp (onMachine cfg) (fun y => Staged copies v₀ id y.2) p (fun _ y => Staged copies v₀ id y.2) x := by
  refine wp_only hp (fun e y b z he hy hs => ?_) hx
  rcases within_step he hs with hsame | ⟨c, hc, heffect⟩ | ⟨dir, tree, -, hset⟩ | ⟨stream, hsame⟩
  · rw [hsame]
    exact hy
  · exact hy.effect (hcs c hc) heffect
  · obtain ⟨d, fs, -, hfs, hw⟩ := Machine.setReceived_some hset
    exact hy.wrote (Machine.fs_eq_some.mp hfs) hw (Or.inl ⟨fs, rfl, set_migrateSrc_var fs tree⟩)
  · rw [hsame]
    exact hy.of_disk rfl rfl

end Foundrix.VarDisk

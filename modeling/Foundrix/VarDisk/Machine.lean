import Mathlib.Data.Option.Basic
import Mathlib.Logic.Function.Basic
import Foundrix.VarDisk.History

/-!
# The machine under the daemon

The disks of a machine with what is on them, and what the commands of the daemon do to
them. Only their outcome is fixed: a command that is known to have succeeded has taken full
effect, any other has taken full effect or none, and `btrfs receive` may leave a part.

* `Disk`, `Machine`: the disks, the opened volume and the mounted filesystems.
* `Cmd.effect`: the full effect of a command, where it can succeed.
* `Truthful`, `MachineStep`: what the daemon is told, and what an operation may do.
* `onMachine`: the runs of the daemon on a machine.
-/

namespace Foundrix.VarDisk

open Text Effect

/-! ## Disks -/

/-- The files of a subvolume. -/
inductive Tree (D : Type) where
  | empty
  | whole (files : D)
  /-- What a stream has left that was not received to its end. -/
  | torn
deriving DecidableEq, Repr

structure Btrfs (D : Type) where
  label : String
  var : Option (Tree D) := none
  migrateSrc : Option (Tree D) := none
deriving DecidableEq, Repr

namespace Btrfs

variable {D : Type}

def get (fs : Btrfs D) : Subvol → Option (Tree D)
  | .var => fs.var
  | .migrateSrc => fs.migrateSrc

def set (fs : Btrfs D) (s : Subvol) (tree : Option (Tree D)) : Btrfs D :=
  match s with
  | .var => { fs with var := tree }
  | .migrateSrc => { fs with migrateSrc := tree }

end Btrfs

inductive Content (D : Type) where
  /-- There is no signature. -/
  | blank
  | btrfs (fs : Btrfs D)
  | other
deriving DecidableEq, Repr

inductive Volume (D : Type) where
  | plain (c : Content D)
  | luks (inner : Content D)
deriving DecidableEq, Repr

structure Disk (D : Type) where
  /-- Whether the partition table has partition 1. -/
  part1 : Bool
  /-- What is at the place of partition 1, also where the table has lost it. -/
  volume : Volume D
deriving DecidableEq, Repr

/-! ## The machine -/

/-- What `btrfs send` reads. -/
structure Stream (D : Type) where
  source : Option (Tree D)
  /-- `btrfs send` has succeeded. -/
  sent : Bool := false
deriving DecidableEq, Repr

structure Machine (D : Type) where
  /-- The attached disks. -/
  disks : String → Option (Disk D)
  /-- The disk whose partition 1 is open. -/
  mapper : Option String := none
  mounts : Dir → Option Device := fun _ => none
  stream : Stream D := { source := none }
  /-- The disks that were given a new partition table since the boot. -/
  repartitioned : List String := []

namespace Machine

variable {D : Type} (m : Machine D)

def setDisk (id : String) (disk : Disk D) : Machine D :=
  { m with disks := Function.update m.disks id (some disk) }

/-- What partition 1 of a disk holds. -/
def partition (id : String) : Option (Volume D) :=
  (m.disks id).bind fun disk => if disk.part1 then some disk.volume else none

/-- What the encrypted volume at the place of partition 1 holds. -/
def inner (id : String) : Option (Content D) :=
  (m.disks id).bind fun disk =>
    match disk.volume with
    | .luks c => some c
    | .plain _ => none

/-- What a device holds that filesystems can be made on. -/
def content : Device → Option (Content D)
  | .disk _ => none
  | .part1 id => (m.partition id).bind fun volume =>
    match volume with
    | .plain c => some c
    | .luks _ => none
  | .mapper => m.mapper.bind m.inner

/-- Overwrite the volume of a disk. -/
def setVolume (id : String) (volume : Volume D) : Option (Machine D) :=
  (m.disks id).map fun disk => m.setDisk id { disk with volume }

def write (c : Content D) : Device → Option (Machine D)
  | .disk _ => none
  | .part1 id => m.setVolume id (.plain c)
  | .mapper => m.mapper.bind fun id => m.setVolume id (.luks c)

/-- The filesystem of a device. -/
def fs (d : Device) : Option (Btrfs D) :=
  (m.content d).bind fun c =>
    match c with
    | .btrfs fs => some fs
    | _ => none

/-- Change the filesystem of a device. -/
def setFs (d : Device) (f : Btrfs D → Option (Btrfs D)) : Option (Machine D) :=
  (m.fs d).bind fun fs => (f fs).bind fun fs' => m.write (.btrfs fs') d

/-- The subvolume `s` below a mount point. -/
def subvol (dir : Dir) (s : Subvol) : Option (Tree D) :=
  (m.mounts dir).bind fun d => (m.fs d).bind fun fs => fs.get s

/-- Put a subvolume below a mount point, where there is none of the name. -/
def addSubvol (dir : Dir) (s : Subvol) (tree : Tree D) : Option (Machine D) :=
  (m.mounts dir).bind fun d =>
    m.setFs d fun fs => if fs.get s = none then some (fs.set s (some tree)) else none

def dropSubvol (dir : Dir) (s : Subvol) : Option (Machine D) :=
  (m.mounts dir).bind fun d =>
    m.setFs d fun fs => if fs.get s = none then none else some (fs.set s none)

/-- Whatever a stream has left below a mount point. -/
def setReceived (dir : Dir) (tree : Option (Tree D)) : Option (Machine D) :=
  (m.mounts dir).bind fun d => m.setFs d fun fs => some (fs.set .migrateSrc tree)

/-- Change the partition table of a disk. -/
def setPart1 (id : String) (present : Bool) : Option (Machine D) :=
  (m.disks id).map fun disk =>
    { m.setDisk id { disk with part1 := present } with repartitioned := id :: m.repartitioned }

end Machine

variable {D : Type}

/-- The full effect of a command; none where the command cannot succeed. -/
def Cmd.effect (cfg : Cfg) (m : Machine D) : Cmd → Option (Machine D)
  | .sgdiskZap (.disk id) => m.setPart1 id false
  | .sgdiskNew (.disk id) => m.setPart1 id true
  | .sgdiskRegrow (.disk id) => (m.partition id).bind fun _ => m.setPart1 id true
  | .luksFormat (.part1 id) =>
    if m.mapper = some id then none
    else (m.partition id).bind fun _ => m.setVolume id (.luks .blank)
  | .luksOpen _ (.part1 id) =>
    match m.mapper, m.partition id with
    | none, some (.luks _) => some { m with mapper := some id }
    | _, _ => none
  | .luksClose => m.mapper.map fun _ => { m with mapper := none }
  | .mkfs d => (m.content d).bind fun _ => m.write (.btrfs { label := cfg.id.fsLabel }) d
  | .mount d dir => (m.fs d).map fun _ => { m with mounts := Function.update m.mounts dir (some d) }
  | .umount dir => (m.mounts dir).map fun _ =>
    { m with mounts := Function.update m.mounts dir none }
  | .setLabel d => m.setFs d fun fs => some { fs with label := cfg.id.fsLabel }
  | .subvolCreate dir s => m.addSubvol dir s .empty
  | .subvolSnapshot _ src s dst t => (m.subvol src s).bind fun tree => m.addSubvol dst t tree
  | .subvolDelete dir s => m.dropSubvol dir s
  | .sgdiskZap _ | .sgdiskNew _ | .sgdiskRegrow _ | .luksFormat _ | .luksOpen _ _ => none
  | _ => some m

/-! ## What the effects change -/

namespace Machine

variable {m m' : Machine D} {d : Device} {dir : Dir} {s : Subvol}

/-- The disk that a device belongs to. -/
def diskOf (m : Machine D) : Device → Option String
  | .disk id | .part1 id => some id
  | .mapper => m.mapper

/-- All but the disks is the same. -/
structure SameSetup (m m' : Machine D) : Prop where
  mapper : m'.mapper = m.mapper
  mounts : m'.mounts = m.mounts
  stream : m'.stream = m.stream
  repartitioned : m'.repartitioned = m.repartitioned

/-- The content of a device was overwritten, and nothing else. -/
structure Wrote (m : Machine D) (d : Device) (c : Content D) (m' : Machine D) : Prop
    extends SameSetup m m' where
  content : m'.content d = some c
  others : ∀ id, m.diskOf d ≠ some id → m'.disks id = m.disks id
  tables : ∀ id, (m'.disks id).map Disk.part1 = (m.disks id).map Disk.part1

theorem setVolume_some {id : String} {volume : Volume D} (h : m.setVolume id volume = some m') :
    ∃ disk, m.disks id = some disk ∧ m' = m.setDisk id { disk with volume } := by
  obtain ⟨disk, hdisk, rfl⟩ := Option.map_eq_some_iff.mp h
  exact ⟨disk, hdisk, rfl⟩

theorem setDisk_disks (m : Machine D) (id : String) (disk : Disk D) (i : String) :
    (m.setDisk id disk).disks i = if i = id then some disk else m.disks i := by
  simp [setDisk, Function.update_apply]

theorem write_wrote {c : Content D} (h : m.write c d = some m') (hd : (m.content d).isSome) :
    m.Wrote d c m' := by
  have tables : ∀ {id : String} {disk : Disk D} {volume : Volume D}, m.disks id = some disk →
      ∀ i, ((m.setDisk id { disk with volume }).disks i).map Disk.part1 =
        (m.disks i).map Disk.part1 := by
    intro id disk volume hdisk i
    rw [setDisk_disks]
    by_cases hi : i = id
    · rw [if_pos hi, hi, hdisk]
      rfl
    · rw [if_neg hi]
  cases d with
  | disk id => cases h
  | part1 id =>
    obtain ⟨disk, hdisk, rfl⟩ := setVolume_some h
    have hpart : disk.part1 = true := by
      by_contra hno
      simp [content, partition, hdisk, hno] at hd
    refine ⟨⟨rfl, rfl, rfl, rfl⟩, ?_, fun i hi => ?_, tables hdisk⟩
    · simp [content, partition, setDisk_disks, hpart]
    · rw [setDisk_disks, if_neg fun he => hi (congrArg some he.symm)]
  | mapper =>
    obtain ⟨id, hmapper, h⟩ := Option.bind_eq_some_iff.mp h
    obtain ⟨disk, hdisk, rfl⟩ := setVolume_some h
    refine ⟨⟨rfl, rfl, rfl, rfl⟩, ?_, fun i hi => ?_, tables hdisk⟩
    · show m.mapper.bind (m.setDisk id _).inner = some c
      simp [hmapper, inner, setDisk_disks]
    · rw [setDisk_disks, if_neg fun he : i = id => hi (hmapper.trans (congrArg some he.symm))]

theorem fs_eq_some {fs : Btrfs D} : m.fs d = some fs ↔ m.content d = some (.btrfs fs) := by
  unfold Machine.fs
  rcases m.content d with _ | (_ | fs' | _) <;> simp

theorem setFs_some {f : Btrfs D → Option (Btrfs D)} (h : m.setFs d f = some m') :
    ∃ fs fs', m.fs d = some fs ∧ f fs = some fs' ∧ m.Wrote d (.btrfs fs') m' := by
  obtain ⟨fs, hfs, h⟩ := Option.bind_eq_some_iff.mp h
  obtain ⟨fs', hf, h⟩ := Option.bind_eq_some_iff.mp h
  have hcontent := fs_eq_some.mp hfs
  exact ⟨fs, fs', hfs, hf, write_wrote h (by rw [hcontent]; rfl)⟩

theorem Wrote.fs {fs : Btrfs D} (h : m.Wrote d (.btrfs fs) m') : m'.fs d = some fs :=
  fs_eq_some.mpr h.content

theorem addSubvol_some {tree : Tree D} (h : m.addSubvol dir s tree = some m') :
    ∃ d fs, m.mounts dir = some d ∧ m.fs d = some fs ∧ fs.get s = none ∧
      m.Wrote d (.btrfs (fs.set s (some tree))) m' := by
  obtain ⟨d, hd, h⟩ := Option.bind_eq_some_iff.mp h
  obtain ⟨fs, fs', hfs, hf, hw⟩ := setFs_some h
  by_cases hnone : fs.get s = none
  · rw [if_pos hnone] at hf
    cases hf
    exact ⟨d, fs, hd, hfs, hnone, hw⟩
  · rw [if_neg hnone] at hf
    cases hf

theorem dropSubvol_some (h : m.dropSubvol dir s = some m') :
    ∃ d fs, m.mounts dir = some d ∧ m.fs d = some fs ∧ m.Wrote d (.btrfs (fs.set s none)) m' := by
  obtain ⟨d, hd, h⟩ := Option.bind_eq_some_iff.mp h
  obtain ⟨fs, fs', hfs, hf, hw⟩ := setFs_some h
  by_cases hnone : fs.get s = none
  · rw [if_pos hnone] at hf
    cases hf
  · rw [if_neg hnone] at hf
    cases hf
    exact ⟨d, fs, hd, hfs, hw⟩

theorem setReceived_some {tree : Option (Tree D)} (h : m.setReceived dir tree = some m') :
    ∃ d fs, m.mounts dir = some d ∧ m.fs d = some fs ∧
      m.Wrote d (.btrfs (fs.set .migrateSrc tree)) m' := by
  obtain ⟨d, hd, h⟩ := Option.bind_eq_some_iff.mp h
  obtain ⟨fs, fs', hfs, hf, hw⟩ := setFs_some h
  cases hf
  exact ⟨d, fs, hd, hfs, hw⟩

theorem setPart1_some {id : String} {present : Bool} (h : m.setPart1 id present = some m') :
    ∃ disk, m.disks id = some disk ∧ m' = { m.setDisk id { disk with part1 := present } with
      repartitioned := id :: m.repartitioned } := by
  obtain ⟨disk, hdisk, rfl⟩ := Option.map_eq_some_iff.mp h
  exact ⟨disk, hdisk, rfl⟩

@[simp] theorem content_mounts (m : Machine D) (mounts : Dir → Option Device) (d : Device) :
    ({ m with mounts } : Machine D).content d = m.content d := by
  cases d <;> rfl

@[simp] theorem fs_mounts (m : Machine D) (mounts : Dir → Option Device) (d : Device) :
    ({ m with mounts } : Machine D).fs d = m.fs d := by
  simp only [Machine.fs, content_mounts]

end Machine

theorem Cmd.Inert.effect {c : Cmd} (h : c.Inert) (cfg : Cfg) (m : Machine D) :
    c.effect cfg m = some m := by
  cases c <;> first | rfl | exact h.elim

/-! ## Operations on a machine -/

/-- What a command that ends as given says of the machine is so: the signature that `blkid`
names or does not find, the label it prints, and the subvolume that is shown. -/
def Truthful (m : Machine D) (out : Output) : Cmd → Prop
  | .blkid .type (.part1 id) =>
    (out.status.code = some 0 → trim out.stdout = "btrfs" → (m.fs (.part1 id)).isSome) ∧
    (out.status.code = some 0 → trim out.stdout = "crypto_LUKS" → (m.inner id).isSome)
  | .blkid .type .mapper =>
    (out.status.code = some 0 → trim out.stdout = "btrfs" → (m.fs .mapper).isSome) ∧
    (out.status.code = some 2 → ∀ c, m.content .mapper = some c → c = .blank)
  | .blkid .label d =>
    out.status.code = some 0 → ∀ fs, m.fs d = some fs → trim out.stdout = trim fs.label
  | .subvolShow dir s => out.status.code = some 0 → (m.subvol dir s).isSome
  | _ => True

/-- How a command may end. -/
def Ended (cfg : Cfg) (c : Cmd) (m : Machine D) (m' : Machine D) : Except String Output → Prop
  | .ok out => Truthful m out c ∧
      (c.effect cfg m = some m' ∨ out.status.success = false ∧ m' = m)
  | .error _ => c.effect cfg m = some m' ∨ m' = m

/-- Partition 1 of a disk has its device node, but a node may be late after a change of the
partition table. -/
def NodeShown (m : Machine D) (present : Bool) : Device → Prop
  | .part1 id => id ∈ m.repartitioned ∨ present = (m.partition id).isSome
  | _ => True

/-- What an operation of the daemon, with its answer, may do to the machine. -/
def MachineStep (cfg : Cfg) : {β : Type} → Op β → Machine D → β → Machine D → Prop
  | _, .output c, m, out, m' => Ended cfg c m m' out
  | _, .feed c _, m, r, m' =>
    match r with
    | .notSpawned _ => m' = m
    | .ran _ out => Ended cfg c m m' out
  | _, .spawn (.send dir s), m, r, m' =>
    match r with
    | .ok () => m' = { m with stream := { source := m.subvol dir s } }
    | .error _ => m' = m
  -- from now on, a cut leaves whatever has been received
  | _, .spawn (.receive dir), m, r, m' =>
    m' = m ∨ r = .ok () ∧ ∃ tree, m.setReceived dir tree = some m'
  | _, .wait (.send _ _), m, r, m' =>
    (∃ status, r = .ok status ∧ status.success = true) ∧
      m' = { m with stream := { m.stream with sent := true } } ∨
    (¬ ∃ status, r = .ok status ∧ status.success = true) ∧ m' = m
  | _, .wait (.receive dir), m, r, m' =>
    (m' = m ∨ ∃ tree, m.setReceived dir tree = some m') ∧
      ((∃ status, r = .ok status ∧ status.success = true) → m.stream.sent = true →
        m.setReceived dir m.stream.source = some m')
  | _, .exists d, m, present, m' => m' = m ∧ NodeShown m present d
  | _, _, m, _, m' => m' = m

/-- The runs of the daemon, with their history, on a machine. -/
def onMachine (cfg : Cfg) : Handler Op ((World × List Event) × Machine D) :=
  observed.beside (MachineStep cfg)

end Foundrix.VarDisk

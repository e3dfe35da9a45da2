import Foundrix.Effect.Prog
import Foundrix.VarDisk.Classify

/-!
# The world of var-disk-managerd

The commands that the daemon runs, with the devices and mount points that they name, and
the other operations it performs on its surroundings.

* `Device`, `Dir`, `Cmd`: the commands; `Cmd.args` is the command line of each.
* `Op`: the operations of the daemon.
* `World`, `Answer`, `world`: what the daemon keeps and shows. Commands, clients and
  everything read from outside answer at will.
-/

namespace Foundrix.VarDisk

open Text

/-- The configuration resolved from the command line. -/
structure Cfg where
  byIdDir : String
  pre : String
  id : Identity
  minPassphraseLen : Nat

/-! ## Commands -/

inductive Device where
  | disk (id : String)
  | part1 (id : String)
  | mapper
deriving DecidableEq, Repr

/-- `dev`, `part1` and the path of the mapper. -/
def Device.path (cfg : Cfg) : Device → String
  | .disk id => s!"{cfg.byIdDir}/{id}"
  | .part1 id => s!"{cfg.byIdDir}/{id}-part1"
  | .mapper => s!"/dev/mapper/{cfg.id.mapper}"

/-- The mount points. -/
inductive Dir where
  | old
  | new
  | newVarFs
deriving DecidableEq, Repr

def Dir.path : Dir → String
  | .old => "/old"
  | .new => "/new"
  | .newVarFs => "/new-var-fs"

/-- The subvolumes below a mount point. -/
inductive Subvol where
  | var
  | migrateSrc
deriving DecidableEq, Repr

def Subvol.path (d : Dir) : Subvol → String
  | .var => d.path ++ "/var"
  | .migrateSrc => d.path ++ "/.migrate-src"

/-- What a `blkid` probe asks for. -/
inductive Tag where
  | type
  | pttype
  | label
deriving DecidableEq, Repr

def Tag.name : Tag → String
  | .type => "TYPE"
  | .pttype => "PTTYPE"
  | .label => "LABEL"

inductive Cmd where
  | blkid (tag : Tag) (d : Device)
  | lsblk (d : Device)
  | blockdev (d : Device)
  /-- Move the backup GPT header to the end of the disk. -/
  | sgdiskExpand (d : Device)
  /-- Delete partition 1 and create it again up to the end of the disk. -/
  | sgdiskRegrow (d : Device)
  | sgdiskZap (d : Device)
  | sgdiskNew (d : Device)
  | luksFormat (d : Device)
  | luksOpen (persistent : Bool) (d : Device)
  | luksResize
  | luksClose
  | mkfs (d : Device)
  | mount (d : Device) (dir : Dir)
  | umount (dir : Dir)
  | setLabel (d : Device)
  | resizeMax (dir : Dir)
  | usage (dir : Dir)
  | subvolShow (dir : Dir) (s : Subvol)
  | subvolCreate (dir : Dir) (s : Subvol)
  | subvolSnapshot (readonly : Bool) (src : Dir) (s : Subvol) (dst : Dir) (t : Subvol)
  | subvolDelete (dir : Dir) (s : Subvol)
  | send (dir : Dir) (s : Subvol)
  | receive (dir : Dir)
  | sync
  | settle
  | trigger (d : Device)
deriving DecidableEq, Repr

namespace Cmd

def program : Cmd → String
  | .blkid _ _ => "blkid"
  | .lsblk _ => "lsblk"
  | .blockdev _ => "blockdev"
  | .sgdiskExpand _ | .sgdiskRegrow _ | .sgdiskZap _ | .sgdiskNew _ => "sgdisk"
  | .luksFormat _ | .luksOpen _ _ | .luksResize | .luksClose => "cryptsetup"
  | .mkfs _ => "mkfs.btrfs"
  | .mount _ _ => "mount"
  | .umount _ => "umount"
  | .setLabel _ | .resizeMax _ | .usage _ | .subvolShow _ _ | .subvolCreate _ _ => "btrfs"
  | .subvolSnapshot _ _ _ _ _ | .subvolDelete _ _ | .send _ _ | .receive _ => "btrfs"
  | .sync => "sync"
  | .settle | .trigger _ => "udevadm"

/-- The options that give partition 1 its place, type, PARTUUID and name. -/
def partition (cfg : Cfg) : List String :=
  ["-n", "1:0:0", "-t", s!"1:{varTypeGuid}", "-u", s!"1:{cfg.id.luksPartuuid}", "-c", "1:var"]

def args (cfg : Cfg) : Cmd → List String
  | .blkid tag d => ["-o", "value", "-s", tag.name, d.path cfg]
  | .lsblk d => ["-rno", "PARTUUID", d.path cfg]
  | .blockdev d => ["--getsize64", d.path cfg]
  | .sgdiskExpand d => ["-e", d.path cfg]
  | .sgdiskRegrow d => ["-d", "1"] ++ partition cfg ++ [d.path cfg]
  | .sgdiskZap d => ["--zap-all", d.path cfg]
  | .sgdiskNew d => partition cfg ++ [d.path cfg]
  | .luksFormat d => ["luksFormat", "--type", "luks2", "--label", "var-crypt", "--batch-mode",
      "--key-file", "-", d.path cfg]
  | .luksOpen persistent d => ["open", "--key-file", "-", "--allow-discards"] ++
      (if persistent then ["--persistent"] else []) ++ [d.path cfg, cfg.id.mapper]
  | .luksResize => ["resize", "--key-file", "-", cfg.id.mapper]
  | .luksClose => ["close", cfg.id.mapper]
  | .mkfs d => ["-L", cfg.id.fsLabel, d.path cfg]
  | .mount d dir => ["-o", "subvol=/", d.path cfg, dir.path]
  | .umount dir => [dir.path]
  | .setLabel d => ["filesystem", "label", d.path cfg, cfg.id.fsLabel]
  | .resizeMax dir => ["filesystem", "resize", "max", dir.path]
  | .usage dir => ["filesystem", "usage", "-b", dir.path]
  | .subvolShow dir s => ["subvolume", "show", s.path dir]
  | .subvolCreate dir s => ["subvolume", "create", s.path dir]
  | .subvolSnapshot readonly src s dst t => ["subvolume", "snapshot"] ++
      (if readonly then ["-r"] else []) ++ [s.path src, t.path dst]
  | .subvolDelete dir s => ["subvolume", "delete", s.path dir]
  | .send dir s => ["send", s.path dir]
  | .receive dir => ["receive", dir.path ++ "/"]
  | .sync => []
  | .settle => ["settle", "--timeout=30"]
  | .trigger d => ["trigger", "--settle", d.path cfg]

/-- The commands that overwrite a disk, a partition or a volume. -/
def Destructive : Cmd → Prop
  | .sgdiskZap _ | .luksFormat _ | .mkfs _ => True
  | _ => False

instance (c : Cmd) : Decidable c.Destructive := by
  cases c <;> unfold Destructive <;> infer_instance

/-- The commands without an effect on the disks, the probe for a label aside. -/
def Inert : Cmd → Prop
  | .blkid tag _ => tag ≠ .label
  | .lsblk _ | .blockdev _ | .sgdiskExpand _ | .luksResize | .resizeMax _ | .usage _ => True
  | .subvolShow _ _ | .sync | .settle | .trigger _ => True
  | _ => False

theorem Inert.notDestructive {c : Cmd} (h : c.Inert) : ¬ c.Destructive := by
  cases c <;> first | exact h.elim | exact id

end Cmd

/-- The exit status of a process: its code, which one killed by a signal does not have, and
the text by which it is shown. -/
structure Status where
  code : Option Int
  text : String
deriving DecidableEq, Repr

def Status.success (s : Status) : Bool := s.code == some 0

structure Output where
  status : Status
  stdout : String := ""
  stderr : String := ""
deriving DecidableEq, Repr

/-- A command that is given a secret on its standard input. -/
inductive Fed where
  | notSpawned (e : String)
  /-- Whether the secret could be written, and how the command ended. -/
  | ran (written : Except String Unit) (out : Except String Output)

/-! ## Operations -/

inductive Op : Type → Type where
  /-- Change the snapshot, write its message to the state file and to kmsg, and send it to
  the clients. -/
  | mutate (f : Snapshot → Snapshot) : Op Unit
  | eprintln (line : String) : Op Unit
  /-- Write a line to the state file and to kmsg only. -/
  | writeState (line : String) : Op Unit
  /-- Count the prompt ids up and take the new one. -/
  | nextPromptId : Op Nat
  | tryRecv : Op (Option ClientMsg)
  | sleep (millis : Nat) : Op Unit
  /-- Spawn a command and wait for its end. -/
  | output (c : Cmd) : Op (Except String Output)
  | feed (c : Cmd) (secret : String) : Op Fed
  | spawn (c : Cmd) : Op (Except String Unit)
  /-- Read from the pipe of `btrfs send`: how many bytes there were. -/
  | readPipe : Op (Except String Nat)
  /-- Write that many bytes to the pipe of `btrfs receive`. -/
  | writePipe (n : Nat) : Op (Except String Unit)
  | closePipe : Op Unit
  /-- Whether the last update of the progress is more than 200 ms old; if so, it is now. -/
  | updateDue : Op Bool
  | kill (c : Cmd) : Op Unit
  | wait (c : Cmd) : Op (Except String Status)
  /-- Everything that a spawned command wrote to its standard error, trimmed. -/
  | stderrOf (c : Cmd) : Op String
  | exists (d : Device) : Op Bool
  | createDirAll (path : String) : Op (Except String Unit)
  /-- The names in a directory that are UTF-8; none where it cannot be read. -/
  | readDir (path : String) : Op (List String)
  /-- Whether the tool is found in `PATH`. -/
  | toolFound (tool : String) : Op Bool
  | removeSocket : Op Unit
  | bindSocket : Op (Except String Unit)

/-! ## The world -/

structure World where
  snapshot : Snapshot := {}
  /-- The snapshots sent to the clients so far. -/
  sent : List Snapshot := []
  /-- The lines written to the state file so far. -/
  stateFile : List String := []
  /-- The last prompt id given out. -/
  promptId : Nat := 0
deriving DecidableEq, Repr

/-- `Ui::mutate`, under the lock. -/
def World.mutate (w : World) (f : Snapshot → Snapshot) : World :=
  let snap := f w.snapshot
  { w with
    snapshot := snap
    stateFile := w.stateFile ++ [snap.message]
    sent := w.sent ++ [snap] }

@[simp] theorem World.mutate_snapshot (w : World) (f : Snapshot → Snapshot) :
    (w.mutate f).snapshot = f w.snapshot := rfl

@[simp] theorem World.mutate_promptId (w : World) (f : Snapshot → Snapshot) :
    (w.mutate f).promptId = w.promptId := rfl

/-- What an operation leaves of the daemon's own state. -/
def Answer : {β : Type} → Op β → World → β → World → Prop
  | _, .mutate f, w, _, w' => w' = w.mutate f
  | _, .writeState line, w, _, w' => w' = { w with stateFile := w.stateFile ++ [line] }
  | _, .nextPromptId, w, id, w' =>
    id = w.promptId + 1 ∧ w' = { w with promptId := w.promptId + 1 }
  | _, _, w, _, w' => w' = w

def world : Effect.Handler Op World where
  step := Answer

end Foundrix.VarDisk

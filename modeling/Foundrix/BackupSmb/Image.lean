import Foundrix.Effect.Script
import Foundrix.Machine.Trace

/-!
# The filesystem image on the SMB share

`prepareImage` of `services/backup/smb.nix`: the image is created, grown or shrunk to the
configured size, in runs that may be cut between any two commands.

* `Config`, `Line`, `Op`: the options, what is printed, and the commands.
* `prepareImage`: the script.
* `Share`, `shell`: the image file, what is mounted, and what the commands do to them.
* `Act`, `step`: runs one after the other, and restarts between them.
-/

namespace Foundrix.BackupSmb

open Effect Machine

/-- The options of the image, and the mount point of the share. -/
structure Config where
  imageName : String := "backup.img"
  imageSize : String := "200G"
  shareMountPoint : String := "/mnt/backup/smb-share"
deriving DecidableEq, Repr

def Config.imageFile (cfg : Config) : String := cfg.shareMountPoint ++ "/" ++ cfg.imageName

/-! ## The script -/

/-- What the script prints of its own. -/
inductive Line where
  | shareNotWritable
  | imageNotWritable
  | noRoom (free : Nat)
  | creating
  | cannotGrow (free : Nat)
  | growing (current target : Nat)
  | shrinking (current target : Nat)
  | cannotShrink
deriving DecidableEq, Repr

def Line.text (cfg : Config) : Line → String
  | .shareNotWritable =>
    s!"{cfg.shareMountPoint} is not writable; check the credentials and the server-side permissions"
  | .imageNotWritable =>
    s!"{cfg.imageFile} exists but is not writable; refusing to attach it read-only"
  | .noRoom free =>
    s!"not enough room on the share for a {cfg.imageSize} image ({free} bytes free)"
  | .creating => s!"Creating a {cfg.imageSize} filesystem image at {cfg.imageFile}"
  | .cannotGrow free =>
    s!"cannot grow the image to {cfg.imageSize}, the share has only {free} bytes free; " ++
      "keeping the current size"
  | .growing current target => s!"Growing the image from {current} to {target} bytes"
  | .shrinking current target => s!"Shrinking the image from {current} to {target} bytes"
  | .cannotShrink =>
    "cannot shrink the filesystem, not enough free space inside it; keeping the current size"

/-- The line reports that the image keeps its size. -/
def Line.keepsSize : Line → Bool
  | .cannotGrow _ => true
  | .cannotShrink => true
  | _ => false

/-- The conditions that are tested with `[`. -/
inductive Test where
  | shareWritable
  | imageExists
  | imageWritable
  | imageIsFile
deriving DecidableEq, Repr

inductive Cmd where
  | mkdirResize
  /-- `truncate -s size imageFile`. -/
  | truncate (size : Nat)
  /-- `mkfs.btrfs -L backup-smb imageFile`. -/
  | mkfs
  /-- `mount imageFile resizeDir`. -/
  | mount
  | umount
  /-- `btrfs filesystem resize max resizeDir`. -/
  | resizeMax
  | resize (size : Nat)
deriving DecidableEq, Repr

/-- A command is answered by whether it succeeded, and a substitution by what it read. -/
inductive Op : Type → Type
  | numfmt (size : String) : Op (Option Nat)
  | test (t : Test) : Op Bool
  | freeBytes : Op (Option Nat)
  | currentBytes : Op (Option Nat)
  | run (c : Cmd) : Op Bool
  | echo (l : Line) : Op Unit

def sh (c : Cmd) : Prog Op Unit Unit := must (.run c)

/-- What a command prints, where it succeeds. -/
def read (e : Op (Option Nat)) : Prog Op Unit Nat := do
  match ← .perform e with
  | some n => return n
  | none => .fail ()

/-- `[ -e imageFile ] && [ ! -w imageFile ]`. -/
def readOnly : Prog Op Unit Bool := do
  if ← .perform (.test .imageExists) then return !(← .perform (.test .imageWritable))
  else return false

def createImage (target free : Nat) : Prog Op Unit Unit := do
  if free < target then
    .perform (.echo (.noRoom free))
    .fail ()
  else
    .perform (.echo .creating)
    sh (.truncate target)
    sh .mkfs

def growImage (current target free : Nat) : Prog Op Unit Unit := do
  if free < target - current then .perform (.echo (.cannotGrow free))
  else
    .perform (.echo (.growing current target))
    sh (.truncate target)
    sh .mount
    sh .resizeMax
    sh .umount

def shrinkImage (current target : Nat) : Prog Op Unit Unit := do
  .perform (.echo (.shrinking current target))
  sh .mount
  if ← .perform (.run (.resize target)) then
    sh .umount
    sh (.truncate target)
  else
    .perform (.echo .cannotShrink)
    sh .umount

/-- `trap 'umount resizeDir || true' EXIT` around the rest of the script. -/
def trapped (p : Prog Op Unit Unit) : Prog Op Unit Unit := do
  let r ← p.attempt
  let _ ← .perform (.run .umount)
  .orFail r

def matchSize (current target free : Nat) : Prog Op Unit Unit := do
  sh .mkdirResize
  trapped (if current < target then growImage current target free else shrinkImage current target)

def prepareImage (cfg : Config) : Prog Op Unit Unit := do
  let target ← read (.numfmt cfg.imageSize)
  if !(← .perform (.test .shareWritable)) then
    .perform (.echo .shareNotWritable)
    .fail ()
  else if ← readOnly then
    .perform (.echo .imageNotWritable)
    .fail ()
  else
    let free ← read .freeBytes
    if !(← .perform (.test .imageIsFile)) then createImage target free
    else
      let current ← read .currentBytes
      if current = target then return ()
      else matchSize current target free

/-! ## The share -/

/-- The image file, and how large the filesystem in it takes itself to be. -/
structure Image where
  size : Nat
  filesystem : Option Nat
deriving DecidableEq, Repr

structure Share where
  image : Option Image
  /-- The size of the loop device that is mounted on the directory for resizing. -/
  attached : Option Nat
deriving DecidableEq, Repr

/-- What a command that succeeds does; one that fails does nothing. -/
def Done (c : Cmd) (w w' : Share) : Prop :=
  match c with
  | .mkdirResize => w' = w
  | .truncate size =>
    w' = { w with image := some ⟨size, w.image.bind Image.filesystem⟩ }
  | .mkfs => ∃ i, w.image = some i ∧ w' = { w with image := some ⟨i.size, some i.size⟩ }
  -- an image that is mounted there already is refused
  | .mount => ∃ i fs, w.image = some i ∧ i.filesystem = some fs ∧ w.attached = none ∧
      w' = { w with attached := some i.size }
  | .umount => w.attached ≠ none ∧ w' = { w with attached := none }
  | .resizeMax => ∃ i fs device, w.image = some i ∧ i.filesystem = some fs ∧
      w.attached = some device ∧ w' = { w with image := some ⟨i.size, some device⟩ }
  | .resize size => ∃ i fs device, w.image = some i ∧ i.filesystem = some fs ∧
      w.attached = some device ∧ size ≤ device ∧ w' = { w with image := some ⟨i.size, some size⟩ }

/-- The tests of the image tell what is there; those of permissions may say anything. -/
def Tells (t : Test) (b : Bool) (w : Share) : Prop :=
  match t with
  | .imageExists | .imageIsFile => b = w.image.isSome
  | .shareWritable | .imageWritable => True

def shell (fromIec : String → Option Nat) : Handler Op Share where
  step e w b w' := match e with
    | .numfmt size => (b = none ∨ b = fromIec size) ∧ w' = w
    | .test t => Tells t b w ∧ w' = w
    | .freeBytes => w' = w
    | .currentBytes => (∀ n, b = some n → ∃ i, w.image = some i ∧ i.size = n) ∧ w' = w
    | .run c => match b with
      | true => Done c w w'
      | false => w' = w
    | .echo _ => w' = w

/-- The lines that are printed. -/
def printed {β : Type} (e : Op β) (_ : Share) (_ : β) : Option Line :=
  match e with
  | .echo l => some l
  | _ => none

/-- A run of the script: its options, what it printed, and how it ended where it was not
cut. -/
structure Prepared where
  cfg : Config
  lines : List Line
  result : Option (Except Unit Unit)
deriving Repr

inductive Act where
  | run (r : Prepared)
  /-- The machine restarts, and nothing is mounted any more. -/
  | restart

def step (fromIec : String → Option Nat) (w : Share) (a : Act) (w' : Share) : Prop :=
  match a with
  | .run r => Run ((shell fromIec).logged printed) (prepareImage r.cfg) (w, []) r.result
      (w', r.lines)
  | .restart => w' = { w with attached := none }

/-- A share without an image. -/
def empty : Share := ⟨none, none⟩

end Foundrix.BackupSmb

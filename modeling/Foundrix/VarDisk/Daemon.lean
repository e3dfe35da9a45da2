import Foundrix.VarDisk.Command

/-!
# var-disk-managerd

The daemon of `packages/var-disk-manager/src/bin/daemon.rs`, function by function, as
programs over the operations of `Command`. An error is the chain of its contexts, the
outermost first.
-/

namespace Foundrix.VarDisk

open Text Effect

abbrev Error := List String

/-- `{e}`: the outermost context. -/
def Error.outer (e : Error) : String := e.headD ""

/-- `{e:#}`: the whole chain. -/
def Error.full (e : Error) : String := join ": " e

/-- A program of the daemon. -/
abbrev Daemon (α : Type) := Prog Op Error α

/-- `bail!`. -/
def bail {α : Type} (message : String) : Daemon α := Prog.fail [message]

/-- `?` on a result. -/
def question {α : Type} : Except String α → Daemon α
  | .ok a => pure a
  | .error e => Prog.fail [e]

/-- `with_context(..)?` on a result. -/
def inContext {α : Type} (context : String) : Except String α → Daemon α
  | .ok a => pure a
  | .error e => Prog.fail [context, e]

/-- The command line. -/
structure Cli where
  volumeGlob : String
  luksPartuuid : String
  fsLabel : String := "var"
  mapper : String := "var"
  minPassphraseLen : Nat := 12

def requiredTools : List String :=
  ["blkid", "lsblk", "blockdev", "wipefs", "sgdisk", "cryptsetup", "btrfs", "mkfs.btrfs", "udevadm",
    "mount", "umount", "sync"]

/-- What the target must have beyond the bytes used on the source. -/
def sizeHeadroom : Nat := 2 ^ 30

def growThreshold : Nat := 16 * 2 ^ 20

def luksHeaderSlack : Nat := 64 * 2 ^ 20

/-- Addition of `u64`s, which wraps around in a release build. -/
@[irreducible]
def addU64 (a b : Nat) : Nat := (a + b) % 2 ^ 64

/-! ## The UI -/

namespace Ui

def mutate (f : Snapshot → Snapshot) : Daemon Unit := Prog.perform (.mutate f)

def state (phase message : String) : Daemon Unit := do
  Prog.perform (.eprintln s!"var-disk-manager: {message}")
  mutate fun s => { s with phase, message }

def progress (copied total : Nat) : Daemon Unit :=
  mutate fun s => { s with progress := some { copied, total } }

/-- Wait for the answer to the prompt `id`; everything else that arrives is stale. -/
def waitForAnswer (id : Nat) : Daemon String :=
  Prog.iterate (fun _ : Unit => do
    match ← Prog.perform .tryRecv with
    | some (.submit promptId value) =>
      if promptId = id then pure (.inr value) else pure (.inl ())
    | none =>
      Prog.perform (.sleep 100)
      pure (.inl ())) ()

/-- Post a prompt and wait for the first answer from any client. -/
def ask (kind : PromptKind) (text : String) : Daemon String := do
  let id ← Prog.perform .nextPromptId
  mutate fun s => { s with prompt := some { id, kind, text } }
  let value ← waitForAnswer id
  mutate fun s => { s with prompt := none }
  pure value

/-- Post a `Confirm` prompt until an answer is a yes or a no. -/
def askConfirm (text : String) : Daemon Bool :=
  Prog.iterate (fun _ : Unit => do
    let answer ← ask .confirm text
    match parseConfirm answer with
    | some yes => pure (.inr yes)
    | none =>
      state "prompt" "please answer y or n"
      pure (.inl ())) ()

/-- Show the reason and never return. -/
def blockForever (reason : String) : Daemon Empty := do
  state "blocked" s!"BLOCKED: {reason}"
  mutate fun s => { s with blocked := true, progress := none }
  Prog.iterate (fun _ : Unit => do
    Prog.perform (.sleep 60000)
    mutate id
    pure (.inl ())) ()

end Ui

/-! ## Commands -/

section Commands

variable (cfg : Cfg)

/-- The error of a command that ended without success. -/
def failed (c : Cmd) (out : Output) : String :=
  let args := join " " (c.args cfg)
  s!"{c.program} {args} failed ({out.status.text}): {trim out.stderr}"

def runOk (c : Cmd) : Daemon String := do
  let out ← inContext s!"spawning {c.program}" (← Prog.perform (.output c))
  if out.status.success then pure out.stdout else bail (failed cfg c out)

/-- What a probe says of a command's end. -/
def probed (out : Output) : Option String :=
  let v := trim out.stdout
  if out.status.success ∧ v ≠ "" then some v else none

def probeValue (c : Cmd) : Daemon (Option String) := do
  let out ← inContext s!"spawning {c.program}" (← Prog.perform (.output c))
  pure (probed out)

/-- What `run_with_stdin` makes of the end of a command that was given a secret. -/
def fedResult (c : Cmd) : Fed → Except Error Unit
  | .notSpawned e => .error [s!"spawning {c.program}", e]
  | .ran _ (.error e) => .error [e]
  | .ran written (.ok out) =>
    if out.status.success then
      match written with
      | .ok () => .ok ()
      | .error e => .error [s!"writing key material to {c.program} stdin", e]
    else .error [failed cfg c out]

def runWithStdin (c : Cmd) (secret : String) : Daemon Unit := do
  Prog.orFail (fedResult cfg c (← Prog.perform (.feed c secret)))

def settle : Daemon Unit := do
  let _ ← Prog.perform (.output .settle)

/-! ## Enumeration and probes -/

/-- The ids among the names of a directory. -/
def volumesOf (names : List String) : List String :=
  (names.filter fun n => startsWith n cfg.pre && !contains n "-part").mergeSort (· ≤ ·)

def listVolumes : Daemon (List String) := do
  pure (volumesOf cfg (← Prog.perform (.readDir cfg.byIdDir)))

def blockdevBytes (d : Device) : Daemon Nat := do
  let out ← runOk cfg (.blockdev d)
  question (parseU64 (trim out))

/-- Grow partition 1 to fill an enlarged disk; whether it grew. -/
def maybeGrowPartition (luksId : String) : Daemon Bool := do
  let diskBytes ← blockdevBytes cfg (.disk luksId)
  let partBytes ← blockdevBytes cfg (.part1 luksId)
  if addU64 partBytes growThreshold ≥ diskBytes then pure false
  else
    Ui.state "grow/partition" s!"volume {luksId} was enlarged; extending the partition to fill it"
    let _ ← runOk cfg (.sgdiskExpand (.disk luksId))
    let _ ← runOk cfg (.sgdiskRegrow (.disk luksId))
    settle
    pure true

/-- A probe that is made only where partition 1 exists. -/
def probeIf (present : Bool) (c : Cmd) : Daemon (Option String) :=
  if present then probeValue c else pure none

def probe (id : String) : Daemon DiskProbe := do
  let hasPart1 ← Prog.perform (.exists (.part1 id))
  let partFstype ← probeIf hasPart1 (.blkid .type (.part1 id))
  let partPartuuid ← probeIf hasPart1 (.lsblk (.part1 id))
  let diskPttype ← probeValue (.blkid .pttype (.disk id))
  let diskFstype ← probeValue (.blkid .type (.disk id))
  pure { id, hasPart1, partFstype, partPartuuid, diskPttype, diskFstype }

def detail (p : DiskProbe) : String :=
  let shown (found : Option String) := found.getD "-"
  if p.hasPart1 then
    s!"part1 fstype={shown p.partFstype} partuuid={shown p.partPartuuid}"
  else s!"pttype={shown p.diskPttype} fstype={shown p.diskFstype}"

/-! ## Passphrases -/

/-- Ask for a new passphrase until one that is long enough was entered twice. -/
def askNewPassphrase : Daemon String :=
  Prog.iterate (fun _ : Unit => do
    let a ← Ui.ask .newPassphrase "New LUKS passphrase for this server's /var volume"
    if a.length < cfg.minPassphraseLen then
      Ui.state "prompt" s!"passphrase too short (min {cfg.minPassphraseLen} chars), asking again"
      pure (.inl ())
    else
      let b ← Ui.ask .repeatPassphrase "Repeat passphrase"
      if a = b then pure (.inr a)
      else
        Ui.state "prompt" "passphrases did not match, asking again"
        pure (.inl ())) ()

/-! ## Disk operations -/

/-- Wait until a device exists, for a number of half seconds. -/
def awaitDevice (d : Device) : Nat → Daemon Unit
  | 0 => pure ()
  | n + 1 => do
    if ← Prog.perform (.exists d) then pure ()
    else
      Prog.perform (.sleep 500)
      awaitDevice d n

/-- GPT, LUKS2 and btrfs on a disk; leaves the mapper open. -/
def formatEncrypted (diskId passphrase : String) : Daemon Unit := do
  Ui.state "format/partition" s!"partitioning {diskId}"
  let _ ← runOk cfg (.sgdiskZap (.disk diskId))
  let _ ← runOk cfg (.sgdiskNew (.disk diskId))
  settle
  awaitDevice (.part1 diskId) 60
  if !(← Prog.perform (.exists (.part1 diskId))) then
    bail s!"partition {(Device.part1 diskId).path cfg} did not appear"
  else
    Ui.state "format/luks" s!"creating LUKS2 container on {diskId}-part1"
    runWithStdin cfg (.luksFormat (.part1 diskId)) passphrase
    runWithStdin cfg (.luksOpen true (.part1 diskId)) passphrase
    Ui.state "format/mkfs" s!"creating btrfs on /dev/mapper/{cfg.id.mapper}"
    let _ ← runOk cfg (.mkfs .mapper)
    settle

/-- Create the subvolume that the main system mounts. -/
def createVarSubvol : Daemon Unit := do
  question (← Prog.perform (.createDirAll Dir.newVarFs.path))
  let _ ← runOk cfg (.mount .mapper .newVarFs)
  let _ ← runOk cfg (.subvolCreate .newVarFs .var)
  let _ ← runOk cfg (.umount .newVarFs)

def subvolExists (dir : Dir) (s : Subvol) : Daemon Bool := do
  match ← Prog.perform (.output (.subvolShow dir s)) with
  | .ok out => pure out.status.success
  | .error _ => pure false

/-- Ask for the passphrase until the volume opens. -/
def openVolume (luksId : String) : Daemon String :=
  Prog.iterate (fun _ : Unit => do
    let pw ← Ui.ask .unlockPassphrase s!"Passphrase for /var volume ({luksId})"
    Ui.state "unlock" "unlocking..."
    match ← (runWithStdin cfg (.luksOpen false (.part1 luksId)) pw).attempt with
    | .ok () => pure (.inr pw)
    | .error e =>
      Ui.state "unlock" s!"unlock failed ({Error.outer e}); asking again"
      pure (.inl ())) ()

/-- Whether the mapping is behind the partition. -/
def needsResize (luksId : String) (grew : Bool) : Daemon Bool :=
  if grew then pure true
  else do
    let partBytes ← blockdevBytes cfg (.part1 luksId)
    let mapperBytes ← blockdevBytes cfg .mapper
    pure (addU64 mapperBytes luksHeaderSlack < partBytes)

/-- What the probe of the opened mapper found. -/
def mapperFs : Except String Output → MapperFs
  | .ok out => mapperFsFromBlkid out.status.code out.stdout
  | .error _ => mapperFsFromBlkid none ""

/-- The opened volume has a btrfs filesystem. -/
def unlockBtrfs (luksId : String) : Daemon Unit := do
  question (← Prog.perform (.createDirAll Dir.newVarFs.path))
  let _ ← runOk cfg (.mount .mapper .newVarFs)
  let _ ← runOk cfg (.resizeMax .newVarFs)
  if ← subvolExists .newVarFs .var then
    let _ ← runOk cfg (.umount .newVarFs)
  else
    let yes ← Ui.askConfirm (s!"Volume {luksId} has a btrfs filesystem but no 'var' subvolume " ++
      "(the boot mounts subvol=var). Create it now? This is additive and " ++
      "erases nothing. Only expected on a fresh/half-provisioned volume; " ++
      "if this volume should already hold data, answer n and investigate. [y/n]")
    if yes then
      let _ ← runOk cfg (.subvolCreate .newVarFs .var)
      let _ ← runOk cfg (.umount .newVarFs)
    else
      let _ ← runOk cfg (.umount .newVarFs)
      let never ← Ui.blockForever (s!"volume {luksId} has btrfs but no 'var' subvolume and the " ++
        "operator DECLINED to create it. Nothing was written. " ++
        s!"Investigate (mapper open at {Device.mapper.path cfg}), or power-cycle to be asked again.")
      nomatch never

/-- The opened volume has no filesystem. -/
def unlockEmpty (luksId : String) : Daemon Unit := do
  let yes ← Ui.askConfirm (s!"Volume {luksId} is unlocked but contains no filesystem. Format it " ++
    s!"as btrfs (label {cfg.id.fsLabel})? This erases nothing — the volume is empty. This is " ++
    "only safe if this is a fresh/half-provisioned volume; if you expected " ++
    "data here, answer n and investigate (nothing will be written on n). [y/n]")
  if yes then
    Ui.state "format/mkfs" s!"creating btrfs on {Device.mapper.path cfg}"
    let _ ← runOk cfg (.mkfs .mapper)
    settle
    createVarSubvol cfg
  else
    let never ← Ui.blockForever (s!"volume {luksId} is unlocked but has no filesystem and the " ++
      "operator DECLINED to format it. Nothing was written; the volume is untouched. " ++
      "If this volume should hold data, investigate now — the mapper is " ++
      s!"still open at {Device.mapper.path cfg}. To format manually: mkfs.btrfs -L " ++
      s!"{cfg.id.fsLabel} {Device.mapper.path cfg}, then reboot. Or simply power-cycle to be " ++
      "asked again.")
    nomatch never

/-- The content check of the opened volume: only an empty one is ever formatted, and only
after a yes. -/
def checkContent (luksId : String) : Daemon Unit := do
  match mapperFs (← Prog.perform (.output (.blkid .type .mapper))) with
  | .btrfs => unlockBtrfs cfg luksId
  | .empty => unlockEmpty cfg luksId
  | .other fstype =>
    let never ← Ui.blockForever (s!"volume {luksId} is unlocked but contains an unexpected " ++
      s!"filesystem type '{fstype}' (expected btrfs). NOT touching it; investigate manually and " ++
      "power-cycle.")
    nomatch never
  | .unknown =>
    let never ← Ui.blockForever (s!"volume {luksId} is unlocked but its contents could not be " ++
      s!"determined (blkid probe on {Device.mapper.path cfg} failed). Emptiness is NOT " ++
      "established, so nothing will be written. Investigate manually and power-cycle.")
    nomatch never

def unlock (luksId : String) : Daemon Unit := do
  let grew ← maybeGrowPartition cfg luksId
  let pw ← openVolume cfg luksId
  settle
  if ← needsResize cfg luksId grew then
    Ui.state "grow/luks" "extending the LUKS mapping to the grown partition"
    runWithStdin cfg .luksResize pw
    settle
  checkContent cfg luksId
  Ui.state "unlock" "unlocked; boot continuing"

def ensureLabel (legacyId : String) : Daemon Unit := do
  let label ← probeValue (.blkid .label (.part1 legacyId))
  if label ≠ some cfg.id.fsLabel then
    Ui.state "legacy" "labeling legacy filesystem"
    let _ ← runOk cfg (.setLabel (.part1 legacyId))
    let _ ← Prog.perform (.output (.trigger (.part1 legacyId)))
  Ui.state "legacy" "booting unencrypted (pre-migration)"

/-! ## Migration -/

/-- Carry the stream from `btrfs send` to `btrfs receive`, and count its bytes. -/
def pump (total : Nat) : Daemon Unit :=
  Prog.iterate (fun copied : Nat => do
    let n ← inContext "reading from btrfs send" (← Prog.perform .readPipe)
    if n = 0 then pure (.inr ())
    else
      inContext "writing to btrfs receive" (← Prog.perform (.writePipe n))
      let copied := copied + n
      if ← Prog.perform .updateDue then
        Ui.progress (min copied total) total
      pure (.inl copied)) 0

/-- Wait for both ends of the copy, and tell how it went. -/
def reapCopy (total : Nat) (pumpResult : Except Error Unit) : Daemon Unit := do
  let sendStatus ← inContext "waiting for btrfs send"
    (← Prog.perform (.wait (.send .old .migrateSrc)))
  let recvStatus ← inContext "waiting for btrfs receive" (← Prog.perform (.wait (.receive .new)))
  let sendStderr ← Prog.perform (.stderrOf (.send .old .migrateSrc))
  let recvStderr ← Prog.perform (.stderrOf (.receive .new))
  match pumpResult with
  | .error e =>
    bail s!"copy failed: {Error.full e}; btrfs send: {sendStderr}; btrfs receive: {recvStderr}"
  | .ok () =>
    if !sendStatus.success then
      bail s!"btrfs send failed ({sendStatus.text}): {sendStderr}"
    else if !recvStatus.success then
      bail s!"btrfs receive failed ({recvStatus.text}): {recvStderr}"
    else Ui.progress total total

def copyWithProgress (total : Nat) : Daemon Unit := do
  let send := Cmd.send .old .migrateSrc
  let recv := Cmd.receive .new
  inContext "spawning btrfs send" (← Prog.perform (.spawn send))
  inContext "spawning btrfs receive" (← Prog.perform (.spawn recv))
  let pumpResult ← (pump total).attempt
  Prog.perform .closePipe
  if pumpResult.toBool = false then
    Prog.perform (.kill send)
    Prog.perform (.kill recv)
  reapCopy total pumpResult

/-- The bytes used on the source, where a target of that size is large enough for them. -/
def admitSize (used target : Nat) : Daemon Nat := do
  let needed := addU64 used sizeHeadroom
  if target < needed then
    let _ ← (runOk cfg (.umount .old)).attempt
    let never ← Ui.blockForever (s!"MIGRATION ABORTED: new volume ({target} bytes) smaller " ++
      s!"than used data + 1GiB headroom ({needed} bytes). Attach a bigger volume and power-cycle.")
    nomatch never
  else pure used

/-- The bytes used on the source, as `btrfs filesystem usage` tells them. -/
def admitTarget (blankId usage : String) : Daemon Nat := do
  match parseBtrfsUsed usage with
  | none =>
    let _ ← (runOk cfg (.umount .old)).attempt
    let never ← Ui.blockForever
      "MIGRATION ABORTED: could not determine used bytes on the source"
    nomatch never
  | some used =>
    let sizeOut ← runOk cfg (.blockdev (.disk blankId))
    admitSize cfg used (← inContext "parsing blockdev output" (parseU64 (trim sizeOut)))

/-- Mount the source and see that the target is large enough for it; the bytes used. -/
def inspectSource (legacyId blankId : String) : Daemon Nat := do
  question (← Prog.perform (.createDirAll Dir.old.path))
  question (← Prog.perform (.createDirAll Dir.new.path))
  Ui.state "migrate/inspect" "migration: inspecting source"
  let _ ← runOk cfg (.mount (.part1 legacyId) .old)
  -- what is left of an attempt that was cut
  if ← subvolExists .old .migrateSrc then
    let _ ← runOk cfg (.subvolDelete .old .migrateSrc)
    let _ ← runOk cfg .sync
  let usage ← runOk cfg (.usage .old)
  admitTarget cfg blankId usage

/-- Copy the subvolume `var` to the formatted volume. -/
def copyVar (used : Nat) : Daemon Unit := do
  Ui.state "migrate/copy" "copying /var (btrfs send/receive)"
  let _ ← runOk cfg (.subvolSnapshot true .old .var .old .migrateSrc)
  let _ ← runOk cfg .sync
  let _ ← runOk cfg (.mount .mapper .new)
  copyWithProgress used
  let _ ← runOk cfg (.subvolSnapshot false .new .migrateSrc .new .var)
  let _ ← runOk cfg (.subvolDelete .new .migrateSrc)

def cleanUp : Daemon Unit := do
  Ui.state "migrate/cleanup" "migration: cleaning up"
  let _ ← runOk cfg (.subvolDelete .old .migrateSrc)
  let _ ← runOk cfg .sync
  let _ ← runOk cfg (.umount .new)
  let _ ← runOk cfg (.umount .old)
  let _ ← runOk cfg .luksClose
  Ui.mutate fun s => { s with progress := none }

def migrate (legacyId blankId : String) : Daemon Empty := do
  let used ← inspectSource cfg legacyId blankId
  let passphrase ← askNewPassphrase cfg
  formatEncrypted cfg blankId passphrase
  copyVar cfg used
  cleanUp cfg
  Ui.blockForever (s!"MIGRATION COMPLETE. Detach the old volume ({legacyId}) from this machine, " ++
    "then power-cycle. Do NOT delete the old volume until the server is verified healthy.")

def provision (blankId : String) : Daemon Unit := do
  Ui.state "provision" "fresh server: provisioning encrypted /var"
  let passphrase ← askNewPassphrase cfg
  formatEncrypted cfg blankId passphrase
  createVarSubvol cfg
  Ui.state "provision" "provisioned; boot continuing"

/-! ## The run -/

/-- Wait until there are volumes and their number has not changed for five seconds. -/
def awaitVolumes : Nat → Nat → Nat → Daemon Unit
  | 0, _, _ => pure ()
  | n + 1, stable, prev => do
    let count := (← listVolumes cfg).length
    if count > 0 ∧ count = prev then
      if stable + 1 ≥ 5 then pure ()
      else
        Prog.perform (.sleep 1000)
        awaitVolumes n (stable + 1) count
    else
      Prog.perform (.sleep 1000)
      awaitVolumes n 0 count

/-- Probe and classify each volume. -/
def classifyAll : List String → Daemon (List DiskInfo)
  | [] => pure []
  | id :: ids => do
    let p ← probe id
    let diskClass := classify p cfg.id.luksPartuuid
    if diskClass = .foreign then
      Ui.state "classify" s!"ignoring foreign volume {id} ({detail p})"
    let infos ← classifyAll ids
    pure ({ id, diskClass, detail := detail p } :: infos)

/-- The ids and classes of the disks. -/
def classesOf (infos : List DiskInfo) : List (String × DiskClass) :=
  infos.map fun i => (i.id, i.diskClass)

def carryOut : Plan → Daemon Unit
  | .unlock luks => unlock cfg luks
  | .bootLegacy legacy => ensureLabel cfg legacy
  | .migrate legacy blank => do
    let never ← migrate cfg legacy blank
    nomatch never
  | .provision blank => provision cfg blank
  | .block reason => do
    let never ← Ui.blockForever reason
    nomatch never
  | .noDisks => bail "no data volume found"

def requireTools : List String → Daemon Unit
  | [] => pure ()
  | tool :: tools => do
    if ← Prog.perform (.toolFound tool) then requireTools tools
    else bail s!"required tool missing from initrd: {tool}"

/-- Everything before the disks are touched: tools, socket, enumeration and classes. -/
def survey : Daemon (List DiskInfo) := do
  requireTools requiredTools
  question (← Prog.perform (.createDirAll "/run/var-disk-manager"))
  Prog.perform .removeSocket
  inContext "binding control socket" (← Prog.perform .bindSocket)
  Ui.state "enumerate" "waiting for data volumes"
  settle
  awaitVolumes cfg 90 0 0
  Ui.state "classify" "classifying data volumes"
  classifyAll cfg (← listVolumes cfg)

end Commands

/-- The configuration of a command line. -/
def Cli.cfg (cli : Cli) : Option Cfg :=
  (splitPrefixGlob cli.volumeGlob).map fun (byIdDir, pre) =>
    { byIdDir, pre
      id := { luksPartuuid := cli.luksPartuuid, fsLabel := cli.fsLabel, mapper := cli.mapper }
      minPassphraseLen := cli.minPassphraseLen }

def run (cli : Cli) : Daemon Unit :=
  match cli.cfg with
  | none => bail s!"--volume-glob must have the form <dir>/<prefix>* (got: {cli.volumeGlob})"
  | some cfg => do
    let infos ← survey cfg
    Ui.mutate fun s => { s with disks := infos }
    carryOut cfg (plan (classesOf infos))

/-- The process: its exit status. -/
def main (cli : Cli) : Daemon Nat := do
  match ← (run cli).attempt with
  | .ok () => pure 0
  | .error e =>
    let message := s!"FAILED: {Error.full e}"
    Prog.perform (.eprintln s!"var-disk-manager: {message}")
    Prog.perform (.writeState message)
    pure 1

end Foundrix.VarDisk

import Foundrix.Text.Str

/-!
# Disks and plans

The protocol and the pure part of `packages/var-disk-manager/src/lib.rs`: what a disk is
taken for by what the probes found on it, and what is to be done with a set of disks.

* `classify`, `plan`: the class of one disk, and the plan for all of them.
* `MapperFs`, `mapperFsFromBlkid`, `parseConfirm`: what stands before a format.
-/

namespace Foundrix.VarDisk

open Text

/-- The type GUID of a `/var` partition, also the PARTUUID of the legacy one. -/
def varTypeGuid : String := "4d21b016-b534-45c2-a9fb-5c16e091fd2d"

/-- Deployment identity, from the command line. -/
structure Identity where
  /-- PARTUUID assigned to, and required of, the LUKS partition. -/
  luksPartuuid : String
  /-- btrfs label by which `/var` is mounted. -/
  fsLabel : String
  /-- Mapper name of the opened LUKS volume. -/
  mapper : String
deriving DecidableEq, Repr

/-! ## The protocol -/

inductive DiskClass where
  | luks
  | legacy
  | blank
  | foreign
deriving DecidableEq, Repr

structure DiskInfo where
  id : String
  diskClass : DiskClass
  detail : String
deriving DecidableEq, Repr

inductive PromptKind where
  | unlockPassphrase
  | newPassphrase
  | repeatPassphrase
  | confirm
deriving DecidableEq, Repr

/-- The answer to a `Confirm` prompt; `none` is neither a yes nor a no. -/
def parseConfirm (answer : String) : Option Bool :=
  let word := toAsciiLowercase (trim answer)
  if word = "y" ∨ word = "yes" then some true
  else if word = "n" ∨ word = "no" then some false
  else none

/-- What was found inside an opened mapper. -/
inductive MapperFs where
  | btrfs
  /-- The probe ran cleanly and found no signature. -/
  | empty
  | other (fstype : String)
  /-- Nothing is proven. -/
  | unknown
deriving DecidableEq, Repr

/-- What the exit code of a `TYPE` probe and its output tell; only exit code 2 counts as
empty. -/
def mapperFsFromBlkid (exit : Option Int) (stdout : String) : MapperFs :=
  if exit = some 0 then
    if trim stdout = "btrfs" then .btrfs
    else if trim stdout = "" then .unknown
    else .other (trim stdout)
  else if exit = some 2 then .empty
  else .unknown

structure Prompt where
  id : Nat
  kind : PromptKind
  text : String
deriving DecidableEq, Repr

structure Progress where
  copied : Nat
  total : Nat
deriving DecidableEq, Repr

/-- The state of the UI, sent to the clients on every change. -/
structure Snapshot where
  phase : String := ""
  message : String := ""
  blocked : Bool := false
  disks : List DiskInfo := []
  progress : Option Progress := none
  prompt : Option Prompt := none
  fingerprint : Option String := none
deriving DecidableEq, Repr

inductive ClientMsg where
  | submit (promptId : Nat) (value : String)
deriving DecidableEq, Repr

/-! ## Classification -/

/-- What the probes found on a disk; `none` where one found nothing. -/
structure DiskProbe where
  id : String
  hasPart1 : Bool := false
  partFstype : Option String := none
  partPartuuid : Option String := none
  diskPttype : Option String := none
  diskFstype : Option String := none
deriving DecidableEq, Repr

def classify (p : DiskProbe) (luksPartuuid : String) : DiskClass :=
  if p.hasPart1 then
    let fstype := p.partFstype.getD ""
    let partuuid := p.partPartuuid.getD ""
    if fstype = "crypto_LUKS" ∧ eqIgnoreAsciiCase partuuid luksPartuuid then .luks
    else if fstype = "btrfs" ∧ eqIgnoreAsciiCase partuuid varTypeGuid then .legacy
    else .foreign
  else if p.diskPttype = none ∧ p.diskFstype = none then .blank
  else .foreign

inductive Plan where
  /-- Ask the passphrase, open, boot. -/
  | unlock (luks : String)
  /-- Boot unencrypted. -/
  | bootLegacy (legacy : String)
  /-- Migrate, then block. -/
  | migrate (legacy blank : String)
  /-- Format the blank disk, boot. -/
  | provision (blank : String)
  /-- Never boot. -/
  | block (reason : String)
  /-- No usable disk. -/
  | noDisks
deriving DecidableEq, Repr

/-- The ids of the disks of a class, in order. -/
def idsOf (c : DiskClass) (disks : List (String × DiskClass)) : List String :=
  (disks.filter fun d => d.2 = c).map Prod.fst

def plan (disks : List (String × DiskClass)) : Plan :=
  let luks := idsOf .luks disks
  let legacy := idsOf .legacy disks
  let blank := idsOf .blank disks
  match [("LUKS", luks), ("legacy var", legacy), ("blank", blank)].find? fun l => 1 < l.2.length with
  | some (kind, ids) =>
    let all := join ", " ids
    .block (s!"multiple {kind} volumes attached ({all}); " ++
      "detach the extra volume and power-cycle")
  | none =>
    match luks.head?, legacy.head?, blank.head? with
    | some l, some old, _ =>
      .block (s!"UNENCRYPTED DISK STILL ATTACHED: detach old volume {old} from this machine " ++
        s!"and power-cycle (encrypted volume {l} stays)")
    | some l, none, _ => .unlock l
    | none, some old, some new => .migrate old new
    | none, some old, none => .bootLegacy old
    | none, none, some new => .provision new
    | none, none, none => .noDisks

/-- A glob `<dir>/<prefix>*`, split; `none` for any other. -/
def splitPrefixGlob (glob : String) : Option (String × String) := do
  let rest ← stripSuffix glob '*'
  if rest.toList.any fun c => c = '*' || c = '?' || c = '[' then none
  else
    let (dir, pre) ← rsplitOnce rest '/'
    if dir = "" ∨ pre = "" then none else some (dir, pre)

/-- The `Used:` figure of `btrfs filesystem usage -b`. -/
def parseBtrfsUsed (output : String) : Option Nat :=
  (lines output).findSome? fun line =>
    let t := trimStart line
    if startsWith t "Used:" ∧ (line.toList.head?.any isWhitespace) then
      (stripPrefix t "Used:").bind fun rest => parseUnsigned 64 (trim rest)
    else none

/-! ## Which disk a plan names -/

theorem mem_idsOf {c : DiskClass} {disks : List (String × DiskClass)} {id : String} :
    id ∈ idsOf c disks ↔ (id, c) ∈ disks := by
  simp [idsOf]

/-- The disk that a plan may write to from scratch. -/
def Plan.blankDisk : Plan → Option String
  | .migrate _ blank => some blank
  | .provision blank => some blank
  | _ => none

theorem head_mem_idsOf {c : DiskClass} {disks : List (String × DiskClass)} {id : String}
    (h : (idsOf c disks).head? = some id) : (id, c) ∈ disks :=
  mem_idsOf.mp (List.mem_of_mem_head? h)

/-- The disks that a plan names, with the classes that it names them for. -/
def Plan.named : Plan → List (String × DiskClass)
  | .unlock luks => [(luks, .luks)]
  | .bootLegacy legacy => [(legacy, .legacy)]
  | .migrate legacy blank => [(legacy, .legacy), (blank, .blank)]
  | .provision blank => [(blank, .blank)]
  | _ => []

/-- A plan names disks of these classes only. -/
theorem plan_named {disks : List (String × DiskClass)} {d : String × DiskClass}
    (h : d ∈ (plan disks).named) : d ∈ disks := by
  unfold plan at h
  dsimp only at h
  split at h
  · cases h
  · split at h
    · cases h
    · rename_i hluks _
      obtain rfl := List.mem_singleton.mp h
      exact head_mem_idsOf hluks
    · rename_i hlegacy hblank
      rcases List.mem_cons.mp h with rfl | h
      · exact head_mem_idsOf hlegacy
      · obtain rfl := List.mem_singleton.mp h
        exact head_mem_idsOf hblank
    · rename_i hlegacy _
      obtain rfl := List.mem_singleton.mp h
      exact head_mem_idsOf hlegacy
    · rename_i hblank
      obtain rfl := List.mem_singleton.mp h
      exact head_mem_idsOf hblank
    · cases h

/-- Only a disk of class `Blank` is ever named as blank. -/
theorem plan_blankDisk {disks : List (String × DiskClass)} {id : String}
    (h : (plan disks).blankDisk = some id) : (id, .blank) ∈ disks := by
  refine plan_named ?_
  cases hp : plan disks with
  | migrate legacy blank =>
    rw [hp] at h
    simp [Plan.named, Option.some.inj h]
  | provision blank =>
    rw [hp] at h
    simp [Plan.named, Option.some.inj h]
  | _ =>
    rw [hp] at h
    cases h

end Foundrix.VarDisk

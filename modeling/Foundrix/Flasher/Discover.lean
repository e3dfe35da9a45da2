import Mathlib.Data.List.Perm.Basic
import Mathlib.Data.List.Nodup
import Foundrix.Text.Str
import Foundrix.Effect.Prog
import Foundrix.Flasher.App

/-!
# The disks on offer

`discover_disks` and `is_mounted` of `packages/flasher-tui/src/main.rs`, for any block
devices, any trees of partitions and mappings on them and any mounts.

* `isMounted`, `diskOfParts`, `discoverDisks`: the code.
* `Node`, `Device`: a block device with all that is built on it.
* `System`: what `lsblk` and `findmnt` print of the devices and the mounts; `System.of`.
* `Device.found`: what the code makes of a device; `discoverDisks_yields`.
* `OffersRight`, `offers_right_iff`: the disks that may be erased, and when it is these that
  are offered.
-/

namespace Foundrix.Flasher

open Text Effect

/-! ## The code -/

/-- `std::process::Output`, its texts as `from_utf8_lossy` reads them. -/
structure Output where
  success : Bool
  stdout : String
  stderr : String := ""
deriving DecidableEq, Repr

inductive CommandOp : Type → Type
  /-- `Command::new(program).args(args).output()`; a program that cannot be started is
  answered with the text of the error. -/
  | output (program : String) (args : List String) : CommandOp (Except String Output)

/-- `findmnt` succeeds on a source; where it cannot be started, it does not. -/
def findmnt (path : String) : Prog CommandOp String Bool := do
  match ← .perform (.output "findmnt" ["-rn", "-S", path]) with
  | .ok o => return o.success
  | .error _ => return false

/-- The loop of `is_mounted` over the lines of `lsblk`. -/
def anyMounted : List String → Prog CommandOp String Bool
  | [] => return false
  | line :: rest => do
    let part := trim line
    if part = "" then anyMounted rest
    else if ← findmnt ("/dev/" ++ part) then return true
    else anyMounted rest

def isMounted (dev_path : String) : Prog CommandOp String Bool := do
  if ← findmnt dev_path then return true
  match ← .perform (.output "lsblk" ["-ln", "-o", "NAME", dev_path]) with
  | .error _ => return false
  | .ok output => anyMounted ((lines output.stdout).drop 1)

/-- The disk that a row shows, unless the row is skipped. -/
def diskOfParts : List String → Option Disk
  | name :: size :: disk_type :: rest =>
    match parseUnsigned 64 size with
    | none => none
    | some size_bytes =>
      if disk_type ≠ "disk" then none
      else
        let transport := rest.headD ""
        let model := join " " rest.tail
        if transport = "usb" ∨ transport = "" then none
        else some { path := "/dev/" ++ name, name, size_bytes, model, transport }
  | _ => none

/-- The loop of `discover_disks` over the rows. -/
def pushDisks : List String → List Disk → Prog CommandOp String (List Disk)
  | [], disks => return disks
  | line :: rest, disks =>
    match diskOfParts (splitWhitespace line) with
    | none => pushDisks rest disks
    | some disk => do
      if ← isMounted disk.path then pushDisks rest disks
      else pushDisks rest (disks ++ [disk])

def discoverDisks : Prog CommandOp String (List Disk) := do
  match ← .perform (.output "lsblk" ["-b", "-dn", "-o", "NAME,SIZE,TYPE,TRAN,MODEL"]) with
  | .error err => .fail ("running lsblk: " ++ err)
  | .ok output =>
    if output.success then
      let disks ← pushDisks (lines output.stdout) []
      return disks.mergeSort fun a b => decide (b.size_bytes ≤ a.size_bytes)
    else .fail ("lsblk failed: " ++ output.stderr)

/-! ## Block devices -/

/-- A partition or a mapping of the device mapper, with what is built on it. -/
inductive Node where
  | mk (name : String) (mapper : Bool) (children : List Node)

namespace Node

def name : Node → String
  | mk name _ _ => name

/-- Where the node stands. -/
def path : Node → String
  | mk name false _ => "/dev/" ++ name
  | mk name true _ => "/dev/mapper/" ++ name

mutual

/-- The node and its descendants. -/
def all : Node → List Node
  | mk name mapper children => mk name mapper children :: allOf children

def allOf : List Node → List Node
  | [] => []
  | n :: ns => n.all ++ allOf ns

end

end Node

/-- A block device of the machine. Its transport may be empty, its model has any number of
words; no name has a blank in it. -/
structure Device where
  name : String
  size : Nat
  type : String
  transport : String
  model : List String
  children : List Node
  name_word : IsWord name
  type_word : IsWord type
  transport_word : transport = "" ∨ IsWord transport
  model_words : ∀ w ∈ model, IsWord w
  node_words : ∀ n ∈ Node.allOf children, IsWord n.name

namespace Device

def descendants (d : Device) : List Node := Node.allOf d.children

def path (d : Device) : String := "/dev/" ++ d.name

/-- The columns that are not empty. -/
def columns (d : Device) : List String :=
  [d.name, d.size.repr, d.type] ++ (if d.transport = "" then [] else [d.transport]) ++ d.model

/-- The device or a descendant is the source of a mount. -/
def Mounted (mounts : List String) (d : Device) : Prop :=
  d.path ∈ mounts ∨ ∃ n ∈ d.descendants, n.path ∈ mounts

instance (mounts : List String) (d : Device) : Decidable (d.Mounted mounts) :=
  inferInstanceAs (Decidable (_ ∨ _))

/-- A device that may be erased. -/
def Erasable (mounts : List String) (d : Device) : Prop :=
  d.type = "disk" ∧ d.transport ≠ "" ∧ d.transport ≠ "usb" ∧ ¬ d.Mounted mounts

instance (mounts : List String) (d : Device) : Decidable (d.Erasable mounts) :=
  inferInstanceAs (Decidable (_ ∧ _))

def asDisk (d : Device) : Disk where
  path := d.path
  name := d.name
  size_bytes := d.size
  model := join " " d.model
  transport := d.transport

end Device

/-- The devices of a machine and the sources of its mounts, and what the commands print of
them. -/
structure System where
  devices : List Device
  mounts : List String
  output : String → List String → Except String Output
  rows : List String
  names_nodup : (devices.map Device.name).Nodup
  /-- One row for each device; the columns have blanks between them. -/
  rows_columns : List.Forall₂ (fun d row => Spaced d.columns row.toList) devices rows
  lists : output "lsblk" ["-b", "-dn", "-o", "NAME,SIZE,TYPE,TRAN,MODEL"] =
    .ok { success := true, stdout := unlines rows }
  /-- Every descendant by its name, behind the device itself. -/
  tree : ∀ d ∈ devices, ∃ names, (∀ x, x ∈ names ↔ x ∈ d.descendants.map Node.name) ∧
    output "lsblk" ["-ln", "-o", "NAME", d.path] =
      .ok { success := true, stdout := unlines (d.name :: names) }
  finds : ∀ p, ∃ o, output "findmnt" ["-rn", "-S", p] = .ok o ∧ (o.success = true ↔ p ∈ mounts)

theorem Device.columns_words (d : Device) : ∀ w ∈ d.columns, IsWord w := by
  intro w hw
  have hcolumns : d.columns = d.name :: d.size.repr :: d.type ::
      ((if d.transport = "" then [] else [d.transport]) ++ d.model) := rfl
  rw [hcolumns] at hw
  rcases List.mem_cons.mp hw with rfl | hw
  · exact d.name_word
  rcases List.mem_cons.mp hw with rfl | hw
  · exact isWord_repr d.size
  rcases List.mem_cons.mp hw with rfl | hw
  · exact d.type_word
  rcases List.mem_append.mp hw with hw | hw
  · split at hw
    · cases hw
    · rename_i hne
      rw [List.mem_singleton] at hw
      exact hw ▸ d.transport_word.resolve_left hne
  · exact d.model_words w hw

/-- A way to print the devices and the mounts. -/
def printed (devices : List Device) (mounts : List String) (program : String)
    (args : List String) : Except String Output :=
  if program = "findmnt" then
    .ok { success := decide (args.getLast? ∈ mounts.map some), stdout := "" }
  else if args = ["-b", "-dn", "-o", "NAME,SIZE,TYPE,TRAN,MODEL"] then
    .ok { success := true, stdout := unlines (devices.map fun d => join " " d.columns) }
  else
    match devices.find? fun d => args.getLast? = some d.path with
    | some d =>
      .ok { success := true, stdout := unlines (d.name :: d.descendants.map Node.name) }
    | none => .ok { success := false, stdout := "", stderr := "not a block device" }

theorem find?_path {devices : List Device} (hnodup : (devices.map Device.name).Nodup) {d : Device}
    (hd : d ∈ devices) : devices.find? (fun e => some d.path = some e.path) = some d := by
  cases hfind : devices.find? fun e => some d.path = some e.path with
  | none =>
    have := List.find?_eq_none.mp hfind d hd
    simp at this
  | some e =>
    have hpath : d.path = e.path := by simpa using List.find?_some hfind
    have hname : e.name = d.name := by simpa [Device.path, eq_comm] using hpath
    rw [List.inj_on_of_nodup_map hnodup (List.mem_of_find?_eq_some hfind) hd hname]

/-- There is a system for any devices and any mounts. -/
def System.of (devices : List Device) (mounts : List String)
    (hnodup : (devices.map Device.name).Nodup) : System where
  devices := devices
  mounts := mounts
  output := printed devices mounts
  rows := devices.map fun d => join " " d.columns
  names_nodup := hnodup
  rows_columns := by
    rw [List.forall₂_map_right_iff, List.forall₂_same]
    exact fun d _ => spaced_join d.columns_words
  lists := rfl
  tree := by
    intro d hd
    refine ⟨d.descendants.map Node.name, fun _ => Iff.rfl, ?_⟩
    unfold printed
    rw [if_neg (by decide), if_neg (by simp)]
    simp only [List.getLast?_cons_cons, List.getLast?_singleton, find?_path hnodup hd]
  finds := by
    intro p
    refine ⟨_, rfl, ?_⟩
    simp

/-- The answers of the system to the commands. -/
def System.answer (s : System) : {β : Type} → CommandOp β → β
  | _, .output program args => s.output program args

/-- It ends with one list on every run: the disks that may be erased with their own transport
and model, the largest first. -/
def OffersRight (s : System) : Prop :=
  ∃ disks, (∀ o, Run (Handler.answering Unit s.answer) discoverDisks () (some o) () ↔
      o = .ok disks) ∧
    disks.Perm ((s.devices.filter fun d => decide (d.Erasable s.mounts)).map Device.asDisk) ∧
    disks.Pairwise fun a b => b.size_bytes ≤ a.size_bytes

/-! ## What the code finds -/

/-- What `is_mounted` looks for: every descendant right under `/dev`. -/
def Device.SeenMounted (mounts : List String) (d : Device) : Prop :=
  d.path ∈ mounts ∨ ∃ n ∈ d.descendants, "/dev/" ++ n.name ∈ mounts

instance (mounts : List String) (d : Device) : Decidable (d.SeenMounted mounts) :=
  inferInstanceAs (Decidable (_ ∨ _))

/-- The disk that the code makes of a device. -/
def Device.found (mounts : List String) (d : Device) : Option Disk :=
  (diskOfParts d.columns).filter fun _ => decide (¬ d.SeenMounted mounts)

theorem findmnt_yields (s : System) (p : String) :
    (findmnt p).Yields s.answer (.ok (decide (p ∈ s.mounts))) := by
  obtain ⟨o, ho, hmem⟩ := s.finds p
  refine Prog.yields_bind Prog.yields_perform ?_
  have hfinds : o.success = decide (p ∈ s.mounts) := by
    rw [Bool.eq_iff_iff, hmem, decide_eq_true_eq]
  rw [System.answer, ho, ← hfinds]
  rfl

theorem anyMounted_yields (s : System) {names : List String} (hwords : ∀ x ∈ names, IsWord x) :
    (anyMounted names).Yields s.answer
      (.ok (names.any fun x => decide ("/dev/" ++ x ∈ s.mounts))) := by
  induction names with
  | nil => rfl
  | cons x names ih =>
    have hx := hwords x List.mem_cons_self
    have htrim : trim x = x := trim_of_all hx.2
    have hrest := ih fun y hy => hwords y (List.mem_cons_of_mem _ hy)
    rw [anyMounted, htrim, if_neg hx.1]
    refine Prog.yields_bind (findmnt_yields s _) ?_
    by_cases hmem : "/dev/" ++ x ∈ s.mounts
    · simp only [hmem, decide_true, if_true, List.any_cons, Bool.true_or]
      rfl
    · simp only [hmem, decide_false, List.any_cons, Bool.false_or]
      exact hrest

theorem isMounted_yields (s : System) {d : Device} (hd : d ∈ s.devices) :
    (isMounted d.path).Yields s.answer (.ok (decide (d.SeenMounted s.mounts))) := by
  obtain ⟨names, hnames, hout⟩ := s.tree d hd
  have hword : ∀ x ∈ names, IsWord x := by
    intro x hx
    obtain ⟨n, hn, rfl⟩ := List.mem_map.mp ((hnames x).mp hx)
    exact d.node_words n hn
  have hlines : lines (unlines (d.name :: names)) = d.name :: names := by
    refine lines_unlines fun row hrow => ?_
    rcases List.mem_cons.mp hrow with rfl | hrow
    · exact d.name_word.one_line
    · exact (hword row hrow).one_line
  have hany : (names.any fun x => decide ("/dev/" ++ x ∈ s.mounts)) =
      decide (∃ n ∈ d.descendants, "/dev/" ++ n.name ∈ s.mounts) := by
    rw [Bool.eq_iff_iff, List.any_eq_true, decide_eq_true_eq]
    constructor
    · rintro ⟨x, hx, hmem⟩
      obtain ⟨n, hn, rfl⟩ := List.mem_map.mp ((hnames x).mp hx)
      exact ⟨n, hn, of_decide_eq_true hmem⟩
    · rintro ⟨n, hn, hmem⟩
      exact ⟨n.name, (hnames _).mpr (List.mem_map_of_mem hn), decide_eq_true hmem⟩
  refine Prog.yields_bind (findmnt_yields s _) ?_
  by_cases hself : d.path ∈ s.mounts
  · simp only [hself, decide_true, if_true, Device.SeenMounted, true_or]
    rfl
  · have hseen : decide (d.SeenMounted s.mounts) =
        names.any fun x => decide ("/dev/" ++ x ∈ s.mounts) := by
      rw [hany]
      simp only [Device.SeenMounted, hself, false_or]
    simp only [hself, decide_false]
    refine Prog.yields_bind Prog.yields_perform ?_
    rw [System.answer, hout]
    show (anyMounted ((lines (unlines (d.name :: names))).drop 1)).Yields _ _
    rw [hlines, hseen]
    exact anyMounted_yields s hword

/-- What is read as the transport: behind an empty one, the first word of the model. -/
def Device.readTransport (d : Device) : String :=
  if d.transport = "" then d.model.headD "" else d.transport

def Device.readModel (d : Device) : List String :=
  if d.transport = "" then d.model.tail else d.model

theorem diskOfParts_device (d : Device) :
    diskOfParts d.columns =
      if d.size < 2 ^ 64 ∧ d.type = "disk" ∧ d.readTransport ≠ "usb" ∧ d.readTransport ≠ "" then
        some ⟨d.path, d.name, d.size, join " " d.readModel, d.readTransport⟩
      else none := by
  have hcolumns : d.columns = d.name :: d.size.repr :: d.type ::
      ((if d.transport = "" then [] else [d.transport]) ++ d.model) := rfl
  have hhead : ((if d.transport = "" then [] else [d.transport]) ++ d.model).headD "" =
      d.readTransport := by
    unfold Device.readTransport
    split <;> rfl
  have htail : ((if d.transport = "" then [] else [d.transport]) ++ d.model).tail =
      d.readModel := by
    unfold Device.readModel
    split <;> rfl
  rw [hcolumns, diskOfParts, parseUnsigned_repr]
  simp only [hhead, htail]
  by_cases hsize : d.size < 2 ^ 64
  · simp only [hsize, if_true, true_and]
    by_cases htype : d.type = "disk"
    · by_cases htran : d.readTransport = "usb" ∨ d.readTransport = ""
      · rw [if_neg (by simp [htype]), if_pos htran, if_neg (by tauto)]
      · rw [if_neg (by simp [htype]), if_neg htran, if_pos (by tauto)]
        rfl
    · rw [if_pos htype, if_neg (by tauto)]
  · simp only [hsize, if_false, false_and]

/-- A disk that is found stands at the device's node under its name. -/
theorem diskOfParts_columns {d : Device} {disk : Disk} (h : diskOfParts d.columns = some disk) :
    disk.path = d.path ∧ disk.name = d.name := by
  rw [diskOfParts_device] at h
  split at h
  · cases h
    exact ⟨rfl, rfl⟩
  · cases h

theorem pushDisks_yields (s : System) {devices : List Device} {rows : List String}
    (hrows : List.Forall₂ (fun d row => Spaced d.columns row.toList) devices rows)
    (hmem : ∀ d ∈ devices, d ∈ s.devices) (disks : List Disk) :
    (pushDisks rows disks).Yields s.answer
      (.ok (disks ++ devices.filterMap (Device.found s.mounts))) := by
  induction hrows generalizing disks with
  | nil => simp [pushDisks, Prog.Yields]
  | @cons d row devices rows hrow _ ih =>
    have hd := hmem d List.mem_cons_self
    have hrest := ih fun e he => hmem e (List.mem_cons_of_mem _ he)
    rw [pushDisks, hrow.splitWhitespace_eq]
    cases hparts : diskOfParts d.columns with
    | none =>
      have hfound : d.found s.mounts = none := by simp [Device.found, hparts]
      rw [List.filterMap_cons_none hfound]
      exact hrest disks
    | some disk =>
      refine Prog.yields_bind ?_ ?_ (a := decide (d.SeenMounted s.mounts))
      · rw [(diskOfParts_columns hparts).1]
        exact isMounted_yields s hd
      · by_cases hseen : d.SeenMounted s.mounts
        · have hfound : d.found s.mounts = none := by simp [Device.found, hparts, hseen]
          rw [List.filterMap_cons_none hfound, decide_eq_true hseen]
          exact hrest disks
        · have hfound : d.found s.mounts = some disk := by simp [Device.found, hparts, hseen]
          rw [List.filterMap_cons_some hfound, decide_eq_false hseen]
          simpa using hrest (disks ++ [disk])

/-- The disks that are offered, in their order. -/
def System.offered (s : System) : List Disk :=
  (s.devices.filterMap (Device.found s.mounts)).mergeSort
    fun a b => decide (b.size_bytes ≤ a.size_bytes)

theorem discoverDisks_yields (s : System) : discoverDisks.Yields s.answer (.ok s.offered) := by
  have hlines : lines (unlines s.rows) = s.rows := by
    refine lines_unlines fun row hrow => ?_
    obtain ⟨i, hi, rfl⟩ := List.getElem_of_mem hrow
    have hlen := s.rows_columns.length_eq
    exact (List.Forall₂.get s.rows_columns (hlen ▸ hi) hi).one_line
  have hpush := pushDisks_yields s s.rows_columns (fun _ h => h) []
  refine Prog.yields_bind Prog.yields_perform ?_
  rw [System.answer, s.lists]
  show (Prog.bind (pushDisks (lines (unlines s.rows)) []) _).Yields _ _
  rw [hlines]
  exact Prog.yields_bind hpush rfl

/-! ## When the right disks are offered -/

/-- The disk that a device should be offered as. -/
def Device.expected (mounts : List String) (d : Device) : Option Disk :=
  if d.Erasable mounts then some d.asDisk else none

theorem Device.found_name {mounts : List String} {d : Device} {disk : Disk}
    (h : d.found mounts = some disk) : disk.name = d.name :=
  (diskOfParts_columns (Option.filter_eq_some_iff.mp h).1).2

theorem Device.expected_name {mounts : List String} {d : Device} {disk : Disk}
    (h : d.expected mounts = some disk) : disk.name = d.name := by
  unfold Device.expected at h
  split at h
  · cases h
    rfl
  · cases h

theorem filter_map_expected (mounts : List String) (devices : List Device) :
    (devices.filter fun d => decide (d.Erasable mounts)).map Device.asDisk =
      devices.filterMap (Device.expected mounts) := by
  induction devices with
  | nil => rfl
  | cons d devices ih =>
    by_cases hd : d.Erasable mounts
    · have hexp : d.expected mounts = some d.asDisk := if_pos hd
      rw [List.filter_cons_of_pos (by simpa using hd), List.map_cons, ih,
        List.filterMap_cons_some hexp]
    · have hexp : d.expected mounts = none := if_neg hd
      rw [List.filter_cons_of_neg (by simpa using hd), ih, List.filterMap_cons_none hexp]

/-- A part of `devices` that shows one device under its name. -/
theorem shown_by {f g : Device → Option Disk} {devices : List Device}
    (hnodup : (devices.map Device.name).Nodup)
    (hf : ∀ {d disk}, f d = some disk → disk.name = d.name)
    (hg : ∀ {d disk}, g d = some disk → disk.name = d.name)
    (hperm : (devices.filterMap f).Perm (devices.filterMap g)) {d : Device} (hd : d ∈ devices)
    {disk : Disk} (hfd : f d = some disk) : g d = some disk := by
  have hmem : disk ∈ devices.filterMap g :=
    hperm.mem_iff.mp (List.mem_filterMap.mpr ⟨d, hd, hfd⟩)
  obtain ⟨d', hd', hgd⟩ := List.mem_filterMap.mp hmem
  have hname : d.name = d'.name := (hf hfd).symm.trans (hg hgd)
  rwa [List.inj_on_of_nodup_map hnodup hd hd' hname]

/-- Devices with names of their own are told apart by what they show. -/
theorem perm_filterMap_iff {f g : Device → Option Disk} {devices : List Device}
    (hnodup : (devices.map Device.name).Nodup)
    (hf : ∀ {d disk}, f d = some disk → disk.name = d.name)
    (hg : ∀ {d disk}, g d = some disk → disk.name = d.name) :
    (devices.filterMap f).Perm (devices.filterMap g) ↔ ∀ d ∈ devices, f d = g d := by
  constructor
  · intro hperm d hd
    cases hfd : f d with
    | some disk => exact (shown_by hnodup hf hg hperm hd hfd).symm
    | none =>
      cases hgd : g d with
      | none => rfl
      | some disk =>
        rw [shown_by hnodup hg hf hperm.symm hd hgd] at hfd
        cases hfd
  · intro h
    rw [List.filterMap_congr h]

theorem offersRight_iff_found (s : System) :
    OffersRight s ↔ ∀ d ∈ s.devices, d.found s.mounts = d.expected s.mounts := by
  have hruns : ∀ o, Run (Handler.answering Unit s.answer) discoverDisks () (some o) () ↔
      o = .ok s.offered := by
    intro o
    rw [(discoverDisks_yields s).run_iff]
    simp
  have hperm : s.offered.Perm (s.devices.filterMap (Device.found s.mounts)) :=
    List.mergeSort_perm _ _
  have hsorted : s.offered.Pairwise fun a b => b.size_bytes ≤ a.size_bytes := by
    have htrans : ∀ a b c : Disk, decide (b.size_bytes ≤ a.size_bytes) →
        decide (c.size_bytes ≤ b.size_bytes) → decide (c.size_bytes ≤ a.size_bytes) := by
      simp only [decide_eq_true_eq]
      omega
    have htotal : ∀ a b : Disk, (decide (b.size_bytes ≤ a.size_bytes) ||
        decide (a.size_bytes ≤ b.size_bytes)) := by
      simp only [Bool.or_eq_true, decide_eq_true_eq]
      omega
    have h := List.pairwise_mergeSort htrans htotal (s.devices.filterMap (Device.found s.mounts))
    exact h.imp fun hab => of_decide_eq_true hab
  rw [← perm_filterMap_iff s.names_nodup Device.found_name Device.expected_name,
    ← filter_map_expected]
  constructor
  · rintro ⟨disks, hdisks, hexpected, _⟩
    have hoffered : disks = s.offered := by
      have := (hruns (.ok disks)).mp ((hdisks _).mpr rfl)
      simpa using this
    rw [hoffered] at hexpected
    exact hperm.symm.trans hexpected
  · exact fun h => ⟨s.offered, hruns, hperm.trans h, hsorted⟩

/-- A disk is judged by its own columns and nodes: without a transport it has no model, one
that begins with `usb`, or is skipped for another reason; with one, the mounts that the code
looks for are there exactly when it is in use, and its size is a number of 64 bits. -/
def Device.Judged (mounts : List String) (d : Device) : Prop :=
  d.type = "disk" →
    (d.transport = "" → d.model = [] ∨ d.model.head? = some "usb" ∨ d.SeenMounted mounts ∨
      2 ^ 64 ≤ d.size) ∧
    (d.transport ≠ "" → d.transport ≠ "usb" →
      (d.Mounted mounts → d.SeenMounted mounts ∨ 2 ^ 64 ≤ d.size) ∧
      (¬ d.Mounted mounts → ¬ d.SeenMounted mounts ∧ d.size < 2 ^ 64))

theorem Device.found_eq (mounts : List String) (d : Device) :
    d.found mounts =
      if (d.size < 2 ^ 64 ∧ d.type = "disk" ∧ d.readTransport ≠ "usb" ∧ d.readTransport ≠ "") ∧
          ¬ d.SeenMounted mounts then
        some ⟨d.path, d.name, d.size, join " " d.readModel, d.readTransport⟩
      else none := by
  rw [Device.found, diskOfParts_device]
  by_cases hrow : d.size < 2 ^ 64 ∧ d.type = "disk" ∧ d.readTransport ≠ "usb" ∧
      d.readTransport ≠ ""
  · by_cases hseen : d.SeenMounted mounts
    · rw [if_pos hrow, if_neg fun h => h.2 hseen, Option.filter_some, if_neg (by simpa using hseen)]
    · rw [if_pos hrow, if_pos ⟨hrow, hseen⟩, Option.filter_some, if_pos (by simpa using hseen)]
  · rw [if_neg hrow, if_neg fun h => hrow h.1]
    rfl

/-- A model that has words begins with one. -/
theorem Device.headD_model (d : Device) : d.model.headD "" = "" ↔ d.model = [] := by
  cases hm : d.model with
  | nil => simp
  | cons w ws =>
    have hw := d.model_words w (by simp [hm])
    simpa using hw.1

theorem Device.found_expected_no_transport {mounts : List String} {d : Device}
    (htype : d.type = "disk") (htran : d.transport = "") :
    d.found mounts = d.expected mounts ↔
      d.model = [] ∨ d.model.head? = some "usb" ∨ d.SeenMounted mounts ∨ 2 ^ 64 ≤ d.size := by
  have hread : d.readTransport = d.model.headD "" := if_pos htran
  have hexp : d.expected mounts = none := if_neg fun h => h.2.1 htran
  have husb : d.model.headD "" = "usb" ↔ d.model.head? = some "usb" := by
    cases d.model <;> simp
  rw [hexp, d.found_eq, hread, ite_eq_right_iff, ← d.headD_model, ← husb, ← not_lt]
  simp only [htype, true_and, reduceCtorEq, imp_false]
  tauto

theorem Device.found_expected_transport {mounts : List String} {d : Device}
    (htype : d.type = "disk") (htran : d.transport ≠ "") (husb : d.transport ≠ "usb") :
    d.found mounts = d.expected mounts ↔
      (d.Mounted mounts → d.SeenMounted mounts ∨ 2 ^ 64 ≤ d.size) ∧
      (¬ d.Mounted mounts → ¬ d.SeenMounted mounts ∧ d.size < 2 ^ 64) := by
  have hread : d.readTransport = d.transport := if_neg htran
  have hmodel : d.readModel = d.model := if_neg htran
  have hfound : d.found mounts =
      if d.size < 2 ^ 64 ∧ ¬ d.SeenMounted mounts then some d.asDisk else none := by
    rw [d.found_eq, hread, hmodel]
    simp only [htype, htran, husb, ne_eq, not_false_eq_true, and_true]
    rfl
  have hexp : d.expected mounts = if ¬ d.Mounted mounts then some d.asDisk else none := by
    rw [Device.expected]
    simp only [Device.Erasable, htype, htran, husb, ne_eq, not_false_eq_true, true_and]
  rw [hfound, hexp, ← not_lt]
  by_cases hfind : d.size < 2 ^ 64 ∧ ¬ d.SeenMounted mounts
  · by_cases hm : d.Mounted mounts
    · rw [if_pos hfind, if_neg (not_not.mpr hm)]
      simp only [reduceCtorEq, false_iff]
      tauto
    · rw [if_pos hfind, if_pos hm]
      simp only [true_iff]
      tauto
  · by_cases hm : d.Mounted mounts
    · rw [if_neg hfind, if_neg (not_not.mpr hm)]
      simp only [true_iff]
      tauto
    · rw [if_neg hfind, if_pos hm]
      simp only [reduceCtorEq, false_iff]
      tauto

theorem Device.found_expected_iff (mounts : List String) (d : Device) :
    d.found mounts = d.expected mounts ↔ d.Judged mounts := by
  by_cases htype : d.type = "disk"
  · by_cases htran : d.transport = ""
    · rw [Device.found_expected_no_transport htype htran]
      exact ⟨fun h _ => ⟨fun _ => h, fun hne => absurd htran hne⟩, fun h => (h htype).1 htran⟩
    by_cases husb : d.transport = "usb"
    · have hread : d.readTransport = d.transport := if_neg htran
      have hfound : d.found mounts = none := by
        rw [d.found_eq, hread, if_neg fun h => h.1.2.2.1 husb]
      have hexp : d.expected mounts = none := if_neg fun h => h.2.2.1 husb
      rw [hfound, hexp]
      exact ⟨fun _ _ => ⟨fun he => absurd he htran, fun _ hne => absurd husb hne⟩, fun _ => rfl⟩
    · rw [Device.found_expected_transport htype htran husb]
      exact ⟨fun h _ => ⟨fun he => absurd he htran, fun _ _ => h⟩,
        fun h => (h htype).2 htran husb⟩
  · have hfound : d.found mounts = none := by
      rw [d.found_eq, if_neg fun h => htype h.1.2.1]
    have hexp : d.expected mounts = none := if_neg fun h => htype h.1
    rw [hfound, hexp]
    exact ⟨fun _ h => absurd h htype, fun _ => rfl⟩

/-- **The disks on offer** are the ones that may be erased exactly when every device is judged
by its own columns and nodes. -/
theorem offers_right_iff (s : System) :
    OffersRight s ↔ ∀ d ∈ s.devices, d.Judged s.mounts := by
  rw [offersRight_iff_found]
  exact forall₂_congr fun d _ => d.found_expected_iff s.mounts

/-! ## A disk that must not be erased -/

/-- A disk without a transport, of the model `Virtual Disk`. -/
def virtualDisk : Device where
  name := "sdz"
  size := 4096
  type := "disk"
  transport := ""
  model := ["Virtual", "Disk"]
  children := []
  name_word := isWord_of_all (by decide) (by decide)
  type_word := isWord_of_all (by decide) (by decide)
  transport_word := Or.inl rfl
  model_words := by
    intro w hw
    rcases List.mem_cons.mp hw with rfl | hw
    · exact isWord_of_all (by decide) (by decide)
    rcases List.mem_cons.mp hw with rfl | hw
    · exact isWord_of_all (by decide) (by decide)
    · cases hw
  node_words := by simp [Node.allOf]

/-- A disk with a partition on which an encrypted volume was opened. -/
def systemDisk : Device where
  name := "nvme0n1"
  size := 8192
  type := "disk"
  transport := "nvme"
  model := ["SSD"]
  children := [.mk "nvme0n1p1" false [.mk "cryptroot" true []]]
  name_word := isWord_of_all (by decide) (by decide)
  type_word := isWord_of_all (by decide) (by decide)
  transport_word := Or.inr (isWord_of_all (by decide) (by decide))
  model_words := by
    intro w hw
    rcases List.mem_cons.mp hw with rfl | hw
    · exact isWord_of_all (by decide) (by decide)
    · cases hw
  node_words := by
    intro n hn
    simp only [Node.allOf, Node.all, List.append_nil, List.mem_cons, List.not_mem_nil,
      or_false] at hn
    rcases hn with rfl | rfl
    · exact isWord_of_all (by decide) (by decide)
    · exact isWord_of_all (by decide) (by decide)

/-- Both disks, with the opened volume mounted. -/
def machineRoom : System :=
  .of [virtualDisk, systemDisk] ["/dev/mapper/cryptroot"] (by decide)

/-- The virtual disk and the disk in use are both offered. -/
theorem mounted_offered :
    ¬ OffersRight machineRoom ∧
    ∃ disks, (∀ o, Run (Handler.answering Unit machineRoom.answer) discoverDisks () (some o) () ↔
        o = .ok disks) ∧
      ⟨"/dev/sdz", "sdz", 4096, "Disk", "Virtual"⟩ ∈ disks ∧
      ⟨"/dev/nvme0n1", "nvme0n1", 8192, "SSD", "nvme"⟩ ∈ disks := by
  have hvirtual : virtualDisk.found machineRoom.mounts =
      some ⟨"/dev/sdz", "sdz", 4096, "Disk", "Virtual"⟩ := by
    rw [Device.found_eq, if_pos (by decide)]
    rfl
  have hsystem : systemDisk.found machineRoom.mounts =
      some ⟨"/dev/nvme0n1", "nvme0n1", 8192, "SSD", "nvme"⟩ := by
    rw [Device.found_eq, if_pos (by decide)]
    rfl
  have hoffered : ∀ {d : Device} {disk : Disk}, d ∈ machineRoom.devices →
      d.found machineRoom.mounts = some disk → disk ∈ machineRoom.offered := by
    intro d disk hd hfound
    exact (List.mergeSort_perm _ _).mem_iff.mpr (List.mem_filterMap.mpr ⟨d, hd, hfound⟩)
  refine ⟨fun hright => ?_, machineRoom.offered, fun o => ?_, hoffered ?_ hvirtual,
    hoffered ?_ hsystem⟩
  · have hall := (offersRight_iff_found machineRoom).mp hright virtualDisk List.mem_cons_self
    have hexp : virtualDisk.expected machineRoom.mounts = none := if_neg fun h => h.2.1 rfl
    rw [hvirtual, hexp] at hall
    cases hall
  · rw [(discoverDisks_yields machineRoom).run_iff]
    simp
  · exact List.mem_cons_self
  · exact List.mem_cons_of_mem _ List.mem_cons_self

end Foundrix.Flasher

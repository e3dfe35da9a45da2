import Foundrix.Effect.Prog
import Foundrix.HyprWorkspaced.Ipc
import Foundrix.HyprWorkspaced.Registry
import Mathlib.Data.List.Nodup

/-!
# Collapsing windows onto the active workspace

`WorkspaceManager::collapse` of `packages/hypr-workspaced/src/workspace.rs` against a
Hyprland that answers every request. A window is out of reach when no monitor that is
attached can show its workspace, and `collapse invisible` is there to bring such windows back.

* `collapse`: the queries and the requests.
* `Desk`, `hyprland`: the windows and what moving one does.
* `run_collapse`: what a run leaves.
* `collapse_rescues_iff`: when it moves the windows that are out of reach and no other. Which
  slots there are is told from their number, and the slots in use need not be the first.
-/

namespace Foundrix.HyprWorkspaced

open Effect Text

/-! ## The program -/

/-- What the daemon reads of a window. -/
structure Client where
  address : String
  workspace : Int
deriving DecidableEq, Repr

/-- Whether the id is one of a virtual workspace, of a slot below the number of monitors. -/
def isValidWorkspace (id : Int) (numMonitors : Nat) : Bool :=
  match VirtualWorkspace.fromHyprlandId id with
  | some _ => (MonitorSlot.fromHyprlandId id).index.toNat < numMonitors
  | none => false

/-- The requests that `collapse` makes, each of which may fail. -/
inductive HyprlandOp : Type → Type where
  | activeWorkspace : HyprlandOp (Except String Int)
  | clients : HyprlandOp (Except String (List Client))
  | monitors : HyprlandOp (Except String (List Monitor))
  | moveWindow (window : String) (workspace : Int) : HyprlandOp (Except String Unit)

/-- A request and `?`. -/
def request {α : Type} (e : HyprlandOp (Except String α)) : Prog HyprlandOp String α := do
  Prog.orFail (← Prog.perform e)

def shouldMove (mode : CollapseMode) (currentWsId : Int) (currentVws : VirtualWorkspace)
    (numMonitors : Nat) (client : Client) : Bool :=
  if client.workspace ≤ 0 then false
  else
    match mode with
    | .all =>
      match VirtualWorkspace.fromHyprlandId client.workspace with
      | some v => v = currentVws ∧ client.workspace ≠ currentWsId
      | none => false
    | .invisible => !isValidWorkspace client.workspace numMonitors

/-- The clients in the order of the list. -/
def collapseClients (move : Client → Bool) (currentWsId : Int) :
    List Client → Prog HyprlandOp String Unit
  | [] => return
  | client :: clients => do
    if move client then request (.moveWindow client.address currentWsId)
    collapseClients move currentWsId clients

def collapse (mode : CollapseMode) : Prog HyprlandOp String Unit := do
  let currentWsId ← request .activeWorkspace
  match VirtualWorkspace.fromHyprlandId currentWsId with
  | none => return
  | some currentVws =>
    let clients ← request .clients
    let monitors ← request .monitors
    collapseClients (shouldMove mode currentWsId currentVws monitors.length) currentWsId clients

/-! ## A Hyprland that answers -/

/-- The windows, of which each has an address of its own, the monitors that are attached, the
workspace that is active and the moves that were requested. -/
structure Desk where
  windows : List Client
  distinct : (windows.map Client.address).Nodup
  listing : Listing
  active : Int
  moves : List (String × Int) := []

def Client.moved (window : String) (workspace : Int) (c : Client) : Client :=
  if c.address = window then { c with workspace } else c

@[simp] theorem Client.moved_address (window : String) (workspace : Int) (c : Client) :
    (c.moved window workspace).address = c.address := by
  unfold Client.moved
  split <;> rfl

def Desk.move (d : Desk) (window : String) (workspace : Int) : Desk where
  windows := d.windows.map (Client.moved window workspace)
  distinct := by
    rw [List.map_map, show Client.address ∘ Client.moved window workspace = Client.address from
      funext fun c => c.moved_address window workspace]
    exact d.distinct
  listing := d.listing
  active := d.active
  moves := d.moves ++ [(window, workspace)]

/-- Every request succeeds. -/
def hyprland : Handler HyprlandOp Desk where
  step e d b d' :=
    match e with
    | .activeWorkspace => b = .ok d.active ∧ d' = d
    | .clients => b = .ok d.windows ∧ d' = d
    | .monitors => b = .ok d.listing.monitors ∧ d' = d
    | .moveWindow window workspace => b = .ok () ∧ d' = d.move window workspace

section Runs

variable {d d' : Desk} {r : Except String Unit}

/-- A request that is answered is one step. -/
theorem run_request {α β : Type} {e : HyprlandOp (Except String α)} {a : α} {t : Desk}
    (h : ∀ b d', hyprland.step e d b d' ↔ b = .ok a ∧ d' = t)
    {k : α → Prog HyprlandOp String β} {o : Except String β} :
    Run hyprland ((request e).bind k) d (some o) d' ↔ Run hyprland (k a) t (some o) d' := by
  show Run hyprland (.op e fun b => ((Prog.orFail b).bind k)) d (some o) d' ↔ _
  rw [run_op]
  constructor
  · rintro (⟨h', -⟩ | ⟨b, v, hs, hrest⟩)
    · cases h'
    · obtain ⟨rfl, rfl⟩ := (h b v).mp hs
      exact hrest
  · intro hrest
    exact Or.inr ⟨.ok a, t, (h _ _).mpr ⟨rfl, rfl⟩, hrest⟩

/-- The moves of the clients chosen, one after the other. -/
def Desk.moveAll (d : Desk) (workspace : Int) (clients : List Client) : Desk :=
  clients.foldl (fun d c => d.move c.address workspace) d

theorem run_collapseClients (move : Client → Bool) (id : Int) (clients : List Client) (d : Desk) :
    Run hyprland (collapseClients move id clients) d (some r) d' ↔
      r = .ok () ∧ d' = d.moveAll id (clients.filter move) := by
  induction clients generalizing d with
  | nil =>
    show Run hyprland (.pure ()) d (some r) d' ↔ _
    rw [run_pure]
    simp [Desk.moveAll, and_comm]
  | cons c clients ih =>
    by_cases hc : move c = true
    · have hprog : collapseClients move id (c :: clients) =
          (request (.moveWindow c.address id)).bind fun _ => collapseClients move id clients := by
        simp [collapseClients, hc]
      rw [hprog, run_request (a := ()) (t := d.move c.address id), ih, List.filter_cons_of_pos hc]
      · rfl
      · exact fun b v => Iff.rfl
    · have hprog : collapseClients move id (c :: clients) = collapseClients move id clients := by
        simp [collapseClients, hc]
      rw [hprog, ih, List.filter_cons_of_neg hc]

theorem run_collapse {mode : CollapseMode} {v : VirtualWorkspace}
    (hv : VirtualWorkspace.fromHyprlandId d.active = some v) :
    Run hyprland (collapse mode) d (some r) d' ↔
      r = .ok () ∧ d' = d.moveAll d.active
        (d.windows.filter (shouldMove mode d.active v d.listing.monitors.length)) := by
  unfold collapse
  simp only [Prog.bind_eq]
  rw [run_request (a := d.active) (t := d) fun b w => Iff.rfl]
  simp only [hv]
  rw [run_request (a := d.windows) (t := d) fun b w => Iff.rfl,
    run_request (a := d.listing.monitors) (t := d) fun b w => Iff.rfl]
  exact run_collapseClients _ _ _ _

end Runs

/-! ## What a run leaves -/

theorem moveAll_moves (d : Desk) (id : Int) (clients : List Client) :
    (d.moveAll id clients).moves = d.moves ++ clients.map fun c => (c.address, id) := by
  unfold Desk.moveAll
  induction clients generalizing d with
  | nil => simp
  | cons c clients ih =>
    rw [List.foldl_cons, ih]
    simp [Desk.move]

/-- A window is on the workspace if it was moved, and where it was otherwise. -/
theorem moveAll_windows (d : Desk) (id : Int) (clients : List Client) :
    (d.moveAll id clients).windows = d.windows.map fun c =>
      if c.address ∈ clients.map Client.address then { c with workspace := id } else c := by
  unfold Desk.moveAll
  induction clients generalizing d with
  | nil => simp
  | cons m clients ih =>
    rw [List.foldl_cons, ih]
    simp only [Desk.move, List.map_map, List.map_cons]
    apply List.map_congr_left
    intro c _
    by_cases hm : c.address = m.address
    · by_cases hrest : m.address ∈ clients.map Client.address
      · simp [Client.moved, hm, hrest]
      · simp [Client.moved, hm, hrest]
    · simp [Client.moved, hm]

/-- The windows of a desk are told by their addresses. -/
theorem Desk.eq_of_address (d : Desk) {c c' : Client} (hc : c ∈ d.windows) (hc' : c' ∈ d.windows)
    (h : c.address = c'.address) : c = c' :=
  List.inj_on_of_nodup_map d.distinct hc hc' h

theorem mem_addresses (d : Desk) {p : Client → Bool} {c : Client} (hc : c ∈ d.windows) :
    c.address ∈ (d.windows.filter p).map Client.address ↔ p c = true := by
  constructor
  · intro h
    obtain ⟨c', hc', haddress⟩ := List.mem_map.mp h
    obtain ⟨hmem, hp⟩ := List.mem_filter.mp hc'
    rwa [d.eq_of_address hmem hc haddress] at hp
  · intro hp
    exact List.mem_map_of_mem (List.mem_filter.mpr ⟨hc, hp⟩)

/-! ## Windows out of reach -/

/-- A workspace that an attached monitor can show. -/
def Shown (layout : MonitorLayout) (monitors : List Monitor) (id : Int) : Prop :=
  ∃ m ∈ monitors, ∃ v : VirtualWorkspace, id = v.hyprlandId (layout.slotFor m.id)

/-- The ids of a slot are those of one ten, without the first. -/
theorem exists_hyprlandId {id : Int} {s : MonitorSlot} :
    (∃ v : VirtualWorkspace, id = v.hyprlandId s) ↔ id % 10 ≠ 0 ∧ id / 10 = s.index.toNat := by
  constructor
  · rintro ⟨⟨n, hn⟩, hid⟩
    simp only [VirtualWorkspace.hyprlandId] at hid
    omega
  · rintro ⟨hmod, hdiv⟩
    refine ⟨⟨(id % 10).toNat, by omega⟩, ?_⟩
    simp only [VirtualWorkspace.hyprlandId]
    omega

theorem shown_iff {layout : MonitorLayout} {monitors : List Monitor} {id : Int} :
    Shown layout monitors id ↔
      id % 10 ≠ 0 ∧ ∃ m ∈ monitors, id / 10 = (layout.slotFor m.id).index.toNat := by
  unfold Shown
  constructor
  · rintro ⟨m, hm, hv⟩
    obtain ⟨hmod, hdiv⟩ := exists_hyprlandId.mp hv
    exact ⟨hmod, m, hm, hdiv⟩
  · rintro ⟨hmod, m, hm, hdiv⟩
    exact ⟨m, hm, exists_hyprlandId.mpr ⟨hmod, hdiv⟩⟩

instance (layout : MonitorLayout) (monitors : List Monitor) (id : Int) :
    Decidable (Shown layout monitors id) := decidable_of_iff _ shown_iff.symm

/-- A window that no attached monitor can show and that is not on a special workspace. -/
def OutOfReach (layout : MonitorLayout) (monitors : List Monitor) (c : Client) : Prop :=
  0 < c.workspace ∧ ¬ Shown layout monitors c.workspace

instance (layout : MonitorLayout) (monitors : List Monitor) (c : Client) :
    Decidable (OutOfReach layout monitors c) := inferInstanceAs (Decidable (_ ∧ _))

/-- The windows out of reach were moved to the active workspace, and the others are where
they were. -/
structure Rescued (layout : MonitorLayout) (d d' : Desk) : Prop where
  moves : d'.moves = d.moves ++
    (d.windows.filter fun c => OutOfReach layout d.listing.monitors c).map
      fun c => (c.address, d.active)
  windows : d'.windows = d.windows.map fun c =>
    if OutOfReach layout d.listing.monitors c then { c with workspace := d.active } else c

/-- `collapse invisible`, which always ends, rescues the windows out of reach. -/
def Rescues (layout : MonitorLayout) (d : Desk) : Prop :=
  (∃ r d', Run hyprland (collapse .invisible) d (some r) d') ∧
    ∀ r d', Run hyprland (collapse .invisible) d (some r) d' → r = .ok () ∧ Rescued layout d d'

/-! ## Slots told from their number -/

theorem isValidWorkspace_iff {id : Int} (hid : 0 < id) {n : Nat} :
    isValidWorkspace id n = true ↔ id % 10 ≠ 0 ∧ id / 10 % 256 < n := by
  have hslot : ((MonitorSlot.fromHyprlandId id).index.toNat : Int) = id / 10 % 256 := by
    unfold MonitorSlot.fromHyprlandId
    split
    · show (0 : Int) = _
      omega
    · simp only [UInt8.ofInt, UInt8.toNat_ofNat']
      omega
  unfold isValidWorkspace VirtualWorkspace.fromHyprlandId
  by_cases hmod : id % 10 = 0
  · simp [hmod]
  · rw [dif_neg (by omega)]
    simp only [decide_eq_true_eq, hmod, not_false_eq_true, ne_eq, true_and]
    omega

/-- Whether the workspace's slot, as a `u8`, is below the number of monitors just when it is
the slot of an attached monitor. -/
def Told (layout : MonitorLayout) (monitors : List Monitor) (id : Int) : Prop :=
  id / 10 % 256 < monitors.length ↔ ∃ m ∈ monitors, id / 10 = (layout.slotFor m.id).index.toNat

instance (layout : MonitorLayout) (monitors : List Monitor) (id : Int) :
    Decidable (Told layout monitors id) := inferInstanceAs (Decidable (_ ↔ _))

theorem shouldMove_invisible_iff {layout : MonitorLayout} {monitors : List Monitor} {id : Int}
    {v : VirtualWorkspace} {c : Client} :
    (shouldMove .invisible id v monitors.length c = true ↔ OutOfReach layout monitors c) ↔
      (0 < c.workspace → c.workspace % 10 ≠ 0 → Told layout monitors c.workspace) := by
  unfold shouldMove OutOfReach Told
  by_cases hpos : 0 < c.workspace
  · rw [if_neg (by omega), shown_iff, Bool.not_eq_true', ← Bool.not_eq_true,
      isValidWorkspace_iff hpos]
    simp only [hpos, true_and, not_iff_not, and_congr_right_iff, true_imp_iff]
  · rw [if_pos (by omega)]
    simp [hpos]

theorem rescued_moveAll_iff {layout : MonitorLayout} {d : Desk} {p : Client → Bool} :
    Rescued layout d (d.moveAll d.active (d.windows.filter p)) ↔
      ∀ c ∈ d.windows, (p c = true ↔ OutOfReach layout d.listing.monitors c) := by
  constructor
  · intro h c hc
    have hmoves := h.moves
    rw [moveAll_moves, List.append_cancel_left_eq] at hmoves
    have haddresses := congrArg (List.map Prod.fst) hmoves
    simp only [List.map_map, Function.comp_def] at haddresses
    rw [← mem_addresses d hc, haddresses, mem_addresses d hc, decide_eq_true_eq]
  · intro h
    constructor
    · rw [moveAll_moves]
      congr 2
      apply List.filter_congr
      intro c hc
      rw [Bool.eq_iff_iff, h c hc, decide_eq_true_eq]
    · rw [moveAll_windows]
      apply List.map_congr_left
      intro c hc
      simp only [mem_addresses d hc, h c hc]

theorem rescues_iff {layout : MonitorLayout} {d : Desk} {v : VirtualWorkspace}
    (hv : VirtualWorkspace.fromHyprlandId d.active = some v) :
    Rescues layout d ↔ ∀ c ∈ d.windows,
      (shouldMove .invisible d.active v d.listing.monitors.length c = true ↔
        OutOfReach layout d.listing.monitors c) := by
  rw [← rescued_moveAll_iff]
  unfold Rescues
  simp only [run_collapse hv]
  constructor
  · intro h
    exact (h.2 _ _ ⟨rfl, rfl⟩).2
  · intro h
    constructor
    · exact ⟨_, _, rfl, rfl⟩
    · rintro r d' ⟨rfl, rfl⟩
      exact ⟨rfl, h⟩

/-- Collapsing the invisible windows rescues exactly those out of reach if and only if the
slot of every window's workspace is told from the number of monitors: no window is on a slot
below it that no attached monitor has, or on a slot of an attached monitor that is not below. -/
theorem collapse_rescues_iff (layout : MonitorLayout) (d : Desk) {v : VirtualWorkspace}
    (hv : VirtualWorkspace.fromHyprlandId d.active = some v) :
    Rescues layout d ↔ ∀ c ∈ d.windows, 0 < c.workspace → c.workspace % 10 ≠ 0 →
      Told layout d.listing.monitors c.workspace := by
  rw [rescues_iff hv]
  simp only [shouldMove_invisible_iff]

/-- The monitors are in the first slots. -/
def Contiguous (layout : MonitorLayout) (monitors : List Monitor) : Prop :=
  ∀ s : MonitorSlot, s.index.toNat < monitors.length ↔ ∃ m ∈ monitors, layout.slotFor m.id = s

/-- Whatever the windows of a desk, with ids that a slot can have: the rescue is right on every
desk just when the monitors are in the first slots. -/
theorem rescues_every_desk_iff (layout : MonitorLayout) (listing : Listing) :
    (∀ d : Desk, d.listing = listing → (VirtualWorkspace.fromHyprlandId d.active).isSome →
      (∀ c ∈ d.windows, c.workspace < 2560) → Rescues layout d) ↔
    Contiguous layout listing.monitors := by
  have htold : ∀ (s : MonitorSlot) (k : Int), k / 10 = s.index.toNat →
      (Told layout listing.monitors k ↔
        (s.index.toNat < listing.monitors.length ↔
          ∃ m ∈ listing.monitors, layout.slotFor m.id = s)) := by
    intro s k hk
    have hlt := s.index.toNat_lt
    have hslot : ∀ t : MonitorSlot, k / 10 = t.index.toNat ↔ t = s := by
      intro t
      rw [hk]
      constructor
      · intro h
        obtain ⟨i⟩ := s
        obtain ⟨j⟩ := t
        exact congrArg MonitorSlot.mk (UInt8.toNat_inj.mp (Int.ofNat_inj.mp h)).symm
      · rintro rfl
        rfl
    have hbelow : k / 10 % 256 < listing.monitors.length ↔
        s.index.toNat < listing.monitors.length := by omega
    unfold Told
    rw [hbelow]
    simp only [hslot]
  constructor
  · intro h s
    have hlt := s.index.toNat_lt
    have hrescues := h ⟨[⟨"0x1", s.index.toNat * 10 + 1⟩], by simp, listing, 1, []⟩ rfl rfl
      (by simp; omega)
    rw [rescues_iff (show VirtualWorkspace.fromHyprlandId 1 = some ⟨1, by decide⟩ from rfl)]
      at hrescues
    have hone := shouldMove_invisible_iff.mp (hrescues _ List.mem_cons_self)
    simp only at hone
    exact (htold s _ (by omega)).mp (hone (by omega) (by omega))
  · rintro h d rfl hv hids
    obtain ⟨v, hv⟩ := Option.isSome_iff_exists.mp hv
    rw [rescues_iff hv]
    intro c hc
    apply shouldMove_invisible_iff.mpr
    intro hpos hmod
    have hid := hids c hc
    have hslot : c.workspace / 10 =
        (MonitorSlot.mk (UInt8.ofNat (c.workspace / 10).toNat)).index.toNat := by
      simp only [UInt8.toNat_ofNat']
      omega
    exact (htold _ _ hslot).mpr (h _)

/-- A desk of which no move was requested yet. -/
def sampleDesk (windows : List Client) (distinct : (windows.map Client.address).Nodup)
    (listing : Listing) (active : Int) : Desk :=
  { windows, distinct, listing, active }

theorem firstSlots_apart : ([sampleMonitor 0 "Dell P2419H 7X2",
    sampleMonitor 1 "LG 27UL850 91"].map fun m => m.id).Nodup := by decide

/-- The monitors in the first two slots. -/
def firstSlots : Listing :=
  ⟨[sampleMonitor 0 "Dell P2419H 7X2", sampleMonitor 1 "LG 27UL850 91"], firstSlots_apart⟩

def registryFile : String := "Dell P2419H 7X2\nLG 27UL850 91\nEizo EV2451 33\n"

/-- Of a window that is shown, one that is not, one of an orphan workspace and one of the
scratchpad, the second and the third come to the active workspace. -/
theorem collapse_rescues_iff_sample :
    Rescues (MonitorLayout.assign (some registryFile) firstSlots.monitors).1
      (sampleDesk [⟨"0x1", 12⟩, ⟨"0x2", 24⟩, ⟨"0x3", 20⟩, ⟨"0x4", -98⟩] (by decide)
        firstSlots 1) := by
  have hv : VirtualWorkspace.fromHyprlandId 1 = some ⟨1, by decide⟩ := rfl
  apply (collapse_rescues_iff _ _ hv).mpr
  decide +kernel

theorem lastSlots_apart : ([sampleMonitor 1 "LG 27UL850 91",
    sampleMonitor 2 "Eizo EV2451 33"].map fun m => m.id).Nodup := by decide

/-- The monitors in the second and the third slot, after the first was unplugged. -/
def lastSlots : Listing :=
  ⟨[sampleMonitor 1 "LG 27UL850 91", sampleMonitor 2 "Eizo EV2451 33"], lastSlots_apart⟩

/-- A window that the monitor in the third slot shows is moved off it. -/
theorem shown_window_moved : ¬ ∀ (file : Option String) (d : Desk),
    (VirtualWorkspace.fromHyprlandId d.active).isSome →
      Rescues (MonitorLayout.assign file d.listing.monitors).1 d := by
  intro h
  have hrescues := h (some registryFile) (sampleDesk [⟨"0x1", 21⟩] (by decide) lastSlots 11) rfl
  have hv : VirtualWorkspace.fromHyprlandId 11 = some ⟨1, by decide⟩ := rfl
  rw [rescues_iff hv] at hrescues
  revert hrescues
  decide +kernel

end Foundrix.HyprWorkspaced

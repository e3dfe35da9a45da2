import Mathlib.Data.List.FinRange
import Mathlib.Logic.Function.Basic
import Foundrix.Effect.Reconcile
import Foundrix.HyprWorkspaced.Collapse

/-!
# Assigning the workspaces

`WorkspaceManager::assign_workspaces` of `packages/hypr-workspaced/src/workspace.rs`, which runs at
the start of the daemon and whenever a monitor comes or goes. It lists the monitors once, at its
beginning, and decides on that listing what each of them is to show, after it has moved workspaces
between them.

* `assignWorkspaces`: the queries and the requests.
* `Desktop`, `desktop`: the monitors, the workspaces and the windows, and what a request does.
* `Ordered`: what an assignment is to bring about.
* `setWorkspaceRules_spec`, `cleanup_spec`, `moves_settle`, `syncTo_syncs`: its four parts; `Settling`
  is what the stale listing is still good for.
* `assignment_orders`: every complete run brings order about, and no run disturbs it.
-/

namespace Foundrix.HyprWorkspaced

open Effect Machine

/-! ## The program -/

inductive DeskOp : Type → Type where
  | monitors : DeskOp (Except String (List Monitor))
  | clients : DeskOp (Except String (List Client))
  /-- The workspaces there are, each with the name of its monitor. -/
  | workspaces : DeskOp (Except String (List (Int × String)))
  /-- `MonitorLayout::assign`, with the file of the registry. -/
  | assignLayout (monitors : List Monitor) : DeskOp MonitorLayout
  | workspaceRule (workspace : Int) (monitor : String) (default : Bool) :
    DeskOp (Except String Unit)
  | moveWindowSilent (window : String) (workspace : Int) : DeskOp (Except String Unit)
  | moveWorkspaceToMonitor (workspace : Int) (monitor : String) : DeskOp (Except String Unit)
  | focusWorkspace (workspace : Int) : DeskOp (Except String Unit)

abbrev Manager := Prog DeskOp String

/-- A request and `?`. -/
def send {α : Type} (e : DeskOp (Except String α)) : Manager α := do
  Prog.orFail (← Prog.perform e)

/-- `1..=9`. -/
def VirtualWorkspace.all : List VirtualWorkspace :=
  (List.finRange 9).map fun n => ⟨n.val + 1, by omega⟩

/-- `orphan_workspace_id`. -/
def MonitorSlot.orphanWorkspaceId (slot : MonitorSlot) : Int := slot.index.toNat * 10

namespace MonitorLayout

/-- The monitor of each slot; of two with the same slot it is the one listed last. -/
def slotToMonitorName (l : MonitorLayout) (monitors : List Monitor) (slot : MonitorSlot) :
    Option String :=
  (monitors.reverse.map fun m => (l.slotFor m.id, m.name)).lookup slot

/-- The slots up to the last one that is assigned. -/
def allSlots (l : MonitorLayout) : List MonitorSlot :=
  (List.range ((l.slots.map fun p => p.2.index.toNat).foldl max 0 + 1)).map
    fun i => ⟨UInt8.ofNat i⟩

end MonitorLayout

/-- `query::active_monitor`. -/
def focusedMonitor : Manager Monitor := do
  let monitors ← send .monitors
  match monitors.find? fun m => m.focused with
  | some m => return m
  | none => Prog.fail "Hyprland lists no focused monitor"

def setWorkspaceRules (layout : MonitorLayout) (monitors : List Monitor) : Manager Unit :=
  monitors.forM fun monitor => VirtualWorkspace.all.forM fun vws =>
    send (.workspaceRule (vws.hyprlandId (layout.slotFor monitor.id)) monitor.name
      (vws.number = 1))

def cleanupOrphanWorkspaces (layout : MonitorLayout) : Manager Unit := do
  let clients ← send .clients
  layout.allSlots.forM fun slot =>
    (clients.filter fun c => c.workspace = slot.orphanWorkspaceId).forM fun client =>
      send (.moveWindowSilent client.address (slot.orphanWorkspaceId + 1))

/-- The monitor that a workspace belongs on, where it is one of the virtual workspaces of a
monitor. -/
def expectedMonitor (layout : MonitorLayout) (monitors : List Monitor) (id : Int) :
    Option String :=
  if id ≤ 0 ∨ VirtualWorkspace.fromHyprlandId id = none then none
  else layout.slotToMonitorName monitors (MonitorSlot.fromHyprlandId id)

def moveWorkspacesToCorrectMonitors (layout : MonitorLayout) (monitors : List Monitor) :
    Manager Unit := do
  let workspaces ← send .workspaces
  workspaces.forM fun ws =>
    match expectedMonitor layout monitors ws.1 with
    | none => .pure ()
    | some expected =>
      if ws.2 = expected then .pure () else send (.moveWorkspaceToMonitor ws.1 expected)

/-- The monitors that do not show their workspace of `target`, as they were listed, are switched
to it. -/
def syncTo (layout : MonitorLayout) (target : VirtualWorkspace) (monitors : List Monitor) :
    Manager Unit :=
  monitors.forM fun monitor =>
    let targetWsid := target.hyprlandId (layout.slotFor monitor.id)
    if monitor.activeWorkspace = targetWsid then .pure () else send (.focusWorkspace targetWsid)

def assignWorkspaces : Manager Unit := do
  let monitors ← send .monitors
  if monitors = [] then Prog.fail "No monitors found"
  else
    let layout ← Prog.perform (.assignLayout monitors)
    setWorkspaceRules layout monitors
    cleanupOrphanWorkspaces layout
    moveWorkspacesToCorrectMonitors layout monitors
    let focused ← focusedMonitor
    syncTo layout ((VirtualWorkspace.fromHyprlandId focused.activeWorkspace).getD ⟨1, by omega⟩)
      monitors

/-! ## The desktop -/

/-- A monitor that is attached. -/
structure Head where
  id : Int
  name : String
  description : String
deriving DecidableEq, Repr

structure Heads where
  list : List Head
  ids : (list.map Head.id).Nodup
  names : (list.map Head.name).Nodup

structure Desktop where
  /-- The workspace that a monitor shows, by the id of the monitor. -/
  active : Int → Int
  /-- The id of the focused monitor. -/
  focus : Int
  /-- The name of the monitor that a workspace is on, where there is the workspace. -/
  home : Int → Option String
  rules : Int → Option (String × Bool)
  windows : List Client
  /-- The file of the registry, and the layout of the manager. -/
  registry : Option String
  layout : MonitorLayout

/-- The monitor as it is listed. -/
def Desktop.monitor (d : Desktop) (h : Head) : Monitor :=
  ⟨h.id, h.name, h.description, d.active h.id, h.id = d.focus⟩

variable (heads : Heads)

def Desktop.listing (d : Desktop) : List Monitor := heads.list.map d.monitor

/-- Workspaces that no rule binds may be gone. -/
def Fades (d d' : Desktop) (except : Int) : Prop :=
  ∀ i, i ≠ except → d'.home i = d.home i ∨ d'.home i = none ∧ d.rules i = none

/-- A workspace is where it was, or is made on the monitor that it is bound to, if it is to one. -/
def Made (d d' : Desktop) (id : Int) (name : String) : Prop :=
  d'.home id = some name ∧ (d.home id = some name ∨
    d.home id = none ∧ ∀ rule, d.rules id = some rule → rule.1 = name)

/-- A rule makes its workspace, and keeps it. -/
def bound (d : Desktop) (workspace : Int) (monitor : String) (default : Bool) : Desktop :=
  { d with
    rules := Function.update d.rules workspace (some (monitor, default))
    home := Function.update d.home workspace (some ((d.home workspace).getD monitor)) }

structure WindowMoved (window : String) (workspace : Int) (d d' : Desktop) : Prop where
  same : ∃ home windows, d' = { d with home, windows }
  windows : d'.windows = d.windows.map (Client.moved window workspace)
  made : ∃ name, Made d d' workspace name
  others : Fades d d' workspace

/-- The monitor that a workspace is taken from shows another one of its own instead, which is made
where there is none. The monitor that it goes to shows what it did, but for the workspace that was
active on the focused monitor: that one stays active, and is focused. -/
structure WorkspaceMoved (workspace : Int) (old monitor : String) (d d' : Desktop) : Prop where
  same : ∃ active focus home, d' = { d with active, focus, home }
  home : d'.home workspace = some monitor
  others : ∀ i, i ≠ workspace → d'.home i = d.home i ∨ d'.home i = none ∧ d.rules i = none ∨
    d.home i = none ∧ d'.home i = some old ∧ i < 2560 ∧
      ∀ rule, d.rules i = some rule → rule.1 = old
  stays : ∀ h ∈ heads.list, h.name = old → d.active h.id ≠ workspace →
    d'.active h.id = d.active h.id
  shown : ∀ h ∈ heads.list, h.name ≠ old → d'.active h.id = d.active h.id ∨
    h.name = monitor ∧ d'.active h.id = workspace ∧ d'.focus = h.id
  focus : d'.focus = d.focus ∨
    ∃ h ∈ heads.list, h.name = old ∧ d.focus = h.id ∧ d.active h.id = workspace

structure WorkspaceFocused (workspace : Int) (d d' : Desktop) : Prop where
  same : ∃ active focus home, d' = { d with active, focus, home }
  shown : ∃ h ∈ heads.list, Made d d' workspace h.name ∧ d'.focus = h.id ∧
    d'.active = Function.update d.active h.id workspace
  others : Fades d d' workspace

/-- A request that is answered was carried out; one that failed was or was not. -/
def Carried (answer : Except String Unit) (d d' : Desktop) (done : Prop) : Prop :=
  done ∨ (∃ e, answer = .error e) ∧ d' = d

def deskStep : {β : Type} → DeskOp β → Desktop → β → Desktop → Prop
  | _, .monitors, d, b, d' => d' = d ∧ ∀ l, b = .ok l → l = d.listing heads
  | _, .clients, d, b, d' => d' = d ∧ ∀ l, b = .ok l → l = d.windows
  | _, .workspaces, d, b, d' =>
    d' = d ∧ ∀ l, b = .ok l → ∀ id name, (id, name) ∈ l ↔ d.home id = some name
  -- the registry can be written; a write that fails is warned of in the source and goes on
  | _, .assignLayout monitors, d, b, d' =>
    b = (MonitorLayout.assign d.registry monitors).1 ∧
      d' = { d with layout := b, registry := (MonitorLayout.assign d.registry monitors).2 }
  | _, .workspaceRule workspace monitor default, d, b, d' =>
    Carried b d d' (d' = bound d workspace monitor default)
  | _, .moveWindowSilent window workspace, d, b, d' =>
    Carried b d d' (WindowMoved window workspace d d')
  | _, .moveWorkspaceToMonitor workspace monitor, d, b, d' =>
    Carried b d d' (∃ old, d.home workspace = some old ∧
      if old = monitor then d' = d else WorkspaceMoved heads workspace old monitor d d')
  | _, .focusWorkspace workspace, d, b, d' =>
    Carried b d d' (WorkspaceFocused heads workspace d d')

def desktop : Handler DeskOp Desktop where
  step e d b d' := deskStep heads e d b d'

/-! ## Order -/

/-- The id is one of a virtual workspace of the monitor. -/
def Own (layout : MonitorLayout) (h : Head) (id : Int) : Prop :=
  ∃ v : VirtualWorkspace, id = v.hyprlandId (layout.slotFor h.id)

/-- No two monitors have a slot in common. -/
def SlotsApart (layout : MonitorLayout) : Prop :=
  ∀ h ∈ heads.list, ∀ h' ∈ heads.list, layout.slotFor h.id = layout.slotFor h'.id → h = h'

/-- No workspace has an id beyond those of the 256 slots. -/
def Small (d : Desktop) : Prop := ∀ i, (d.home i).isSome = true → i < 2560

/-- The rule of a virtual workspace of the monitor is set, and there is the workspace. -/
structure RuleSet (layout : MonitorLayout) (h : Head) (v : VirtualWorkspace) (d : Desktop) :
    Prop where
  rule : d.rules (v.hyprlandId (layout.slotFor h.id)) = some (h.name, decide (v.number = 1))
  made : (d.home (v.hyprlandId (layout.slotFor h.id))).isSome = true

/-- The workspaces of a monitor are on it. -/
def Placed (layout : MonitorLayout) (d : Desktop) : Prop :=
  ∀ h ∈ heads.list, ∀ i name, Own layout h i → d.home i = some name → name = h.name

variable {heads} {α β : Type} {I : Desktop → Prop} {d d' : Desktop} {layout : MonitorLayout}

theorem Heads.eq_of_id {h h' : Head} (hh : h ∈ heads.list) (hh' : h' ∈ heads.list)
    (heq : h.id = h'.id) : h = h' :=
  List.inj_on_of_nodup_map heads.ids hh hh' heq

theorem Heads.eq_of_name {h h' : Head} (hh : h ∈ heads.list) (hh' : h' ∈ heads.list)
    (heq : h.name = h'.name) : h = h' :=
  List.inj_on_of_nodup_map heads.names hh hh' heq

/-- Another rule does not undo one. -/
theorem RuleSet.bound {h h' : Head} {v v' : VirtualWorkspace} (hapart : SlotsApart heads layout)
    (hh : h ∈ heads.list) (hh' : h' ∈ heads.list) (hset : RuleSet layout h v d) :
    RuleSet layout h v (bound d (v'.hyprlandId (layout.slotFor h'.id)) h'.name
      (decide (v'.number = 1))) := by
  by_cases heq : v.hyprlandId (layout.slotFor h.id) = v'.hyprlandId (layout.slotFor h'.id)
  · obtain ⟨rfl, hslot⟩ := hyprlandId_inj heq
    obtain rfl := hapart h hh h' hh' hslot
    exact ⟨by simp [HyprWorkspaced.bound], by simp [HyprWorkspaced.bound]⟩
  · refine ⟨?_, ?_⟩
    · simpa [HyprWorkspaced.bound, Function.update_of_ne heq] using hset.rule
    · simpa [HyprWorkspaced.bound, Function.update_of_ne heq] using hset.made

/-- What the requests behind the rules leave as it is. -/
structure Evolves (d d' : Desktop) : Prop where
  rules : d'.rules = d.rules
  layout : d'.layout = d.layout
  registry : d'.registry = d.registry
  homes : ∀ i, d'.home i = d.home i ∨ d'.home i = none ∧ d.rules i = none ∨
    (d'.home i).isSome = true ∧ i < 2560

structure Ruled (heads : Heads) (layout : MonitorLayout) (registry : Option String) (d : Desktop) :
    Prop where
  assigned : d.layout = layout
  saved : d.registry = registry
  rules : ∀ h ∈ heads.list, ∀ v, RuleSet layout h v d
  small : Small d

variable {registry : Option String}

/-- The workspaces that a rule binds stay. -/
theorem Ruled.evolves (hr : Ruled heads layout registry d) (he : Evolves d d') :
    Ruled heads layout registry d' := by
  refine ⟨he.layout.trans hr.assigned, he.registry.trans hr.saved, fun h hh v => ?_,
    fun i hi => ?_⟩
  · obtain ⟨hrule, hmade⟩ := hr.rules h hh v
    refine ⟨by rw [he.rules, hrule], ?_⟩
    rcases he.homes (v.hyprlandId (layout.slotFor h.id)) with hsame | ⟨-, hnone⟩ | ⟨hsome, -⟩
    · rw [hsame, hmade]
    · rw [hrule] at hnone
      cases hnone
    · exact hsome
  · rcases he.homes i with hsame | ⟨hnone, -⟩ | ⟨-, hlt⟩
    · exact hr.small i (hsame ▸ hi)
    · rw [hnone] at hi
      cases hi
    · exact hlt

/-- A workspace of a monitor that is there is an id of it. -/
theorem Ruled.rule_own (hr : Ruled heads layout registry d) {h : Head} (hh : h ∈ heads.list)
    {i : Int} (hown : Own layout h i) : ∃ default, d.rules i = some (h.name, default) := by
  obtain ⟨v, rfl⟩ := hown
  exact ⟨_, (hr.rules h hh v).rule⟩

theorem Fades.evolves {workspace : Int} {name : String} (hsame : ∃ active focus home windows,
    d' = { d with active, focus, home, windows }) (hmade : Made d d' workspace name)
    (hlt : workspace < 2560) (hfades : Fades d d' workspace) : Evolves d d' := by
  have hhomes : ∀ i, d'.home i = d.home i ∨ d'.home i = none ∧ d.rules i = none ∨
      (d'.home i).isSome = true ∧ i < 2560 := by
    intro i
    by_cases hi : i = workspace
    · subst hi
      exact Or.inr (Or.inr ⟨by rw [hmade.1]; rfl, hlt⟩)
    · rcases hfades i hi with h | h
      · exact Or.inl h
      · exact Or.inr (Or.inl h)
  obtain ⟨active, focus, home, windows, rfl⟩ := hsame
  exact ⟨rfl, rfl, rfl, hhomes⟩

theorem WindowMoved.evolves {window : String} {workspace : Int}
    (hm : WindowMoved window workspace d d') (hlt : workspace < 2560) : Evolves d d' := by
  obtain ⟨home, windows, hsame⟩ := hm.same
  obtain ⟨name, hmade⟩ := hm.made
  exact hm.others.evolves ⟨d.active, d.focus, home, windows, hsame⟩ hmade hlt

theorem WorkspaceFocused.evolves {workspace : Int} (hf : WorkspaceFocused heads workspace d d')
    (hlt : workspace < 2560) : Evolves d d' := by
  obtain ⟨active, focus, home, hsame⟩ := hf.same
  obtain ⟨h, -, hmade, -⟩ := hf.shown
  exact hf.others.evolves ⟨active, focus, home, d.windows, hsame⟩ hmade hlt

theorem WorkspaceMoved.evolves {workspace : Int} {old monitor : String}
    (hm : WorkspaceMoved heads workspace old monitor d d') (hlt : workspace < 2560) :
    Evolves d d' := by
  have hhomes : ∀ i, d'.home i = d.home i ∨ d'.home i = none ∧ d.rules i = none ∨
      (d'.home i).isSome = true ∧ i < 2560 := by
    intro i
    by_cases hi : i = workspace
    · subst hi
      exact Or.inr (Or.inr ⟨by rw [hm.home]; rfl, hlt⟩)
    · rcases hm.others i hi with h | h | ⟨-, hnew, hi', -⟩
      · exact Or.inl h
      · exact Or.inr (Or.inl h)
      · exact Or.inr (Or.inr ⟨by rw [hnew]; rfl, hi'⟩)
  obtain ⟨active, focus, home, rfl⟩ := hm.same
  exact ⟨rfl, rfl, rfl, hhomes⟩

theorem orphan_ne (slot slot' : MonitorSlot) :
    slot.orphanWorkspaceId + 1 ≠ slot'.orphanWorkspaceId := by
  unfold MonitorSlot.orphanWorkspaceId
  omega

/-- The windows on orphan workspaces are among those that are left to be moved. -/
def Orphans (layout : MonitorLayout) (left : MonitorSlot → Client → Prop) (d : Desktop) : Prop :=
  ∀ c ∈ d.windows, ∀ slot ∈ layout.allSlots, c.workspace = slot.orphanWorkspaceId → left slot c

theorem Orphans.mono {left left' : MonitorSlot → Client → Prop} (h : Orphans layout left d)
    (himp : ∀ slot c, c.workspace = slot.orphanWorkspaceId → left slot c → left' slot c) :
    Orphans layout left' d :=
  fun c hc slot hslot heq => himp slot c heq (h c hc slot hslot heq)

/-- A window that is moved is none of them any longer. -/
theorem Orphans.moved {left : MonitorSlot → Client → Prop} {window : String} {slot : MonitorSlot}
    (h : Orphans layout left d) (hm : WindowMoved window (slot.orphanWorkspaceId + 1) d d') :
    Orphans layout (fun s c => left s c ∧ c.address ≠ window) d' := by
  intro c hc s hs heq
  rw [hm.windows] at hc
  obtain ⟨c', hc', rfl⟩ := List.mem_map.mp hc
  by_cases haddress : c'.address = window
  · rw [Client.moved, if_pos haddress] at heq
    exact absurd heq (orphan_ne slot s)
  · rw [Client.moved, if_neg haddress] at heq ⊢
    exact ⟨h c' hc' s hs heq, haddress⟩

theorem Own.unique (hapart : SlotsApart heads layout) {h h' : Head} (hh : h ∈ heads.list)
    (hh' : h' ∈ heads.list) {i : Int} (hown : Own layout h i) (hown' : Own layout h' i) :
    h = h' := by
  obtain ⟨v, rfl⟩ := hown
  obtain ⟨v', heq⟩ := hown'
  exact hapart h hh h' hh' (hyprlandId_inj heq).2

/-- The workspaces of a monitor that are not on it are among those that are left to be moved. -/
def Strays (heads : Heads) (layout : MonitorLayout) (left : List (Int × String)) (d : Desktop) :
    Prop :=
  ∀ h ∈ heads.list, ∀ i name, Own layout h i → d.home i = some name →
    name = h.name ∨ (i, name) ∈ left

/-- A monitor that was listed with one of its workspaces shows that one, unless the focus has come
to it with another one of its own. -/
def Settling (heads : Heads) (layout : MonitorLayout) (listed : Int → Int) (d : Desktop) : Prop :=
  ∀ h ∈ heads.list, Own layout h (listed h.id) →
    d.active h.id = listed h.id ∨ d.focus = h.id ∧ Own layout h (d.active h.id)

section Moved

variable {h : Head} {i : Int} {old m : String} {rest : List (Int × String)} {listed : Int → Int}

theorem Strays.moved (hr : Ruled heads layout registry d) (hapart : SlotsApart heads layout)
    (hstrays : Strays heads layout ((i, m) :: rest) d) (hh : h ∈ heads.list)
    (hown : Own layout h i) (hm : WorkspaceMoved heads i old h.name d d') :
    Strays heads layout rest d' := by
  intro h' hh' j name hown' hname
  by_cases hj : j = i
  · subst hj
    obtain rfl := hown.unique hapart hh hh' hown'
    rw [hm.home] at hname
    exact Or.inl (Option.some.inj hname).symm
  · rcases hm.others j hj with hsame | ⟨hnone, -⟩ | ⟨-, hnew, -, hrule⟩
    · rw [hsame] at hname
      rcases hstrays h' hh' j name hown' hname with hright | hleft
      · exact Or.inl hright
      · rcases List.mem_cons.mp hleft with heq | hleft
        · exact absurd (congrArg Prod.fst heq) hj
        · exact Or.inr hleft
    · rw [hnone] at hname
      cases hname
    · obtain ⟨default, hbound⟩ := hr.rule_own hh' hown'
      rw [hnew] at hname
      exact Or.inl ((Option.some.inj hname).symm.trans (hrule _ hbound).symm)

/-- The monitor that a workspace is taken from had none of its own there; the one that it goes to
comes to show it only with the focus. -/
theorem Settling.moved (hapart : SlotsApart heads layout) (hs : Settling heads layout listed d)
    (hh : h ∈ heads.list) (hown : Own layout h i) (hne : old ≠ h.name)
    (hm : WorkspaceMoved heads i old h.name d d') : Settling heads layout listed d' := by
  intro h' hh' hlisted
  by_cases hold : h'.name = old
  · have hother : ¬ Own layout h' i := by
      intro hown'
      obtain rfl := hown.unique hapart hh hh' hown'
      exact hne hold.symm
    have hactive : d.active h'.id ≠ i := by
      intro heq
      rcases hs h' hh' hlisted with hsame | ⟨-, hown'⟩
      · exact hother (heq ▸ hsame ▸ hlisted)
      · exact hother (heq ▸ hown')
    have hstays := hm.stays h' hh' hold hactive
    rw [hstays]
    refine (hs h' hh' hlisted).imp_right fun hfocused => ⟨?_, hfocused.2⟩
    rcases hm.focus with hfocus | ⟨h'', hh'', hold'', -, heq⟩
    · exact hfocus.trans hfocused.1
    · obtain rfl := Heads.eq_of_name hh'' hh' (hold''.trans hold.symm)
      exact absurd heq hactive
  · rcases hm.shown h' hh' hold with hstays | ⟨hname, hshown, hfocus⟩
    · rw [hstays]
      refine (hs h' hh' hlisted).imp_right fun hfocused => ⟨?_, hfocused.2⟩
      rcases hm.focus with hfocus | ⟨h'', hh'', hold'', hwas, -⟩
      · exact hfocus.trans hfocused.1
      · obtain rfl := Heads.eq_of_id hh'' hh' (hwas.symm.trans hfocused.1)
        exact absurd hold'' hold
    · obtain rfl := Heads.eq_of_name hh' hh hname
      exact Or.inr ⟨hfocus, hshown ▸ hown⟩

end Moved

theorem Strays.placed (hs : Strays heads layout [] d) : Placed heads layout d :=
  fun h hh i name hown hname => (hs h hh i name hown hname).resolve_right List.not_mem_nil

/-- A workspace of a monitor that is focused is shown by that monitor. -/
theorem WorkspaceFocused.shows {h : Head} {v : VirtualWorkspace}
    (hr : Ruled heads layout registry d) (hp : Placed heads layout d) (hh : h ∈ heads.list)
    (hf : WorkspaceFocused heads (v.hyprlandId (layout.slotFor h.id)) d d') :
    d'.active = Function.update d.active h.id (v.hyprlandId (layout.slotFor h.id)) ∧
      d'.home (v.hyprlandId (layout.slotFor h.id)) = some h.name := by
  obtain ⟨h', hh', hmade, -, hactive⟩ := hf.shown
  obtain ⟨name, hname⟩ := Option.isSome_iff_exists.mp (hr.rules h hh v).made
  obtain rfl := hp h hh _ name ⟨v, rfl⟩ hname
  have hsame : h.name = h'.name := by
    rcases hmade.2 with hthere | ⟨hnone, -⟩
    · exact Option.some.inj (hname.symm.trans hthere)
    · rw [hname] at hnone
      cases hnone
  obtain rfl := Heads.eq_of_name hh hh' hsame
  exact ⟨hactive, hmade.1⟩

theorem WorkspaceFocused.placed {h : Head} {v : VirtualWorkspace}
    (hr : Ruled heads layout registry d) (hapart : SlotsApart heads layout)
    (hp : Placed heads layout d) (hh : h ∈ heads.list)
    (hf : WorkspaceFocused heads (v.hyprlandId (layout.slotFor h.id)) d d') :
    Placed heads layout d' := by
  intro h' hh' i name hown hname
  by_cases hi : i = v.hyprlandId (layout.slotFor h.id)
  · obtain rfl := hown.unique hapart hh' hh ⟨v, hi⟩
    rw [hi, (hf.shows hr hp hh).2] at hname
    exact (Option.some.inj hname).symm
  · rcases hf.others i hi with hsame | ⟨hnone, -⟩
    · exact hp h' hh' i name hown (hsame ▸ hname)
    · rw [hnone] at hname
      cases hname

/-- A monitor that was listed with what is to be shown still shows it. -/
theorem Settling.still {listed : Int → Int} {f : Head} (hf : f ∈ heads.list)
    (hfocus : d.focus = f.id) (hs : Settling heads layout listed d) {h : Head}
    (hh : h ∈ heads.list) (hlisted : listed h.id =
      ((VirtualWorkspace.fromHyprlandId (d.active f.id)).getD ⟨1, by omega⟩).hyprlandId
        (layout.slotFor h.id)) : d.active h.id = listed h.id := by
  rcases hs h hh ⟨_, hlisted⟩ with hsame | ⟨hfocused, v, hv⟩
  · exact hsame
  · obtain rfl := Heads.eq_of_id hf hh (hfocus.symm.trans hfocused)
    rw [hlisted, hv, fromHyprlandId_hyprlandId, Option.getD_some]

/-! ## The layout is kept -/

/-- A desktop without windows. -/
structure Bench where
  active : List (Int × Int)
  focus : Int
  homes : List (Int × String)
  rules : List (Int × (String × Bool)) := []
  registry : Option String := none
  layout : MonitorLayout := {}

namespace Bench

def desktop (b : Bench) : Desktop where
  active i := (b.active.lookup i).getD 0
  focus := b.focus
  home i := b.homes.lookup i
  rules i := b.rules.lookup i
  windows := []
  registry := b.registry
  layout := b.layout

variable (heads)

def headNamed (name : String) : Option Head := heads.list.find? fun h => h.name = name

def display (b : Bench) (h : Head) (workspace : Int) : Bench :=
  { b with active := (h.id, workspace) :: b.active, focus := h.id }

/-- It moves only the workspace that is active on the focused monitor. -/
def move (b : Bench) (workspace : Int) (old new : Head) : Option (Except String Unit × Bench) :=
  if old ≠ new ∧ b.focus = old.id ∧ b.active.lookup old.id = some workspace then
    some (.ok (), display { b with
      active := (old.id, 0) :: b.active, homes := (workspace, new.name) :: b.homes } new workspace)
  else none

def step : {β : Type} → DeskOp β → Bench → Option (β × Bench)
  | _, .monitors, b => some (.ok (b.desktop.listing heads), b)
  | _, .clients, b => some (.ok [], b)
  | _, .workspaces, b =>
    some (.ok (b.homes.filterMap fun p => (b.homes.lookup p.1).map fun name => (p.1, name)), b)
  | _, .assignLayout monitors, b =>
    let r := MonitorLayout.assign b.registry monitors
    some (r.1, { b with layout := r.1, registry := r.2 })
  | _, .workspaceRule workspace monitor default, b =>
    some (.ok (), { b with
      rules := (workspace, (monitor, default)) :: b.rules
      homes := if (b.homes.lookup workspace).isSome then b.homes
        else (workspace, monitor) :: b.homes })
  | _, .moveWindowSilent _ _, _ => none
  | _, .moveWorkspaceToMonitor workspace monitor, b =>
    match (b.homes.lookup workspace).bind (headNamed heads), headNamed heads monitor with
    | some old, some new => move b workspace old new
    | _, _ => none
  | _, .focusWorkspace workspace, b =>
    match (b.homes.lookup workspace).bind (headNamed heads) with
    | some h => some (.ok (), b.display h workspace)
    | none => none

variable {heads} {b : Bench}

theorem headNamed_eq {name : String} {h : Head} (hname : headNamed heads name = some h) :
    h ∈ heads.list ∧ h.name = name :=
  ⟨List.mem_of_find?_eq_some hname, of_decide_eq_true
    (List.find?_some (p := fun h : Head => decide (h.name = name)) hname)⟩

theorem lookup_update {γ : Type} (l : List (Int × γ)) (k : Int) (c : γ) :
    (fun i => ((k, c) :: l).lookup i) = Function.update (fun i => l.lookup i) k (some c) := by
  funext i
  by_cases hi : i = k
  · subst hi
    simp
  · rw [Function.update_of_ne hi, List.lookup_cons, beq_false_of_ne hi]

theorem display_active (h : Head) (workspace : Int) :
    (b.display h workspace).desktop.active = Function.update b.desktop.active h.id workspace := by
  funext i
  by_cases hi : i = h.id
  · subst hi
    simp [Bench.display, desktop]
  · rw [Function.update_of_ne hi]
    simp only [Bench.display, desktop, List.lookup_cons, beq_false_of_ne hi]

theorem listed_homes (id : Int) (name : String) :
    (id, name) ∈ (b.homes.filterMap fun p => (b.homes.lookup p.1).map fun name => (p.1, name)) ↔
      b.desktop.home id = some name := by
  rw [List.mem_filterMap]
  constructor
  · rintro ⟨p, -, hp⟩
    obtain ⟨name', hname', heq⟩ := Option.map_eq_some_iff.mp hp
    obtain ⟨rfl, rfl⟩ := Prod.mk.inj heq
    exact hname'
  · intro h
    obtain ⟨before, after, hlist, -⟩ := List.lookup_eq_some_iff.mp h
    refine ⟨(id, name), by rw [hlist]; simp, ?_⟩
    show (b.desktop.home id).map _ = _
    rw [h]
    rfl

theorem move_moved {workspace : Int} {old new : Head} {a : Except String Unit} {b' : Bench}
    (hold : old ∈ heads.list) (hnew : new ∈ heads.list)
    (h : move b workspace old new = some (a, b')) : old.name ≠ new.name ∧
      WorkspaceMoved heads workspace old.name new.name b.desktop b'.desktop := by
  unfold move at h
  split at h
  · rename_i hcond
    obtain ⟨hne, hfocus, hactive⟩ := hcond
    have hname : old.name ≠ new.name := fun heq => hne (Heads.eq_of_name hold hnew heq)
    have hwas : b.desktop.active old.id = workspace := by
      show (b.active.lookup old.id).getD 0 = workspace
      rw [hactive, Option.getD_some]
    cases h
    refine ⟨hname, ⟨_, _, _, rfl⟩, List.lookup_cons_self, fun i hi => Or.inl ?_, ?_, ?_, ?_⟩
    · show List.lookup i ((workspace, new.name) :: b.homes) = b.homes.lookup i
      rw [List.lookup_cons, beq_false_of_ne hi]
    · intro h hh heq hother
      obtain rfl := Heads.eq_of_name hh hold heq
      exact absurd hwas hother
    · intro h hh hother
      by_cases hto : h = new
      · subst hto
        refine Or.inr ⟨rfl, ?_, rfl⟩
        rw [display_active, Function.update_self]
      · left
        rw [display_active, Function.update_of_ne fun heq => hto (Heads.eq_of_id hh hnew heq)]
        have hid : h.id ≠ old.id := fun heq => hother (by rw [Heads.eq_of_id hh hold heq])
        show (List.lookup h.id ((old.id, 0) :: b.active)).getD 0 = (b.active.lookup h.id).getD 0
        rw [List.lookup_cons, beq_false_of_ne hid]
    · exact Or.inr ⟨old, hold, rfl, hfocus, hwas⟩
  · cases h

theorem step_desktop {β : Type} {e : DeskOp β} {a : β} {b' : Bench}
    (h : step heads e b = some (a, b')) : deskStep heads e b.desktop a b'.desktop := by
  cases e with
  | monitors =>
    cases h
    exact ⟨rfl, fun l hl => (Except.ok.inj hl).symm⟩
  | clients =>
    cases h
    exact ⟨rfl, fun l hl => (Except.ok.inj hl).symm⟩
  | workspaces =>
    cases h
    refine ⟨rfl, fun l hl id name => ?_⟩
    obtain rfl := Except.ok.inj hl
    exact listed_homes id name
  | assignLayout monitors =>
    cases h
    exact ⟨rfl, rfl⟩
  | workspaceRule workspace monitor default =>
    cases h
    left
    simp only [desktop, bound, lookup_update, Desktop.mk.injEq, true_and, and_true]
    cases hthere : b.homes.lookup workspace with
    | some name =>
      rw [if_pos Option.isSome_some, Option.getD_some, ← hthere]
      exact (Function.update_eq_self workspace fun i => b.homes.lookup i).symm
    | none => exact lookup_update b.homes workspace monitor
  | moveWindowSilent window workspace => cases h
  | moveWorkspaceToMonitor workspace monitor =>
    simp only [step] at h
    split at h
    · rename_i old new hold hnew
      obtain ⟨name, hhome, hname⟩ := Option.bind_eq_some_iff.mp hold
      obtain ⟨hmem, rfl⟩ := headNamed_eq hname
      obtain ⟨hmem', rfl⟩ := headNamed_eq hnew
      have hmoved := move_moved hmem hmem' h
      refine Or.inl ⟨old.name, hhome, ?_⟩
      rw [if_neg hmoved.1]
      exact hmoved.2
    · cases h
  | focusWorkspace workspace =>
    simp only [step] at h
    split at h
    · rename_i head hhead
      cases h
      obtain ⟨name, hhome, hname⟩ := Option.bind_eq_some_iff.mp hhead
      obtain ⟨hmem, rfl⟩ := headNamed_eq hname
      exact Or.inl ⟨⟨_, _, _, rfl⟩, ⟨head, hmem, ⟨hhome, Or.inl hhome⟩, rfl, display_active _ _⟩,
        fun i _ => Or.inl rfl⟩
    · cases h

end Bench

def bench (heads : Heads) : Oracle DeskOp Bench where
  answer e b := Bench.step heads e b

theorem bench_run (b : Bench) : Run (desktop heads) assignWorkspaces b.desktop
    (assignWorkspaces.exec (bench heads) 60 b).1
    (assignWorkspaces.exec (bench heads) 60 b).2.desktop := by
  let H : Handler DeskOp Bench := ⟨fun e b a b' => (bench heads).answer e b = some (a, b')⟩
  have hrun : Run H assignWorkspaces b (assignWorkspaces.exec (bench heads) 60 b).1
      (assignWorkspaces.exec (bench heads) 60 b).2 := exec_run (fun _ _ _ _ h => h) _ _ _
  exact hrun.map fun _ _ _ _ h => Bench.step_desktop h

def twoHeads : Heads where
  list := [⟨0, "DP-1", "Dell P2419H 7X2"⟩, ⟨1, "DP-2", "LG 27UL850 91"⟩]
  ids := by decide
  names := by decide

end Foundrix.HyprWorkspaced

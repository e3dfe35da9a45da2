import Foundrix.Effect.Lift
import Foundrix.HyprWorkspaced.Assign
import Foundrix.HyprWorkspaced.Focus
import Foundrix.HyprWorkspaced.Pins

/-!
# A synchronisation, and the pinned windows

`WorkspaceManager::sync_monitors` of `packages/hypr-workspaced/src/workspace.rs` with
`move_pinned_windows`, and `WindowPattern::matches` of `packages/hypr-workspaced/src/window.rs`. A
request that fails within it is logged, and the next one is made.

* `syncMonitors`: the queries and the requests.
* `Scene`, `compositor`: a desktop with its windows, and what a request does.
* `Followed`: what may have become of the windows.
* `sync_follows`: nothing else becomes of them in any run, whatever fails and wherever it is cut.
-/

namespace Foundrix.HyprWorkspaced

open Effect Text

/-! ## Windows -/

inductive FullscreenMode where
  | none
  | maximized
  | fullscreen
  | maximizedFullscreen
deriving DecidableEq, Repr

/-- What a window is like, wherever it is. -/
structure Look where
  «class» : String
  initialClass : String
  title : String
  initialTitle : String
  pid : Int32
  floating : Bool
  fullscreen : FullscreenMode
  «at» : Int16 × Int16
  size : Int16 × Int16
deriving DecidableEq, Repr

/-- A window as Hyprland lists it, with the id of its monitor. -/
structure WindowClient extends Client where
  look : Look
  monitor : Option Int
deriving DecidableEq, Repr

def WindowPattern.«matches» (p : WindowPattern) (client : WindowClient) : Bool :=
  match p with
  | .class pattern =>
    contains client.look.class pattern || contains client.look.initialClass pattern
  | .title pattern =>
    contains client.look.title pattern || contains client.look.initialTitle pattern
  | .pid n => client.look.pid = n
  | .address addr => contains client.address addr
  | .floating b => client.look.floating = b
  | .fullscreen b => decide (client.look.fullscreen ≠ .none) = b

def isPinned (pinnedPatterns : List WindowPattern) (client : WindowClient) : Bool :=
  pinnedPatterns.any fun p => p.«matches» client

inductive LookOp : Type → Type where
  | clients : LookOp (Except String (List WindowClient))
  /-- The id of the workspace of the focused monitor. -/
  | activeWorkspace : LookOp (Except String Int)

inductive SyncOp (α : Type) : Type where
  | desk (e : DeskOp α)
  | focus (e : FocusOp α)
  | look (e : LookOp α)

abbrev Syncing := Prog SyncOp String

/-- A query or a request, and `?`. -/
def exchange {α : Type} (e : SyncOp (Except String α)) : Syncing α := do
  Prog.orFail (← Prog.perform e)

/-- A request of which a failure is logged. -/
def warned (e : SyncOp (Except String Unit)) : Syncing Unit := do
  let _ ← Prog.perform e
  return

def refocus (triggerWorkspaceId : Int) : Syncing Unit := do
  let activeWs ← exchange (.look .activeWorkspace)
  if activeWs = triggerWorkspaceId then return
  else warned (.desk (.focusWorkspace triggerWorkspaceId))

/-- What Hyprland sees to, where all its monitors are on. -/
structure Coherent (heads : Heads) (d : Desktop) : Prop where
  focused : ∃ h ∈ heads.list, d.focus = h.id
  /-- A window is on a workspace, and that on a monitor. -/
  housed : ∀ c ∈ d.windows, ∃ h ∈ heads.list, d.home c.workspace = some h.name
  /-- A monitor shows one of its own workspaces. -/
  shows : ∀ h ∈ heads.list, d.home (d.active h.id) = some h.name
  distinct : (d.windows.map Client.address).Nodup

structure Scene (heads : Heads) where
  desk : Desktop
  coherent : Coherent heads desk
  /-- What the window of an address is like. -/
  look : String → Look
  /-- The windows that are listed without their monitor. -/
  untold : String → Bool
  cursor : CursorPosition

namespace Scene

variable {heads : Heads}

/-- The monitor of the workspace of a window. -/
def monitorOf (s : Scene heads) (c : Client) : Option Int :=
  (heads.list.find? fun h => s.desk.home c.workspace = some h.name).map Head.id

def client (s : Scene heads) (c : Client) : WindowClient where
  toClient := c
  look := s.look c.address
  monitor := if s.untold c.address = true then none else s.monitorOf c

def window (s : Scene heads) (c : Client) : Window where
  toClient := c
  «at» := (s.look c.address).at
  size := (s.look c.address).size

/-- Nothing but the desktop is another one. -/
structure SameView (s s' : Scene heads) : Prop where
  look : s'.look = s.look
  untold : s'.untold = s.untold
  cursor : s'.cursor = s.cursor

end Scene

variable (heads : Heads)

/-- The workspace of the monitor that shows the virtual workspace. -/
def Head.target (h : Head) (layout : MonitorLayout) (v : VirtualWorkspace) : Int :=
  v.hyprlandId (layout.slotFor h.id)

/-! ## What may become of a window -/

variable {heads} {layout : MonitorLayout} {pinned : List WindowPattern} {v : VirtualWorkspace}

/-- The window is where it was, or is pinned and on what its monitor is to show. -/
def Follows (layout : MonitorLayout) (pinned : List WindowPattern) (v : VirtualWorkspace)
    (s : Scene heads) (c : Client) (workspace : Int) : Prop :=
  workspace = c.workspace ∨ isPinned pinned (s.client c) = true ∧ 0 ≤ c.workspace ∧
    ∃ h ∈ heads.list, s.desk.home c.workspace = some h.name ∧ workspace = h.target layout v

/-- The windows are the same ones and each has followed, and the rules, the layout and the
registry are what they were. -/
structure Followed (layout : MonitorLayout) (pinned : List WindowPattern) (v : VirtualWorkspace)
    (s s' : Scene heads) : Prop where
  windows : ∃ place : Client → Int,
    s'.desk.windows = s.desk.windows.map (fun c => { c with workspace := place c }) ∧
      ∀ c ∈ s.desk.windows, Follows layout pinned v s c (place c)
  rules : s'.desk.rules = s.desk.rules
  layout : s'.desk.layout = s.desk.layout
  registry : s'.desk.registry = s.desk.registry
  view : s.SameView s'

/-- Before the pinned windows are moved: the windows are where they were, and their workspaces on
the monitors that they were on, or on their own. -/
structure Level (layout : MonitorLayout) (v : VirtualWorkspace) (s s' : Scene heads) : Prop where
  windows : s'.desk.windows = s.desk.windows
  homes : ∀ c ∈ s.desk.windows, ∀ h ∈ heads.list, s'.desk.home c.workspace = some h.name →
    s.desk.home c.workspace = some h.name ∨ c.workspace = h.target layout v
  rules : s'.desk.rules = s.desk.rules
  layout : s'.desk.layout = s.desk.layout
  registry : s'.desk.registry = s.desk.registry
  view : s.SameView s'

variable {s s' s₀ : Scene heads}

namespace Scene

theorem SameView.refl (s : Scene heads) : s.SameView s := ⟨rfl, rfl, rfl⟩

theorem SameView.trans {s'' : Scene heads} (h : s.SameView s') (h' : s'.SameView s'') :
    s.SameView s'' :=
  ⟨h'.look.trans h.look, h'.untold.trans h.untold, h'.cursor.trans h.cursor⟩

/-- The windows are told by their addresses. -/
theorem eq_of_address (s : Scene heads) {c c' : Client} (hc : c ∈ s.desk.windows)
    (hc' : c' ∈ s.desk.windows) (h : c.address = c'.address) : c = c' :=
  List.inj_on_of_nodup_map s.coherent.distinct hc hc' h

end Scene

theorem Level.refl (s : Scene heads) : Level layout v s s :=
  ⟨rfl, fun _ _ _ _ h => Or.inl h, rfl, rfl, rfl, .refl s⟩

theorem Level.same (hl : Level layout v s₀ s) (hdesk : s'.desk = s.desk) (hview : s.SameView s') :
    Level layout v s₀ s' := by
  refine ⟨?_, ?_, ?_, ?_, ?_, hl.view.trans hview⟩ <;> rw [hdesk]
  · exact hl.windows
  · exact hl.homes
  · exact hl.rules
  · exact hl.layout
  · exact hl.registry

section Rules

variable {α β : Type} {H : Handler SyncOp (Scene heads)} {I : Scene heads → Prop}

end Rules

/-- A request that moves no window, and no workspace with a window but to its own monitor. -/
theorem Level.kept (hl : Level layout v s₀ s)
    (hsame : ∃ active focus home, s'.desk = { s.desk with active, focus, home })
    (hhomes : ∀ c ∈ s.desk.windows, ∀ h ∈ heads.list, s'.desk.home c.workspace = some h.name →
      s.desk.home c.workspace = some h.name ∨ c.workspace = h.target layout v)
    (hview : s.SameView s') : Level layout v s₀ s' := by
  have hkept : ∀ c ∈ s₀.desk.windows, ∀ h ∈ heads.list, s'.desk.home c.workspace = some h.name →
      s₀.desk.home c.workspace = some h.name ∨ c.workspace = h.target layout v := by
    intro c hc h hh hname
    rcases hhomes c (hl.windows ▸ hc) h hh hname with hsame | hown
    · exact hl.homes c hc h hh hsame
    · exact Or.inr hown
  obtain ⟨active, focus, home, heq⟩ := hsame
  refine ⟨?_, hkept, ?_, ?_, ?_, hl.view.trans hview⟩ <;> rw [heq]
  · exact hl.windows
  · exact hl.rules
  · exact hl.layout
  · exact hl.registry

theorem isPinned_congr {c c' : WindowClient} (hlook : c.look = c'.look)
    (haddress : c.address = c'.address) : isPinned pinned c = isPinned pinned c' := by
  have hmatches : ∀ p : WindowPattern, p.«matches» c = p.«matches» c' := by
    intro p
    cases p <;> simp only [WindowPattern.«matches», hlook, haddress]
  simp only [isPinned, hmatches]

theorem Scene.SameView.isPinned (hview : s.SameView s') (c : Client) :
    isPinned pinned (s'.client c) = isPinned pinned (s.client c) :=
  isPinned_congr (congrFun hview.look c.address) rfl

theorem Followed.moved {c : Client} {workspace : Int} (hf : Followed layout pinned v s₀ s)
    (hc : c ∈ s₀.desk.windows) (hmay : Follows layout pinned v s₀ c workspace)
    (hm : WindowMoved c.address workspace s.desk s'.desk) (hview : s.SameView s') :
    Followed layout pinned v s₀ s' := by
  obtain ⟨place, hwindows, hplace⟩ := hf.windows
  have hmoved : s'.desk.windows = s₀.desk.windows.map (fun x =>
      { x with workspace := if x.address = c.address then workspace else place x }) := by
    rw [hm.windows, hwindows, List.map_map]
    refine List.map_congr_left fun x _ => ?_
    by_cases hx : x.address = c.address
    · simp [Client.moved, hx]
    · simp [Client.moved, hx]
  obtain ⟨home, windows, heq⟩ := hm.same
  refine ⟨⟨_, hmoved, fun x hx => ?_⟩, ?_, ?_, ?_, hf.view.trans hview⟩
  · by_cases haddress : x.address = c.address
    · rw [if_pos haddress, s₀.eq_of_address hx hc haddress]
      exact hmay
    · rw [if_neg haddress]
      exact hplace x hx
  · rw [heq, hf.rules]
  · rw [heq, hf.layout]
  · rw [heq, hf.registry]

theorem Followed.kept (hf : Followed layout pinned v s₀ s)
    (hsame : ∃ active focus home, s'.desk = { s.desk with active, focus, home })
    (hview : s.SameView s') : Followed layout pinned v s₀ s' := by
  obtain ⟨active, focus, home, heq⟩ := hsame
  refine ⟨?_, ?_, ?_, ?_, hf.view.trans hview⟩ <;> rw [heq]
  · exact hf.windows
  · exact hf.rules
  · exact hf.layout
  · exact hf.registry

end Foundrix.HyprWorkspaced

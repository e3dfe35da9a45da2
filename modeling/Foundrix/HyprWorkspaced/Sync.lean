import Mathlib.Algebra.Ring.Nat
import Foundrix.HyprWorkspaced.Workspace
import Foundrix.Machine.Trace

/-!
# Synchronising the monitors

The loop of `daemon.rs` and `WorkspaceManager::sync_monitors`, beside Hyprland, the user and
the task that delivers Hyprland's events into the watch channel. A monitor is named by its
slot.

* `State`, `step`: the parties, and their steps in any order.
* `Agree`, `Quiescent`: what is wanted, and when.
* `monitors_agree_iff`: when it is reached.
-/

namespace Foundrix.HyprWorkspaced

open Machine

/-! ## The parties -/

/-- Where the daemon stands in its loop and in `sync_monitors`. -/
inductive Daemon where
  /-- In `select!`. -/
  | idle
  /-- `changed()` has returned, and the channel is not read yet. -/
  | woken
  /-- Before the monitors are listed. -/
  | listing (trigger : Int)
  /-- Monitors to go, each with the workspace that it showed when they were listed. -/
  | switching (trigger : Int) (rest : List (MonitorSlot × Int))
  /-- Before the active workspace is read. -/
  | reading (trigger : Int)
  | refocusing (trigger active : Int)
  /-- At `focus_window_under_cursor`. -/
  | pointing (trigger : Int)
  /-- `sync_monitors` has returned. -/
  | returned (trigger : Int)
deriving DecidableEq, Repr

structure State where
  /-- The workspace that a monitor shows. -/
  shown : MonitorSlot → Int
  focus : MonitorSlot
  /-- The events that the listener has not taken yet, the earliest first. -/
  undelivered : List Int := []
  /-- The value in the watch channel. -/
  workspaceId : Int := 0
  generation : Nat := 0
  /-- The receiver has not seen the value. -/
  unread : Bool := false
  daemon : Daemon := .idle
  lastSyncedGeneration : Nat := 0
  lastSyncedVspace : Option VirtualWorkspace := none
  /-- Some monitor has switched to another workspace. -/
  switched : Bool := false

/-- `FocusWorkspace` of the workspace `v` of a monitor. -/
def State.focusWorkspace (u : State) (v : VirtualWorkspace) (s : MonitorSlot) : State :=
  if u.shown s = v.hyprlandId s then { u with focus := s }
  else { u with
    shown := Function.update u.shown s (v.hyprlandId s)
    focus := s
    undelivered := u.undelivered ++ [v.hyprlandId s]
    switched := true }

/-- `send_modify` with the id of an event. -/
def State.sendModify (u : State) (id : Int) : State :=
  { u with workspaceId := id, generation := (u.generation + 1) % 2 ^ 64, unread := true }

inductive Act where
  /-- The user switches to a workspace; a `switch` command of the daemon does the same. -/
  | user (v : VirtualWorkspace) (s : MonitorSlot)
  | deliver
  | wake
  /-- The channel is read, and what was read is dropped or a synchronisation begins. -/
  | borrow
  | list
  /-- The next monitor of the loop, or the end of it. -/
  | next
  | read
  | refocus
  /-- A window gets the focus, and with it the monitor that it is on. -/
  | point (s : Option MonitorSlot)
  | finish
deriving DecidableEq, Repr

/-- The monitor that owns a workspace, by the slot in its id. -/
def owner (id : Int) : MonitorSlot := MonitorSlot.fromHyprlandId id

/-- What the daemon makes of the value in the channel: the workspace to synchronise to. -/
def State.toSync (u : State) : Option VirtualWorkspace :=
  if u.generation ≤ u.lastSyncedGeneration then none
  else (VirtualWorkspace.fromHyprlandId u.workspaceId).filter
    fun v => u.lastSyncedVspace ≠ some v

variable (monitors : List MonitorSlot)

/-- The state after a step, where it can be taken. -/
def step (u : State) : Act → Option State
  | .user v s => if s ∈ monitors then some (u.focusWorkspace v s) else none
  | .deliver =>
    match u.undelivered with
    | [] => none
    | id :: ids => some ({ u with undelivered := ids }.sendModify id)
  | .wake =>
    if u.daemon = .idle ∧ u.unread = true then
      some { u with unread := false, daemon := .woken }
    else none
  | .borrow =>
    if u.daemon = .woken then
      some { u with
        lastSyncedGeneration := max u.generation u.lastSyncedGeneration
        daemon := match u.toSync with
          | some _ => .listing u.workspaceId
          | none => .idle }
    else none
  | .list =>
    match u.daemon with
    | .listing trigger =>
      if monitors.length ≤ 1 then some { u with daemon := .returned trigger }
      else some { u with daemon := .switching trigger (monitors.map fun s => (s, u.shown s)) }
    | _ => none
  | .next =>
    match u.daemon with
    | .switching trigger [] => some { u with daemon := .reading trigger }
    | .switching trigger ((s, active) :: rest) =>
      (VirtualWorkspace.fromHyprlandId trigger).map fun v =>
        let u := { u with daemon := .switching trigger rest }
        if v.hyprlandId s = trigger ∨ active = v.hyprlandId s then u else u.focusWorkspace v s
    | _ => none
  | .read =>
    match u.daemon with
    | .reading trigger => some { u with daemon := .refocusing trigger (u.shown u.focus) }
    | _ => none
  | .refocus =>
    match u.daemon with
    | .refocusing trigger active =>
      (VirtualWorkspace.fromHyprlandId trigger).map fun v =>
        let u := { u with daemon := .pointing trigger }
        if active ≠ trigger then u.focusWorkspace v (owner trigger) else u
    | _ => none
  | .point s =>
    match u.daemon with
    | .pointing trigger => some { u with daemon := .returned trigger, focus := s.getD u.focus }
    | _ => none
  | .finish =>
    match u.daemon with
    | .returned trigger =>
      some { u with daemon := .idle, lastSyncedVspace := VirtualWorkspace.fromHyprlandId trigger }
    | _ => none

abbrev Step (u : State) (a : Act) (w : State) : Prop := step monitors u a = some w

/-- Any workspaces on the monitors, nothing switched yet, and the daemon at its loop. -/
def State.initial (shown : MonitorSlot → Int) (focus : MonitorSlot) : State := { shown, focus }

/-! ## Agreement -/

/-- Each monitor shows its own workspace of one virtual workspace. -/
def Agree (u : State) : Prop :=
  ∃ v : VirtualWorkspace, ∀ s ∈ monitors, u.shown s = v.hyprlandId s

/-- No event is on its way to the daemon. -/
def Calm (u : State) : Prop := u.undelivered = [] ∧ u.unread = false

def Quiescent (u : State) : Prop := Calm u ∧ u.daemon = .idle

/-- The value in the channel is about to be dropped, though it is the last one there is. -/
def DropsLast (u : State) : Prop := u.daemon = .woken ∧ u.toSync = none ∧ Calm u

/-! ## The invariant -/

/-- The id of a workspace of an attached monitor. -/
def Valid (id : Int) : Prop := ∃ v : VirtualWorkspace, ∃ s ∈ monitors, id = v.hyprlandId s

/-- The workspace that is synchronised to. -/
def Daemon.trigger : Daemon → Option Int
  | .idle | .woken => none
  | .listing trigger | .switching trigger _ | .reading trigger | .refocusing trigger _ => some trigger
  | .pointing trigger | .returned trigger => some trigger

/-- The monitors that the loop has still to look at. -/
def Daemon.rest : Daemon → List (MonitorSlot × Int)
  | .switching _ rest => rest
  | _ => []

/-- The id of the latest event. -/
def State.latest (u : State) : Int := u.undelivered.getLast?.getD u.workspaceId

/-- What holds of the events, delivered or not. -/
structure Events (u : State) : Prop where
  undelivered : ∀ id ∈ u.undelivered, Valid monitors id
  channel : u.unread = true ∨ u.daemon ≠ .idle → Valid monitors u.workspaceId
  trigger : ∀ id, u.daemon.trigger = some id → Valid monitors id
  rest : ∀ p ∈ u.daemon.rest, p.1 ∈ monitors
  switched : u.undelivered ≠ [] ∨ u.unread = true ∨ u.daemon ≠ .idle → u.switched = true
  latest : u.switched = true → ∃ v : VirtualWorkspace, ∃ s ∈ monitors,
    u.latest = v.hyprlandId s ∧ u.shown s = u.latest

/-- What holds at each place of the daemon while no event is on its way to it. -/
def Phase (u : State) : Daemon → Prop
  | .idle => u.switched = true → Agree monitors u
  | .woken => True
  | .listing trigger => trigger = u.workspaceId
  | .switching trigger rest => trigger = u.workspaceId ∧ (∀ p ∈ rest, u.shown p.1 = p.2) ∧
      ∀ (v : VirtualWorkspace) (t : MonitorSlot), trigger = v.hyprlandId t →
        ∀ s ∈ monitors, u.shown s = v.hyprlandId s ∨ s ∈ rest.map Prod.fst
  | .reading trigger | .refocusing trigger _ | .pointing trigger | .returned trigger =>
      ∀ (v : VirtualWorkspace) (t : MonitorSlot), trigger = v.hyprlandId t →
        ∀ s ∈ monitors, u.shown s = v.hyprlandId s

structure Inv (u : State) : Prop where
  events : Events monitors u
  phase : Calm u → Phase monitors u u.daemon

theorem inv_initial (shown : MonitorSlot → Int) (focus : MonitorSlot) :
    Inv monitors (.initial shown focus) := by
  constructor
  · constructor <;> simp [State.initial, Daemon.trigger, Daemon.rest]
  · intro _ h
    cases h

variable {monitors} {u w : State}

theorem focusWorkspace_same {v : VirtualWorkspace} {s : MonitorSlot}
    (h : u.shown s = v.hyprlandId s) : u.focusWorkspace v s = { u with focus := s } :=
  if_pos h

/-- A focus after which no event is on its way has changed nothing but the focus. -/
theorem calm_focusWorkspace {v : VirtualWorkspace} {s : MonitorSlot}
    (h : Calm (u.focusWorkspace v s)) :
    u.shown s = v.hyprlandId s ∧ u.focusWorkspace v s = { u with focus := s } := by
  by_cases hs : u.shown s = v.hyprlandId s
  · exact ⟨hs, focusWorkspace_same hs⟩
  · have hnil := h.1
    simp [State.focusWorkspace, hs] at hnil

theorem Events.focusWorkspace {v : VirtualWorkspace} {s : MonitorSlot} (h : Events monitors u)
    (hs : s ∈ monitors) : Events monitors (u.focusWorkspace v s) := by
  by_cases hsame : u.shown s = v.hyprlandId s
  · rw [focusWorkspace_same hsame]
    exact ⟨h.undelivered, h.channel, h.trigger, h.rest, h.switched, h.latest⟩
  · rw [State.focusWorkspace, if_neg hsame]
    refine ⟨?_, h.channel, h.trigger, h.rest, fun _ => rfl, fun _ => ⟨v, s, hs, ?_, ?_⟩⟩
    · intro id hid
      rcases List.mem_append.mp hid with hid | hid
      · exact h.undelivered id hid
      · obtain rfl := List.mem_singleton.mp hid
        exact ⟨v, s, hs, rfl⟩
    · simp [State.latest]
    · simp [State.latest]

/-- Another place of the daemon, with no other trigger. -/
theorem Events.at (h : Events monitors u) (hne : u.daemon ≠ .idle) {d : Daemon}
    (htrigger : ∀ id, d.trigger = some id → Valid monitors id)
    (hrest : ∀ p ∈ d.rest, p.1 ∈ monitors) : Events monitors { u with daemon := d } :=
  ⟨h.undelivered, fun _ => h.channel (Or.inr hne), htrigger, hrest,
    fun _ => h.switched (Or.inr (Or.inr hne)), h.latest⟩

theorem phase_focus (s : MonitorSlot) (d : Daemon) :
    Phase monitors { u with focus := s } d = Phase monitors u d := by
  cases d <;> rfl

theorem user_inv {v : VirtualWorkspace} {s : MonitorSlot} (h : Inv monitors u)
    (hs : s ∈ monitors) : Inv monitors (u.focusWorkspace v s) := by
  refine ⟨h.events.focusWorkspace hs, fun hcalm => ?_⟩
  obtain ⟨-, heq⟩ := calm_focusWorkspace hcalm
  have hphase := h.phase (by rw [heq] at hcalm; exact hcalm)
  rw [heq, phase_focus]
  exact hphase

theorem deliver_inv (h : Inv monitors u) (hs : Step monitors u .deliver w) : Inv monitors w := by
  simp only [Step, step] at hs
  split at hs
  · cases hs
  · rename_i id ids hlist
    cases hs
    have hvalid : Valid monitors id := h.events.undelivered id (by simp [hlist])
    have hswitched : u.switched = true := h.events.switched (Or.inl (by simp [hlist]))
    have hlatest : ({ u with undelivered := ids }.sendModify id).latest = u.latest := by
      simp only [State.latest, State.sendModify, hlist]
      cases ids <;> simp [List.getLast?_cons]
    refine ⟨⟨fun id' hid => ?_, fun _ => hvalid, h.events.trigger, h.events.rest,
      fun _ => hswitched, fun hsw => ?_⟩, fun hcalm => ?_⟩
    · exact h.events.undelivered id' (by rw [hlist]; exact List.mem_cons_of_mem _ hid)
    · rw [hlatest]
      exact h.events.latest hsw
    · cases hcalm.2

theorem wake_inv (h : Inv monitors u) (hs : Step monitors u .wake w) : Inv monitors w := by
  simp only [Step, step] at hs
  split at hs
  · rename_i hcond
    cases hs
    have hvalid := h.events.channel (Or.inl hcond.2)
    have hswitched := h.events.switched (Or.inr (Or.inl hcond.2))
    exact ⟨⟨h.events.undelivered, fun _ => hvalid, by simp [Daemon.trigger], by simp [Daemon.rest],
      fun _ => hswitched, h.events.latest⟩, fun _ => trivial⟩
  · cases hs

theorem borrow_inv (h : Inv monitors u) (hdrop : DropsLast u → Agree monitors u)
    (hs : Step monitors u .borrow w) : Inv monitors w := by
  simp only [Step, step] at hs
  split at hs
  · rename_i hwoken
    have hne : u.daemon ≠ .idle := by simp [hwoken]
    have hvalid := h.events.channel (Or.inr hne)
    have hswitched := h.events.switched (Or.inr (Or.inr hne))
    cases hs
    cases hsync : u.toSync with
    | none =>
      refine ⟨⟨h.events.undelivered, fun _ => hvalid, by simp [Daemon.trigger],
        by simp [Daemon.rest], fun _ => hswitched, h.events.latest⟩, fun hcalm _ => ?_⟩
      exact hdrop ⟨hwoken, hsync, hcalm⟩
    | some v =>
      refine ⟨⟨h.events.undelivered, fun _ => hvalid, ?_, by simp [Daemon.rest],
        fun _ => hswitched, h.events.latest⟩, fun _ => rfl⟩
      intro id hid
      cases hid
      exact hvalid
  · cases hs

/-- A step of the daemon within `sync_monitors`, the last one included. -/
theorem Inv.at (h : Inv monitors u) (hne : u.daemon ≠ .idle) {d : Daemon}
    (htrigger : ∀ id, d.trigger = some id → Valid monitors id)
    (hrest : ∀ p ∈ d.rest, p.1 ∈ monitors)
    (hphase : Calm u → Phase monitors u u.daemon → Phase monitors u d) :
    Inv monitors { u with daemon := d } := by
  refine ⟨h.events.at hne htrigger hrest, fun hcalm => ?_⟩
  have hd := hphase hcalm (h.phase hcalm)
  cases d <;> exact hd

/-- A step in which the daemon focuses a workspace. -/
theorem Inv.focus (h : Inv monitors u) (hne : u.daemon ≠ .idle) {d : Daemon}
    (htrigger : ∀ id, d.trigger = some id → Valid monitors id)
    (hrest : ∀ p ∈ d.rest, p.1 ∈ monitors) {v : VirtualWorkspace} {s : MonitorSlot}
    (hs : s ∈ monitors)
    (hphase : Calm u → u.shown s = v.hyprlandId s → Phase monitors u u.daemon →
      Phase monitors u d) :
    Inv monitors (State.focusWorkspace { u with daemon := d } v s) := by
  refine ⟨(h.events.at hne htrigger hrest).focusWorkspace hs, fun hcalm => ?_⟩
  obtain ⟨hshown, heq⟩ := calm_focusWorkspace hcalm
  have hcalm' : Calm u := by
    rw [heq] at hcalm
    exact hcalm
  have hd := hphase hcalm' hshown (h.phase hcalm')
  rw [heq, phase_focus]
  cases d <;> exact hd

theorem list_inv (h : Inv monitors u) (hs : Step monitors u .list w) : Inv monitors w := by
  simp only [Step, step] at hs
  cases hd : u.daemon with
  | listing trigger =>
    simp only [hd] at hs
    have hne : u.daemon ≠ .idle := by simp [hd]
    have htrigger : Valid monitors trigger := h.events.trigger trigger (by simp [hd, Daemon.trigger])
    have hswitched := h.events.switched (Or.inr (Or.inr hne))
    split at hs
    · rename_i hone
      cases hs
      refine h.at hne (by simp [Daemon.trigger, htrigger]) (by simp [Daemon.rest]) ?_
      intro hcalm hphase v t hvt s hsm
      rw [hd] at hphase
      -- the only monitor shows the workspace of the latest event
      obtain ⟨v', t', ht', hlatest, hshown⟩ := h.events.latest hswitched
      have hid : u.latest = trigger := by
        simp [State.latest, hcalm.1, show trigger = u.workspaceId from hphase]
      have heq := hyprlandId_inj (hvt.symm.trans (hid.symm.trans hlatest))
      have hst : s = t' := by
        match monitors, hone, hsm, ht' with
        | [a], _, hsm, ht' => rw [List.mem_singleton.mp hsm, List.mem_singleton.mp ht']
      rw [hst, hshown, hlatest, heq.1]
    · cases hs
      refine h.at hne (by simp [Daemon.trigger, htrigger]) (by simp [Daemon.rest]) ?_
      intro _ hphase
      rw [hd] at hphase
      refine ⟨hphase, by simp, fun v t _ s hsm => Or.inr ?_⟩
      simpa using hsm
  | _ => simp [hd] at hs

theorem next_inv (h : Inv monitors u) (hs : Step monitors u .next w) : Inv monitors w := by
  simp only [Step, step] at hs
  cases hd : u.daemon with
  | switching trigger rest =>
    have hne : u.daemon ≠ .idle := by simp [hd]
    have htrigger : Valid monitors trigger := h.events.trigger trigger (by simp [hd, Daemon.trigger])
    have hswitched := h.events.switched (Or.inr (Or.inr hne))
    have hrest : ∀ p ∈ rest, p.1 ∈ monitors := fun p hp => h.events.rest p (by simpa [hd, Daemon.rest])
    cases rest with
    | nil =>
      simp only [hd] at hs
      cases hs
      refine h.at hne (by simp [Daemon.trigger, htrigger]) (by simp [Daemon.rest]) ?_
      intro _ hphase v t hvt s hsm
      rw [hd] at hphase
      exact (hphase.2.2 v t hvt s hsm).resolve_right (by simp)
    | cons p rest =>
      obtain ⟨s, active⟩ := p
      obtain ⟨v, t, ht, rfl⟩ := htrigger
      have htrigger' : ∀ id, (Daemon.switching (v.hyprlandId t) rest).trigger = some id →
          Valid monitors id := by
        intro id hid
        cases hid
        exact ⟨v, t, ht, rfl⟩
      have hrest' : ∀ p ∈ (Daemon.switching (v.hyprlandId t) rest).rest, p.1 ∈ monitors :=
        fun p hp => hrest p (List.mem_cons_of_mem _ hp)
      -- once this monitor shows its target, the loop has got one monitor further
      have done : u.shown s = v.hyprlandId s →
          Phase monitors u (.switching (v.hyprlandId t) ((s, active) :: rest)) →
          Phase monitors u (.switching (v.hyprlandId t) rest) := by
        rintro hshown ⟨hid, hseen, hall⟩
        refine ⟨hid, fun p hp => hseen p (List.mem_cons_of_mem _ hp), fun v' t' hvt a ha => ?_⟩
        rcases hall v' t' hvt a ha with hok | hmem
        · exact Or.inl hok
        · rcases List.mem_cons.mp hmem with rfl | hmem
          · rw [← (hyprlandId_inj hvt).1]
            exact Or.inl hshown
          · exact Or.inr hmem
      simp only [hd, fromHyprlandId_hyprlandId, Option.map_some, Option.some.injEq] at hs
      split at hs
      · rename_i hskip
        subst hs
        refine h.at hne htrigger' hrest' fun hcalm hphase => ?_
        rw [hd] at hphase
        refine done ?_ hphase
        rcases hskip with htarget | hactive
        · obtain ⟨v', t', -, hlatest, hshown⟩ := h.events.latest hswitched
          have hid : u.latest = v.hyprlandId t := by
            simp only [State.latest, hcalm.1, List.getLast?_nil, Option.getD_none]
            exact hphase.1.symm
          have hvt := hyprlandId_inj (hlatest.symm.trans hid)
          rw [(hyprlandId_inj htarget).2, ← hvt.2, hshown, hlatest, hvt.1, hvt.2]
        · rw [hphase.2.1 (s, active) List.mem_cons_self, hactive]
      · subst hs
        refine h.focus hne htrigger' hrest' (hrest _ List.mem_cons_self) ?_
        intro hcalm hshown hphase
        rw [hd] at hphase
        exact done hshown hphase
  | _ => simp [hd] at hs

theorem read_inv (h : Inv monitors u) (hs : Step monitors u .read w) : Inv monitors w := by
  simp only [Step, step] at hs
  cases hd : u.daemon with
  | reading trigger =>
    simp only [hd] at hs
    cases hs
    have htrigger : Valid monitors trigger := h.events.trigger trigger (by simp [hd, Daemon.trigger])
    refine h.at (by simp [hd]) (by simp [Daemon.trigger, htrigger]) (by simp [Daemon.rest]) ?_
    intro _ hphase
    rw [hd] at hphase
    exact hphase
  | _ => simp [hd] at hs

theorem refocus_inv (h : Inv monitors u) (hs : Step monitors u .refocus w) : Inv monitors w := by
  simp only [Step, step] at hs
  cases hd : u.daemon with
  | refocusing trigger active =>
    obtain ⟨v, t, ht, rfl⟩ := h.events.trigger trigger (by simp [hd, Daemon.trigger])
    have htrigger : ∀ id, (Daemon.pointing (v.hyprlandId t)).trigger = some id →
        Valid monitors id := by
      intro id hid
      cases hid
      exact ⟨v, t, ht, rfl⟩
    simp only [hd, fromHyprlandId_hyprlandId, Option.map_some, Option.some.injEq, owner,
      slot_fromHyprlandId_hyprlandId] at hs
    split at hs
    · subst hs
      refine h.focus (by simp [hd]) htrigger (by simp [Daemon.rest]) ht ?_
      intro _ _ hphase
      rw [hd] at hphase
      exact hphase
    · subst hs
      refine h.at (by simp [hd]) htrigger (by simp [Daemon.rest]) ?_
      intro _ hphase
      rw [hd] at hphase
      exact hphase
  | _ => simp [hd] at hs

theorem point_inv {s : Option MonitorSlot} (h : Inv monitors u)
    (hs : Step monitors u (.point s) w) : Inv monitors w := by
  simp only [Step, step] at hs
  cases hd : u.daemon with
  | pointing trigger =>
    simp only [hd] at hs
    cases hs
    have htrigger : Valid monitors trigger := h.events.trigger trigger (by simp [hd, Daemon.trigger])
    have hat : Inv monitors { u with daemon := .returned trigger } := by
      refine h.at (by simp [hd]) (by simp [Daemon.trigger, htrigger]) (by simp [Daemon.rest]) ?_
      intro _ hphase
      rw [hd] at hphase
      exact hphase
    have hev := hat.events
    exact ⟨⟨hev.undelivered, hev.channel, hev.trigger, hev.rest, hev.switched, hev.latest⟩,
      fun hcalm => hat.phase hcalm⟩
  | _ => simp [hd] at hs

theorem finish_inv (h : Inv monitors u) (hs : Step monitors u .finish w) : Inv monitors w := by
  simp only [Step, step] at hs
  cases hd : u.daemon with
  | returned trigger =>
    simp only [hd] at hs
    cases hs
    have hne : u.daemon ≠ .idle := by simp [hd]
    obtain ⟨v, t, -, hvt⟩ := h.events.trigger trigger (by simp [hd, Daemon.trigger])
    have hat : Inv monitors { u with daemon := .idle } := by
      refine h.at hne (by simp [Daemon.trigger]) (by simp [Daemon.rest]) ?_
      intro _ hphase _
      rw [hd] at hphase
      exact ⟨v, hphase v t hvt⟩
    have hev := hat.events
    exact ⟨⟨hev.undelivered, hev.channel, hev.trigger, hev.rest, hev.switched, hev.latest⟩,
      fun hcalm => hat.phase hcalm⟩
  | _ => simp [hd] at hs

/-- Every step keeps the invariant, unless the last event is dropped while the monitors
disagree. -/
theorem step_inv {a : Act} (h : Inv monitors u) (hs : Step monitors u a w)
    (hdrop : a = .borrow → DropsLast u → Agree monitors u) : Inv monitors w := by
  cases a with
  | user v s =>
    simp only [Step, step] at hs
    split at hs
    · rename_i hmem
      cases hs
      exact user_inv h hmem
    · cases hs
  | deliver => exact deliver_inv h hs
  | wake => exact wake_inv h hs
  | borrow => exact borrow_inv h (hdrop rfl) hs
  | list => exact list_inv h hs
  | next => exact next_inv h hs
  | read => exact read_inv h hs
  | refocus => exact refocus_inv h hs
  | point s => exact point_inv h hs
  | finish => exact finish_inv h hs

/-! ## Whole runs -/

/-- Dropping the last event leaves a quiescent state, with the monitors as they were. -/
theorem drop_quiescent (h : DropsLast u) (hs : Step monitors u .borrow w) :
    Quiescent w ∧ w.shown = u.shown ∧ w.switched = u.switched := by
  obtain ⟨hwoken, hsync, hcalm⟩ := h
  simp only [Step, step, if_pos hwoken, hsync] at hs
  cases hs
  exact ⟨⟨hcalm, rfl⟩, rfl, rfl⟩

theorem run_inv {l : List (State × Act)} {shown : MonitorSlot → Int} {focus : MonitorSlot}
    (h : Trace (Step monitors) (.initial shown focus) l u)
    (hdrop : ∀ x ∈ l, Inv monitors x.1 → x.2 = .borrow → DropsLast x.1 → Agree monitors x.1) :
    ∀ w ∈ visited l u, Inv monitors w := by
  refine h.keeps_visited (inv_initial monitors shown focus) ?_
  intro v a w hv hi hs
  exact step_inv hi hs (hdrop (v, a) hv hi)

/-- In every run of the user, the event listener and the daemon: whenever nothing is on its
way and the daemon is idle after a switch, all monitors show one virtual workspace, exactly
if the last event on its way is never dropped while they do not. -/
theorem monitors_agree_iff (monitors : List MonitorSlot) (shown : MonitorSlot → Int)
    (focus : MonitorSlot) (l : List (State × Act)) (u : State)
    (h : Trace (Step monitors) (.initial shown focus) l u) :
    (∀ w ∈ visited l u, Quiescent w → w.switched = true → Agree monitors w) ↔
      ∀ x ∈ l, x.2 = .borrow → DropsLast x.1 → Agree monitors x.1 := by
  constructor
  · intro hagree
    have harmless : ∀ x ∈ l, Inv monitors x.1 → x.2 = .borrow → DropsLast x.1 →
        Agree monitors x.1 := by
      rintro ⟨v, a⟩ hx hi rfl hdrop
      obtain ⟨w, hw, hs⟩ := h.next hx
      obtain ⟨hquiet, hshown, hswitched⟩ := drop_quiescent hdrop hs
      have hwoken : v.daemon = .woken := hdrop.1
      have hne : v.daemon ≠ .idle := by simp [hwoken]
      have hsw := hi.events.switched (Or.inr (Or.inr hne))
      obtain ⟨vw, hall⟩ := hagree w hw hquiet (hswitched.trans hsw)
      exact ⟨vw, fun s hs => hshown ▸ hall s hs⟩
    intro x hx hb hdrop
    have hmem : x.1 ∈ visited l u :=
      List.mem_append_left _ (List.mem_map_of_mem hx)
    exact harmless x hx (run_inv h harmless x.1 hmem) hb hdrop
  · intro hdrop w hw hquiet hswitched
    have hi := run_inv h (fun x hx _ => hdrop x hx) w hw
    have hphase := hi.phase hquiet.1
    rw [hquiet.2] at hphase
    exact hphase hswitched

/-! ## Concrete runs -/

instance (u : State) : Decidable (DropsLast u) :=
  inferInstanceAs (Decidable (_ ∧ _ ∧ _ ∧ _))

instance (u : State) : Decidable (Quiescent u) :=
  inferInstanceAs (Decidable ((_ ∧ _) ∧ _))

def second : VirtualWorkspace := ⟨2, by decide⟩

def third : VirtualWorkspace := ⟨3, by decide⟩

def twoMonitors : List MonitorSlot := [⟨0⟩, ⟨1⟩]

/-- Both monitors show workspace 1. -/
def atFirst : State := .initial (fun s => if s = ⟨0⟩ then 1 else 11) ⟨0⟩

/-- The user switches one monitor, and the other one follows. -/
def followActs : List Act :=
  [.user second ⟨0⟩, .deliver, .wake, .borrow, .list, .next, .next, .next, .read, .refocus,
    .point none, .finish, .deliver, .wake, .borrow]

/-- While the other monitor follows, the user switches both. -/
def overtakenActs : List Act :=
  [.user second ⟨0⟩, .deliver, .wake, .borrow, .list, .next, .next, .user third ⟨0⟩,
    .user third ⟨1⟩, .next, .read, .refocus, .point none, .finish, .deliver, .deliver, .deliver,
    .deliver, .wake, .borrow]

theorem monitors_agree_iff_sample :
    ∃ l u, replay (step twoMonitors) atFirst followActs = some (l, u) ∧
      u.shown ⟨0⟩ = 2 ∧ u.shown ⟨1⟩ = 12 ∧
      ∀ w ∈ visited l u, Quiescent w → w.switched = true → Agree twoMonitors w := by
  have hend : ∃ r, replay (step twoMonitors) atFirst followActs = some r ∧
      r.2.shown ⟨0⟩ = 2 ∧ r.2.shown ⟨1⟩ = 12 ∧ ∀ x ∈ r.1, x.2 = .borrow → DropsLast x.1 →
        ∀ s ∈ twoMonitors, x.1.shown s = second.hyprlandId s :=
    ⟨_, rfl, by decide, by decide, by decide⟩
  obtain ⟨⟨l, u⟩, hr, hfirst, hsecond, hdrop⟩ := hend
  refine ⟨l, u, hr, hfirst, hsecond, ?_⟩
  exact (monitors_agree_iff twoMonitors _ _ l u (trace_of_replay hr)).mpr
    fun x hx hb hd => ⟨second, hdrop x hx hb hd⟩

/-- The refocus of the first monitor overwrites the event of the second one, and is dropped
itself. -/
theorem monitors_left_apart :
    ¬ ∀ (monitors : List MonitorSlot) (shown : MonitorSlot → Int) (focus : MonitorSlot)
      (l : List (State × Act)) (u : State), Trace (Step monitors) (.initial shown focus) l u →
        Quiescent u → u.switched = true → Agree monitors u := by
  intro h
  have hend : ∃ r, replay (step twoMonitors) atFirst overtakenActs = some r ∧
      Quiescent r.2 ∧ r.2.switched = true ∧ r.2.shown ⟨0⟩ = 2 ∧ r.2.shown ⟨1⟩ = 13 :=
    ⟨_, rfl, by decide, by decide, by decide, by decide⟩
  obtain ⟨⟨l, u⟩, hr, hquiet, hswitched, hfirst, hsecond⟩ := hend
  obtain ⟨v, hall⟩ := h twoMonitors _ _ l u (trace_of_replay hr) hquiet hswitched
  have h₀ : 2 = v.hyprlandId ⟨0⟩ := hfirst.symm.trans (hall ⟨0⟩ (by decide))
  have h₁ : 13 = v.hyprlandId ⟨1⟩ := hsecond.symm.trans (hall ⟨1⟩ (by decide))
  simp only [VirtualWorkspace.hyprlandId, UInt8.toNat_ofNat] at h₀ h₁
  omega

end Foundrix.HyprWorkspaced

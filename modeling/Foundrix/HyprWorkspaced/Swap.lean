import Foundrix.HyprWorkspaced.Collapse
import Mathlib.Data.List.Basic

/-!
# Swapping two monitors

`WorkspaceManager::swap_monitor` of `packages/hypr-workspaced/src/workspace.rs`. The windows of
the focused monitor are moved to a buffer workspace, then those of its neighbour to the focused
monitor, and then the first again, to the neighbour.

* `swapMonitor`: the queries and the requests.
* `Session`, `hyprctl`: the windows, the monitors, how many requests are answered, and whether
  the one after them is carried out.
* `requestAll`, `lastPlace`: a list of moves, and where it leaves a window.
* `run_swapMonitor`: the moves of a swap are one such list, of which a failure keeps a prefix.
* `swap_exchanges`: what is exchanged when every request is answered.
-/

namespace Foundrix.HyprWorkspaced

open Effect

/-! ## The program -/

/-- A monitor and the position of its left edge. -/
structure Output extends Monitor where
  x : Int
deriving DecidableEq, Repr

/-- The requests that a swap makes, each of which may fail. -/
inductive SwapOp : Type → Type where
  | monitors : SwapOp (Except String (List Output))
  | clients : SwapOp (Except String (List Client))
  | moveWindowSilent (window : String) (workspace : Int) : SwapOp (Except String Unit)

/-- A request and `?`. -/
def ask {α : Type} (e : SwapOp (Except String α)) : Prog SwapOp String α := do
  Prog.orFail (← Prog.perform e)

/-- `query::active_monitor`. -/
def activeMonitor : Prog SwapOp String Output := do
  let monitors ← ask .monitors
  match monitors.find? fun m => m.focused with
  | some m => return m
  | none => Prog.fail "Hyprland lists no focused monitor"

/-- `sort_by_key`, which is stable. -/
def byPosition (monitors : List Output) : List Output :=
  monitors.mergeSort fun m m' => decide (m.x ≤ m'.x)

/-- The monitor at the index before or after. -/
def neighbour (direction : Direction) (byPosition : List Output) (focusedIdx : Nat) :
    Option Output :=
  match direction with
  | .next => byPosition[focusedIdx + 1]?
  | .prev => if focusedIdx = 0 then none else byPosition[focusedIdx - 1]?

def bufferWs : Int := 999

/-- The clients in the order of the list. -/
def moveWindowsSilent (workspace : Int) : List Client → Prog SwapOp String Unit
  | [] => return
  | client :: clients => do
    ask (.moveWindowSilent client.address workspace)
    moveWindowsSilent workspace clients

/-- Swap windows between the focused monitor and its neighbour. -/
def swapMonitor (layout : MonitorLayout) (direction : Direction) : Prog SwapOp String Unit := do
  let monitors ← ask .monitors
  if monitors.length < 2 then return
  else
    let focused ← activeMonitor
    let sorted := byPosition monitors
    match sorted.findIdx? fun m => m.id = focused.id with
    | none => Prog.fail "Focused monitor not found in list"
    | some focusedIdx =>
      match neighbour direction sorted focusedIdx with
      | none => return
      | some target =>
        match VirtualWorkspace.fromHyprlandId focused.activeWorkspace with
        | none => return
        | some vws =>
          let wsA := vws.hyprlandId (layout.slotFor focused.id)
          let wsB := vws.hyprlandId (layout.slotFor target.id)
          let clients ← ask .clients
          let clientsA := clients.filter fun c => c.workspace = wsA
          let clientsB := clients.filter fun c => c.workspace = wsB
          moveWindowsSilent bufferWs clientsA
          moveWindowsSilent wsA clientsB
          moveWindowsSilent wsB clientsA

/-! ## A Hyprland whose answers may end -/

/-- The windows, of which each has an address of its own, the monitors, the moves that were
requested, and how many requests are answered before one fails: `none` if none ever does. The one
that fails is carried out where Hyprland reads it and only its answer is lost. -/
structure Session where
  windows : List Client
  distinct : (windows.map Client.address).Nodup
  outputs : List Output
  apart : (outputs.map fun m => m.id).Nodup
  moves : List (String × Int) := []
  answers : Option Nat := none
  carried : Bool := false

namespace Session

def move (s : Session) (window : String) (workspace : Int) : Session where
  windows := s.windows.map (Client.moved window workspace)
  distinct := by
    rw [List.map_map, show Client.address ∘ Client.moved window workspace = Client.address from
      funext fun c => c.moved_address window workspace]
    exact s.distinct
  outputs := s.outputs
  apart := s.apart
  moves := s.moves ++ [(window, workspace)]
  answers := s.answers
  carried := s.carried

/-- One request fewer is answered. -/
def spend (s : Session) : Session := { s with answers := s.answers.map fun n => n - 1 }

/-- At least so many requests are answered. -/
def Answers (s : Session) (n : Nat) : Prop := ∀ k ∈ s.answers, n ≤ k

instance (s : Session) (n : Nat) : Decidable (s.Answers n) :=
  inferInstanceAs (Decidable (∀ k ∈ s.answers, n ≤ k))

/-- What a request that fails leaves, which would lead to `t`. -/
def failed (s t : Session) : Session := if s.carried then t else s

/-- The request is answered and has its effect, or it fails: `exchange` fails before the request
is written as well as while the answer is read. -/
def Reply {α : Type} (s : Session) (a : α) (t : Session) (b : Except String α) (s' : Session) :
    Prop :=
  if s.answers = some 0 then (∃ m, b = .error m) ∧ s' = s.failed t else b = .ok a ∧ s' = t.spend

end Session

def hyprctl : Handler SwapOp Session where
  step e s b s' :=
    match e with
    | .monitors => s.Reply s.outputs s b s'
    | .clients => s.Reply s.windows s b s'
    | .moveWindowSilent window workspace => s.Reply () (s.move window workspace) b s'

section Runs

variable {s s' : Session} {r : Except String Unit}

/-- A request fails and ends the program, or the program goes on with the answer. -/
theorem run_ask {α β : Type} {e : SwapOp (Except String α)} {a : α} {t : Session}
    (he : ∀ b s', hyprctl.step e s b s' ↔ s.Reply a t b s')
    {k : α → Prog SwapOp String β} {o : Except String β} :
    Run hyprctl ((ask e).bind k) s (some o) s' ↔
      if s.answers = some 0 then (∃ m, o = .error m) ∧ s' = s.failed t
      else Run hyprctl (k a) t.spend (some o) s' := by
  show Run hyprctl (.op e fun b => ((Prog.orFail b).bind k)) s (some o) s' ↔ _
  rw [run_op]
  simp only [he, Session.Reply]
  split
  · constructor
    · rintro (⟨h, -⟩ | ⟨b, v, ⟨⟨m, rfl⟩, rfl⟩, hrest⟩)
      · cases h
      · obtain ⟨hv, ho⟩ := run_fail.mp hrest
        exact ⟨⟨m, by simpa using ho⟩, hv⟩
    · rintro ⟨⟨m, rfl⟩, rfl⟩
      exact Or.inr ⟨.error m, s.failed t, ⟨⟨m, rfl⟩, rfl⟩, Run.fail m _⟩
  · constructor
    · rintro (⟨h, -⟩ | ⟨b, v, ⟨rfl, rfl⟩, hrest⟩)
      · cases h
      · exact hrest
    · intro hrest
      exact Or.inr ⟨.ok a, t.spend, ⟨rfl, rfl⟩, hrest⟩

/-! ## Lists of moves -/

/-- The moves one after the other. -/
def requestAll : List (String × Int) → Prog SwapOp String Unit
  | [] => return
  | m :: moves => do
    ask (.moveWindowSilent m.1 m.2)
    requestAll moves

theorem requestAll_append (moves moves' : List (String × Int)) :
    requestAll (moves ++ moves') = (requestAll moves).bind fun _ => requestAll moves' := by
  induction moves with
  | nil => rfl
  | cons m moves ih =>
    show (ask _).bind (fun _ => requestAll (moves ++ moves')) =
      ((ask _).bind fun _ => requestAll moves).bind _
    rw [Prog.bind_assoc, ih]

theorem moveWindowsSilent_eq (workspace : Int) (clients : List Client) :
    moveWindowsSilent workspace clients =
      requestAll (clients.map fun c => (c.address, workspace)) := by
  induction clients with
  | nil => rfl
  | cons c clients ih =>
    show (ask _).bind (fun _ => moveWindowsSilent workspace clients) = (ask _).bind _
    rw [ih]

/-- Those of the moves that are carried out: the ones that are answered, and perhaps the next. -/
def Session.carriedOut (s : Session) (moves : List (String × Int)) : List (String × Int) :=
  match s.answers with
  | none => moves
  | some n => moves.take (n + s.carried.toNat)

def Session.moveAll (s : Session) (moves : List (String × Int)) : Session :=
  moves.foldl (fun s m => (s.move m.1 m.2).spend) s

theorem run_requestAll {moves : List (String × Int)} :
    Run hyprctl (requestAll moves) s (some r) s' ↔
      (if s.Answers moves.length then r = .ok () else ∃ m, r = .error m) ∧
        s' = s.moveAll (s.carriedOut moves) := by
  induction moves generalizing s with
  | nil =>
    have hall : s.Answers 0 := fun k _ => Nat.zero_le k
    have hnone : s.carriedOut [] = [] := by
      unfold Session.carriedOut
      split <;> simp
    rw [List.length_nil, if_pos hall, hnone]
    show Run hyprctl (.pure ()) s (some r) s' ↔ _
    rw [run_pure]
    simp [Session.moveAll, and_comm]
  | cons m moves ih =>
    show Run hyprctl ((ask (.moveWindowSilent m.1 m.2)).bind fun _ => requestAll moves)
      s (some r) s' ↔ _
    rw [run_ask (a := ()) (t := s.move m.1 m.2) fun b s' => Iff.rfl]
    rcases hanswers : s.answers with _ | n
    · have hnext : (s.move m.1 m.2).spend.answers = none := by
        simp [Session.spend, Session.move, hanswers]
      rw [if_neg (by simp), ih]
      simp [Session.Answers, Session.carriedOut, Session.moveAll, hanswers, hnext]
    · cases n with
      | zero =>
        have hspent : (s.move m.1 m.2).spend = s.move m.1 m.2 := by
          simp [Session.spend, Session.move, hanswers]
        rcases hcarried : s.carried
        · simp [Session.Answers, Session.carriedOut, Session.moveAll, Session.failed, hanswers,
            hcarried]
        · simp [Session.Answers, Session.carriedOut, Session.moveAll, Session.failed, hanswers,
            hcarried, hspent]
      | succ n =>
        have hnext : (s.move m.1 m.2).spend.answers = some n := by
          simp [Session.spend, Session.move, hanswers]
        have hcarried : (s.move m.1 m.2).spend.carried = s.carried := rfl
        rw [if_neg (by simp), ih]
        simp [Session.Answers, Session.carriedOut, Session.moveAll, hanswers, hnext, hcarried,
          Nat.succ_add]

end Runs

/-- The workspace that the last of the moves puts the window on. -/
def lastPlace (moves : List (String × Int)) (c : Client) : Client :=
  { c with workspace := (moves.reverse.lookup c.address).getD c.workspace }

theorem moveAll_place (s : Session) (moves : List (String × Int)) :
    (s.moveAll moves).windows = s.windows.map (lastPlace moves) := by
  unfold Session.moveAll
  induction moves generalizing s with
  | nil =>
    have hplace : lastPlace [] = id := rfl
    simp [hplace]
  | cons m moves ih =>
    obtain ⟨window, workspace⟩ := m
    rw [List.foldl_cons, ih]
    simp only [Session.spend, Session.move, List.map_map]
    apply List.map_congr_left
    intro c _
    simp only [Function.comp_apply, lastPlace, Client.moved_address, List.reverse_cons,
      List.lookup_append, List.lookup_cons, List.lookup_nil]
    unfold Client.moved
    by_cases hm : c.address = window
    · rw [if_pos hm, beq_iff_eq.mpr hm]
      cases moves.reverse.lookup c.address <;> rfl
    · rw [if_neg hm, beq_eq_false_iff_ne.mpr hm]
      cases moves.reverse.lookup c.address <;> rfl

/-! ## What a swap is about -/

/-- The second monitor is the next or the previous of the first in the list. -/
def Beside (direction : Direction) (sorted : List Output) (m m' : Output) : Prop :=
  match direction with
  | .next => ∃ i : Nat, sorted[i]? = some m ∧ sorted[i + 1]? = some m'
  | .prev => ∃ i : Nat, sorted[i]? = some m' ∧ sorted[i + 1]? = some m

/-- The focused monitor, which shows the virtual workspace, has the target beside it. -/
structure Swaps (direction : Direction) (monitors : List Output) (focused target : Output)
    (vws : VirtualWorkspace) : Prop where
  first : (monitors.find? fun m => m.focused) = some focused
  beside : Beside direction (byPosition monitors) focused target
  shown : VirtualWorkspace.fromHyprlandId focused.activeWorkspace = some vws

theorem byPosition_perm (monitors : List Output) : (byPosition monitors).Perm monitors :=
  List.mergeSort_perm _ _

theorem Beside.two_le {direction : Direction} {monitors : List Output} {m m' : Output}
    (h : Beside direction (byPosition monitors) m m') : 2 ≤ monitors.length := by
  rw [← (byPosition_perm monitors).length_eq]
  cases direction with
  | next =>
    obtain ⟨i, -, hi⟩ := h
    have hlt := (List.getElem?_eq_some_iff.mp hi).1
    omega
  | prev =>
    obtain ⟨i, -, hi⟩ := h
    have hlt := (List.getElem?_eq_some_iff.mp hi).1
    omega

/-- The index of a monitor, which is told by its id. -/
theorem findIdx?_id {l : List Output} (hl : (l.map fun m => m.id).Nodup) {m : Output}
    (hm : m ∈ l) {i : Nat} :
    (l.findIdx? fun m' => decide (m'.id = m.id)) = some i ↔ l[i]? = some m := by
  rw [List.findIdx?_eq_some_iff_getElem, List.getElem?_eq_some_iff]
  have hids : ∀ j (hj : j < l.length), l[j].id = m.id → l[j] = m := fun j hj h =>
    List.inj_on_of_nodup_map hl (List.getElem_mem hj) hm h
  constructor
  · rintro ⟨hi, hid, -⟩
    exact ⟨hi, hids i hi (by simpa using hid)⟩
  · rintro ⟨hi, rfl⟩
    refine ⟨hi, by simp, ?_⟩
    intro j hji hj
    have heq := hids j (by omega) (by simpa using hj)
    have hnodup : l.Nodup := List.Nodup.of_map _ hl
    have hj := (List.Nodup.getElem_inj_iff hnodup).mp heq
    omega

theorem neighbour_iff {direction : Direction} {l : List Output}
    (hl : (l.map fun m => m.id).Nodup) {m m' : Output} (hm : m ∈ l) :
    (∃ i, (l.findIdx? fun k => decide (k.id = m.id)) = some i ∧ neighbour direction l i = some m') ↔
      Beside direction l m m' := by
  simp only [findIdx?_id hl hm]
  cases direction with
  | next => rfl
  | prev =>
    constructor
    · rintro ⟨i, hi, hneighbour⟩
      unfold neighbour at hneighbour
      by_cases hzero : i = 0
      · simp [hzero] at hneighbour
      · simp only [hzero, if_false] at hneighbour
        refine ⟨i - 1, hneighbour, ?_⟩
        rwa [Nat.sub_add_cancel (by omega)]
    · rintro ⟨i, hi, hnext⟩
      exact ⟨i + 1, hnext, by simpa [neighbour] using hi⟩

theorem sorted_apart (s : Session) : ((byPosition s.outputs).map fun m => m.id).Nodup :=
  ((byPosition_perm s.outputs).map _).nodup_iff.mpr s.apart

theorem find?_mem_sorted {monitors : List Output} {m : Output}
    (h : (monitors.find? fun m => m.focused) = some m) : m ∈ byPosition monitors :=
  (byPosition_perm monitors).mem_iff.mpr (List.mem_of_find?_eq_some h)

/-- Two monitors have at most one swap in a direction. -/
theorem Swaps.unique {direction : Direction} {s : Session} {m m' k k' : Output}
    {v w : VirtualWorkspace} (h : Swaps direction s.outputs m m' v)
    (h' : Swaps direction s.outputs k k' w) : m = k ∧ m' = k' ∧ v = w := by
  have hfocused : m = k := Option.some.inj (h.first.symm.trans h'.first)
  subst hfocused
  have hvws : v = w := Option.some.inj (h.shown.symm.trans h'.shown)
  have hmem := find?_mem_sorted h.first
  obtain ⟨i, hi, htarget⟩ := (neighbour_iff (sorted_apart s) hmem).mpr h.beside
  obtain ⟨j, hj, htarget'⟩ := (neighbour_iff (sorted_apart s) hmem).mpr h'.beside
  obtain rfl := Option.some.inj (hi.symm.trans hj)
  exact ⟨rfl, Option.some.inj (htarget.symm.trans htarget'), hvws⟩

/-! ## The moves of a swap -/

/-- The moves to the buffer, then those of the neighbour's windows, then those from the buffer. -/
def swapMoves (wsA wsB : Int) (windows : List Client) : List (String × Int) :=
  let clientsA := windows.filter fun c => c.workspace = wsA
  let clientsB := windows.filter fun c => c.workspace = wsB
  clientsA.map (fun c => (c.address, bufferWs)) ++
    (clientsB.map (fun c => (c.address, wsA)) ++ clientsA.map fun c => (c.address, wsB))

theorem swapMoves_eq (wsA wsB : Int) (windows : List Client) :
    ((moveWindowsSilent bufferWs (windows.filter fun c => c.workspace = wsA)).bind fun _ =>
      (moveWindowsSilent wsA (windows.filter fun c => c.workspace = wsB)).bind fun _ =>
        moveWindowsSilent wsB (windows.filter fun c => c.workspace = wsA)) =
      requestAll (swapMoves wsA wsB windows) := by
  unfold swapMoves
  simp only [requestAll_append, moveWindowsSilent_eq]

section Runs

variable {layout : MonitorLayout} {direction : Direction} {s s' : Session}
  {r : Except String Unit} {m m' : Output} {v : VirtualWorkspace}

theorem Session.Answers.ne_zero {n : Nat} (h : s.Answers (n + 1)) : s.answers ≠ some 0 :=
  fun hzero => absurd (h 0 hzero) (by omega)

theorem Session.Answers.spend {n : Nat} (h : s.Answers (n + 1)) : s.spend.Answers n := by
  intro k hk
  obtain ⟨j, hj, rfl⟩ := Option.map_eq_some_iff.mp hk
  have hle := h j hj
  omega

/-- With its three queries answered, a swap makes its moves. -/
theorem run_swapMonitor (h : Swaps direction s.outputs m m' v) (hqueries : s.Answers 3) :
    Run hyprctl (swapMonitor layout direction) s (some r) s' ↔
      Run hyprctl (requestAll (swapMoves (v.hyprlandId (layout.slotFor m.id))
        (v.hyprlandId (layout.slotFor m'.id)) s.windows)) s.spend.spend.spend (some r) s' := by
  obtain ⟨i, hi, htarget⟩ :=
    (neighbour_iff (sorted_apart s) (find?_mem_sorted h.first)).mpr h.beside
  have htwo := h.beside.two_le
  unfold swapMonitor activeMonitor
  simp only [Prog.bind_eq]
  rw [run_ask (a := s.outputs) (t := s) fun b s' => Iff.rfl, if_neg hqueries.ne_zero,
    if_neg (by omega), Prog.bind_assoc,
    run_ask (a := s.outputs) (t := s.spend) fun b s' => Iff.rfl, if_neg hqueries.spend.ne_zero]
  rw [h.first]
  simp only [Prog.pure_eq, Prog.bind_pure, hi, htarget, h.shown]
  rw [run_ask (a := s.windows) (t := s.spend.spend) fun b s' => Iff.rfl,
    if_neg hqueries.spend.spend.ne_zero, swapMoves_eq]

theorem Session.spend_of_none (h : s.answers = none) : s.spend = s := by
  cases s
  simp_all [Session.spend]

theorem Session.answers_of_none (h : s.answers = none) (n : Nat) : s.Answers n := by
  intro k hk
  simp [h] at hk

/-- With every request answered, a swap makes all of its moves. -/
theorem run_swapMonitor_all (h : Swaps direction s.outputs m m' v) (hnone : s.answers = none) :
    Run hyprctl (swapMonitor layout direction) s (some r) s' ↔
      r = .ok () ∧ s' = s.moveAll (swapMoves (v.hyprlandId (layout.slotFor m.id))
        (v.hyprlandId (layout.slotFor m'.id)) s.windows) := by
  rw [run_swapMonitor h (Session.answers_of_none hnone 3), Session.spend_of_none hnone,
    Session.spend_of_none hnone, Session.spend_of_none hnone, run_requestAll,
    if_pos (Session.answers_of_none hnone _)]
  simp only [Session.carriedOut, hnone]

/-- A swap that is about no two monitors changes nothing. -/
theorem run_swapMonitor_still (h : ∀ m m' v, ¬ Swaps direction s.outputs m m' v)
    (hnone : s.answers = none) :
    ∃ r, ∀ r' s', Run hyprctl (swapMonitor layout direction) s (some r') s' ↔
      r' = r ∧ s' = s := by
  have hreturn : ∀ r' s', Run hyprctl (Prog.pure () : Prog SwapOp String Unit) s (some r') s' ↔
      r' = .ok () ∧ s' = s := by
    intro r' s'
    rw [run_pure]
    simp [and_comm]
  have hfail : ∀ (e : String) r' s',
      Run hyprctl (Prog.fail e : Prog SwapOp String Unit) s (some r') s' ↔
        r' = .error e ∧ s' = s := by
    intro e r' s'
    rw [run_fail]
    simp [and_comm]
  have hquery : ∀ (k : List Output → Prog SwapOp String Unit) r' s',
      Run hyprctl ((ask .monitors).bind k) s (some r') s' ↔
        Run hyprctl (k s.outputs) s (some r') s' := by
    intro k r' s'
    rw [run_ask (a := s.outputs) (t := s) fun b s' => Iff.rfl, if_neg (by simp [hnone]),
      Session.spend_of_none hnone]
  unfold swapMonitor activeMonitor
  simp only [Prog.bind_eq, Prog.pure_eq, hquery]
  split
  · exact ⟨_, hreturn⟩
  · simp only [Prog.bind_assoc, hquery]
    rcases hfirst : (s.outputs.find? fun m => m.focused) with _ | m
    · simp only [hfirst, Prog.bind_fail]
      exact ⟨_, hfail _⟩
    · simp only [hfirst, Prog.bind_pure]
      rcases hidx : ((byPosition s.outputs).findIdx? fun k => decide (k.id = m.id)) with _ | i
      · simp only [hidx]
        exact ⟨_, hfail _⟩
      · simp only [hidx]
        rcases htarget : neighbour direction (byPosition s.outputs) i with _ | m'
        · exact ⟨_, hreturn⟩
        · simp only
          rcases hshown : VirtualWorkspace.fromHyprlandId m.activeWorkspace with _ | v
          · exact ⟨_, hreturn⟩
          · have hbeside := (neighbour_iff (sorted_apart s) (find?_mem_sorted hfirst)).mp
              ⟨i, hidx, htarget⟩
            exact absurd ⟨hfirst, hbeside, hshown⟩ (h m m' v)

end Runs

/-! ## Where the windows are -/

theorem lookup_constant (l : List Client) (workspace : Int) (address : String) :
    ((l.map fun c => (c.address, workspace)).reverse.lookup address) =
      if address ∈ l.map Client.address then some workspace else none := by
  induction l with
  | nil => rfl
  | cons c l ih =>
    rw [List.map_cons, List.reverse_cons, List.lookup_append, ih]
    simp only [List.lookup_cons, List.lookup_nil, List.map_cons, List.mem_cons]
    by_cases hl : address ∈ l.map Client.address
    · simp [hl]
    · by_cases hc : address = c.address
      · rw [if_neg hl, if_pos (Or.inl hc), beq_iff_eq.mpr hc]
        rfl
      · rw [if_neg hl, if_neg (by simp [hc, hl]), beq_eq_false_iff_ne.mpr hc]
        rfl

/-- Of three lists of moves, the last that moves the window decides. -/
theorem place_thrice (l l' l'' : List Client) (w w' w'' : Int) (c : Client) :
    lastPlace (l.map (fun c => (c.address, w)) ++ (l'.map (fun c => (c.address, w')) ++
      l''.map fun c => (c.address, w''))) c =
    { c with workspace :=
        if c.address ∈ l''.map Client.address then w''
        else if c.address ∈ l'.map Client.address then w'
        else if c.address ∈ l.map Client.address then w
        else c.workspace } := by
  unfold lastPlace
  rw [List.reverse_append, List.reverse_append, List.lookup_append, List.lookup_append,
    lookup_constant, lookup_constant, lookup_constant]
  split_ifs <;> rfl

/-- The windows of a session are told by their addresses. -/
theorem Session.mem_of_address (s : Session) {l : List Client} (hl : l ⊆ s.windows) {c : Client}
    (hc : c ∈ s.windows) : c.address ∈ l.map Client.address ↔ c ∈ l := by
  constructor
  · intro h
    obtain ⟨c', hc', haddress⟩ := List.mem_map.mp h
    rwa [← List.inj_on_of_nodup_map s.distinct (hl hc') hc haddress]
  · exact List.mem_map_of_mem

/-- The window on the other of the two workspaces. -/
def Client.swapped (wsA wsB : Int) (c : Client) : Client :=
  { c with workspace :=
      if c.workspace = wsA then wsB else if c.workspace = wsB then wsA else c.workspace }

theorem Client.swapped_swapped (wsA wsB : Int) (c : Client) :
    (c.swapped wsA wsB).swapped wsB wsA = c := by
  obtain ⟨address, workspace⟩ := c
  simp only [Client.swapped, Client.mk.injEq, true_and]
  split_ifs <;> simp_all

theorem place_swapMoves (s : Session) (wsA wsB : Int) {c : Client} (hc : c ∈ s.windows) :
    lastPlace (swapMoves wsA wsB s.windows) c = c.swapped wsA wsB := by
  unfold swapMoves Client.swapped
  have hsub : ∀ p : Client → Bool, s.windows.filter p ⊆ s.windows :=
    fun p => List.filter_subset_self _
  simp only [place_thrice, s.mem_of_address (hsub _) hc, List.mem_filter, hc, true_and,
    decide_eq_true_eq]
  split_ifs <;> simp_all

/-- The windows of the two workspaces changed places, and the others and the monitors are as
they were. -/
structure Exchanged (wsA wsB : Int) (s s' : Session) : Prop where
  windows : s'.windows = s.windows.map (Client.swapped wsA wsB)
  outputs : s'.outputs = s.outputs

@[simp] theorem moveAll_outputs (s : Session) (moves : List (String × Int)) :
    (s.moveAll moves).outputs = s.outputs := by
  unfold Session.moveAll
  induction moves generalizing s with
  | nil => rfl
  | cons m moves ih =>
    rw [List.foldl_cons, ih]
    rfl

theorem moveAll_answers {s : Session} (h : s.answers = none) (moves : List (String × Int)) :
    (s.moveAll moves).answers = none := by
  unfold Session.moveAll
  induction moves generalizing s with
  | nil => exact h
  | cons m moves ih =>
    rw [List.foldl_cons]
    exact ih (by simp [Session.spend, Session.move, h])

theorem exchanged_moveAll (s : Session) (wsA wsB : Int) :
    Exchanged wsA wsB s (s.moveAll (swapMoves wsA wsB s.windows)) where
  windows := by
    rw [moveAll_place]
    exact List.map_congr_left fun c hc => place_swapMoves s wsA wsB hc
  outputs := moveAll_outputs s _

/-! ## There and back -/

def Direction.opposite : Direction → Direction
  | .next => .prev
  | .prev => .next

def Output.focus (id : Int) (m : Output) : Output := { m with focused := decide (m.id = id) }

/-- The focus on another monitor. -/
def Session.focus (s : Session) (id : Int) : Session where
  windows := s.windows
  distinct := s.distinct
  outputs := s.outputs.map (Output.focus id)
  apart := by
    rw [List.map_map]
    exact s.apart
  moves := s.moves
  answers := s.answers
  carried := s.carried

theorem byPosition_focus (monitors : List Output) (id : Int) :
    byPosition (monitors.map (Output.focus id)) = (byPosition monitors).map (Output.focus id) := by
  unfold byPosition
  rw [List.map_mergeSort]
  intro m _ m' _
  rfl

theorem Beside.opposite {direction : Direction} {l : List Output} {m m' : Output}
    (h : Beside direction l m m') (id : Int) :
    Beside direction.opposite (l.map (Output.focus id)) (m'.focus id) (m.focus id) := by
  cases direction with
  | next =>
    obtain ⟨i, hi, hi'⟩ := h
    exact ⟨i, by rw [List.getElem?_map, hi]; rfl, by rw [List.getElem?_map, hi']; rfl⟩
  | prev =>
    obtain ⟨i, hi, hi'⟩ := h
    exact ⟨i, by rw [List.getElem?_map, hi]; rfl, by rw [List.getElem?_map, hi']; rfl⟩

theorem Beside.mem {direction : Direction} {l : List Output} {m m' : Output}
    (h : Beside direction l m m') : m' ∈ l := by
  cases direction with
  | next =>
    obtain ⟨i, -, hi⟩ := h
    exact List.mem_of_getElem? hi
  | prev =>
    obtain ⟨i, hi, -⟩ := h
    exact List.mem_of_getElem? hi

theorem find?_focus (s : Session) {m : Output} (hm : m ∈ s.outputs) :
    ((s.outputs.map (Output.focus m.id)).find? fun m => m.focused) = some (m.focus m.id) := by
  rw [List.find?_map]
  have hfound : (s.outputs.find? ((fun m : Output => m.focused) ∘ Output.focus m.id)) = some m := by
    rcases h : s.outputs.find? ((fun m : Output => m.focused) ∘ Output.focus m.id) with _ | k
    · have hnone := List.find?_eq_none.mp h m hm
      simp [Output.focus] at hnone
    · have hid : k.id = m.id := by simpa [Output.focus] using List.find?_some h
      rw [List.inj_on_of_nodup_map s.apart (List.mem_of_find?_eq_some h) hm hid]
  rw [hfound]
  rfl

/-- With the focus on the neighbour, the swap back is about the same two monitors and the
virtual workspace that the neighbour shows. -/
theorem Swaps.opposite {direction : Direction} {s : Session} {m m' : Output}
    {v w : VirtualWorkspace} (h : Swaps direction s.outputs m m' v)
    (hshown : VirtualWorkspace.fromHyprlandId m'.activeWorkspace = some w) :
    Swaps direction.opposite (s.focus m'.id).outputs (m'.focus m'.id) (m.focus m'.id) w where
  first := find?_focus s ((byPosition_perm _).mem_iff.mp h.beside.mem)
  beside := by
    show Beside _ (byPosition (s.outputs.map (Output.focus m'.id))) _ _
    rw [byPosition_focus]
    exact h.beside.opposite m'.id
  shown := hshown

/-- A swap of which every request is answered ends, and exchanges the windows of the focused
monitor and its neighbour on the virtual workspace, or there is no such neighbour and nothing is
changed. Swapping back from the neighbour, where it shows the same virtual workspace, puts every
window back. -/
theorem swap_exchanges (layout : MonitorLayout) (direction : Direction) (s : Session)
    (hnone : s.answers = none) :
    (∃ r s', Run hyprctl (swapMonitor layout direction) s (some r) s') ∧
    ∀ r s', Run hyprctl (swapMonitor layout direction) s (some r) s' →
      (s' = s ∧ ∀ m m' v, ¬ Swaps direction s.outputs m m' v) ∨
      ∃ m m' v, Swaps direction s.outputs m m' v ∧ r = .ok () ∧
        Exchanged (v.hyprlandId (layout.slotFor m.id)) (v.hyprlandId (layout.slotFor m'.id)) s s' ∧
        (VirtualWorkspace.fromHyprlandId m'.activeWorkspace = some v → ∀ r' s'',
          Run hyprctl (swapMonitor layout direction.opposite) (s'.focus m'.id) (some r') s'' →
            s''.windows = s.windows) := by
  by_cases h : ∃ m m' v, Swaps direction s.outputs m m' v
  · obtain ⟨m, m', v, hswaps⟩ := h
    simp only [run_swapMonitor_all hswaps hnone]
    refine ⟨⟨_, _, rfl, rfl⟩, ?_⟩
    rintro r s' ⟨rfl, rfl⟩
    have hexchanged := exchanged_moveAll s (v.hyprlandId (layout.slotFor m.id))
      (v.hyprlandId (layout.slotFor m'.id))
    refine Or.inr ⟨m, m', v, hswaps, rfl, hexchanged, ?_⟩
    intro hshown r' s'' hback
    have hswaps' : Swaps direction (s.moveAll (swapMoves (v.hyprlandId (layout.slotFor m.id))
        (v.hyprlandId (layout.slotFor m'.id)) s.windows)).outputs m m' v := by
      rw [moveAll_outputs]
      exact hswaps
    obtain ⟨-, rfl⟩ := (run_swapMonitor_all (hswaps'.opposite hshown)
      (moveAll_answers hnone _)).mp hback
    rw [(exchanged_moveAll _ _ _).windows]
    show ((s.moveAll _).windows).map _ = _
    rw [hexchanged.windows, List.map_map]
    exact (List.map_congr_left fun c _ => Client.swapped_swapped _ _ c).trans (List.map_id _)
  · have hstill : ∀ m m' v, ¬ Swaps direction s.outputs m m' v :=
      fun m m' v hswaps => h ⟨m, m', v, hswaps⟩
    obtain ⟨r, hrun⟩ : ∃ r, ∀ r' s', Run hyprctl (swapMonitor layout direction) s (some r') s' ↔
        r' = r ∧ s' = s := run_swapMonitor_still hstill hnone
    simp only [hrun]
    refine ⟨⟨_, _, rfl, rfl⟩, ?_⟩
    rintro r' s' ⟨-, rfl⟩
    exact Or.inl ⟨rfl, hstill⟩

def samplePanel : Output := ⟨⟨0, "eDP-1", "BOE 0x0BCA", 1, true⟩, 0⟩

/-- A monitor to the right of the panel, which is focused. -/
def sampleRight (shown : Int) : Output := ⟨⟨1, "DP-1", "Dell P2419H 7X2", shown, false⟩, 1920⟩

def sampleSession (windows : List Client) (distinct : (windows.map Client.address).Nodup)
    (shown : Int) (answers : Option Nat) : Session where
  windows := windows
  distinct := distinct
  outputs := [sampleRight shown, samplePanel]
  apart := by simp [sampleRight, samplePanel]
  answers := answers

theorem swaps_sample (shown : Int) :
    Swaps .next [sampleRight shown, samplePanel] samplePanel (sampleRight shown)
      ⟨1, by decide⟩ where
  first := rfl
  beside := ⟨0, by simp [byPosition, List.mergeSort, sampleRight, samplePanel],
    by simp [byPosition, List.mergeSort, sampleRight, samplePanel]⟩
  shown := rfl

/-- The windows of the two monitors change places, and one on the buffer workspace stays. -/
theorem swap_exchanges_sample : ∃ r s', Run hyprctl (swapMonitor {} .next)
    (sampleSession [⟨"0x1", 1⟩, ⟨"0x2", 999⟩, ⟨"0x3", 11⟩] (by decide) 11 none) (some r) s' ∧
      s'.windows = [⟨"0x1", 11⟩, ⟨"0x2", 999⟩, ⟨"0x3", 1⟩] := by
  obtain ⟨⟨r, s', hrun⟩, hall⟩ := swap_exchanges {} .next
    (sampleSession [⟨"0x1", 1⟩, ⟨"0x2", 999⟩, ⟨"0x3", 11⟩] (by decide) 11 none) rfl
  refine ⟨r, s', hrun, ?_⟩
  rcases hall r s' hrun with ⟨-, hnot⟩ | ⟨m, m', v, h, -, hexchanged, -⟩
  · exact absurd (swaps_sample 11) (hnot _ _ _)
  · obtain ⟨rfl, rfl, rfl⟩ := h.unique (swaps_sample 11)
    exact hexchanged.windows

/-- Swapping back from a neighbour that shows another virtual workspace swaps other windows. -/
theorem swap_back_elsewhere : ¬ ∀ (layout : MonitorLayout) (direction : Direction) (s : Session)
    (m m' : Output) (v : VirtualWorkspace), s.answers = none → Swaps direction s.outputs m m' v →
    ∀ r s' r' s'', Run hyprctl (swapMonitor layout direction) s (some r) s' →
      Run hyprctl (swapMonitor layout direction.opposite) (s'.focus m'.id) (some r') s'' →
        s''.windows = s.windows := by
  intro h
  have hswaps := swaps_sample 12
  have hback := Swaps.opposite (w := ⟨2, by decide⟩)
    (s := (sampleSession [⟨"0x1", 1⟩] (by decide) 12 none).moveAll (swapMoves 1 11 [⟨"0x1", 1⟩]))
    (by rw [moveAll_outputs]; exact hswaps) rfl
  have hrestored := h {} .next (sampleSession [⟨"0x1", 1⟩] (by decide) 12 none) _ _ _ rfl hswaps
    _ _ _ _ ((run_swapMonitor_all hswaps rfl).mpr ⟨rfl, rfl⟩)
    ((run_swapMonitor_all hback rfl).mpr ⟨rfl, rfl⟩)
  rw [(exchanged_moveAll _ _ _).windows] at hrestored
  revert hrestored
  decide +kernel

end Foundrix.HyprWorkspaced

import Foundrix.HyprWorkspaced.Swap
import Mathlib.Data.List.Basic

/-!
# A swap that fails

A request of `swap_monitor` fails, and the swap ends there, whether Hyprland carried that request
out or not. A window of the focused monitor is on the buffer workspace from its first move to its
second.

* `place_take`: where a prefix of the moves leaves a window.
* `between_iff`: when no window is between its two moves.
* `fails_safe_iff`: when every window is where it was or where the swap was to put it.
-/

namespace Foundrix.HyprWorkspaced

open Effect

/-! ## A prefix of the moves -/

section Prefix

variable (s : Session) (wsA wsB : Int)

/-- The windows on a workspace, in the order of the list. -/
def Session.on (workspace : Int) : List Client :=
  s.windows.filter fun c => c.workspace = workspace

theorem Session.mem_on {workspace : Int} {c : Client} :
    c ∈ s.on workspace ↔ c ∈ s.windows ∧ c.workspace = workspace := by
  unfold Session.on
  rw [List.mem_filter, decide_eq_true_eq]

theorem Session.on_nodup (workspace : Int) : (s.on workspace).Nodup :=
  (List.Nodup.of_map _ s.distinct).filter _

theorem swapMoves_on : swapMoves wsA wsB s.windows =
    (s.on wsA).map (fun c => (c.address, bufferWs)) ++
      ((s.on wsB).map (fun c => (c.address, wsA)) ++ (s.on wsA).map fun c => (c.address, wsB)) := rfl

theorem swapMoves_length : (swapMoves wsA wsB s.windows).length =
    2 * (s.on wsA).length + (s.on wsB).length := by
  rw [swapMoves_on]
  simp only [List.length_append, List.length_map]
  omega

theorem place_take (n : Nat) {c : Client} (hc : c ∈ s.windows) :
    lastPlace ((swapMoves wsA wsB s.windows).take n) c =
      { c with workspace :=
          if c ∈ (s.on wsA).take (n - (s.on wsA).length - (s.on wsB).length) then wsB
          else if c ∈ (s.on wsB).take (n - (s.on wsA).length) then wsA
          else if c ∈ (s.on wsA).take n then bufferWs
          else c.workspace } := by
  have hsub : ∀ workspace k, (s.on workspace).take k ⊆ s.windows := by
    intro workspace k x hx
    exact (s.mem_on.mp (List.mem_of_mem_take hx)).1
  rw [swapMoves_on]
  simp only [List.take_append, ← List.map_take, List.length_map]
  rw [place_thrice]
  simp only [s.mem_of_address (hsub _ _) hc]

/-- No window of the first workspace is between its move to the buffer and the next. -/
def NoneBetween (n : Nat) : Prop :=
  ∀ c ∈ (s.on wsA).take n, c ∈ (s.on wsA).take (n - (s.on wsA).length - (s.on wsB).length) ∨
    c ∈ (s.on wsB).take (n - (s.on wsA).length)

theorem on_disjoint (h : wsA ≠ wsB) {c : Client} (hA : c ∈ s.on wsA) : c ∉ s.on wsB := by
  intro hB
  exact h ((s.mem_on.mp hA).2.symm.trans (s.mem_on.mp hB).2)

/-- The window at an index is among the first `n` just when the index is below. -/
theorem getElem_mem_take (workspace : Int) (n : Nat) {i : Nat} (hi : i < (s.on workspace).length) :
    (s.on workspace)[i] ∈ (s.on workspace).take n ↔ i < n := by
  rw [List.mem_take_iff_idxOf_lt (List.getElem_mem hi), (s.on_nodup workspace).idxOf_getElem]

/-- It is the first or the last of the windows that is between its moves, if any is. -/
theorem noneBetween_iff (n : Nat) : NoneBetween s wsA wsB n ↔
    n = 0 ∨ (s.on wsA).length = 0 ∨ (wsA = wsB ∧ 2 * (s.on wsA).length ≤ n) ∨
      2 * (s.on wsA).length + (s.on wsB).length ≤ n := by
  constructor
  · intro h
    by_contra hnot
    obtain ⟨hn, hlength, hsame, hall⟩ : n ≠ 0 ∧ (s.on wsA).length ≠ 0 ∧
        ¬ (wsA = wsB ∧ 2 * (s.on wsA).length ≤ n) ∧
        ¬ 2 * (s.on wsA).length + (s.on wsB).length ≤ n := by
      simpa only [not_or] using hnot
    have hi : 0 < (s.on wsA).length := by omega
    have hj : (s.on wsA).length - 1 < (s.on wsA).length := by omega
    have hfirst := h _ ((getElem_mem_take s wsA n hi).mpr (by omega))
    have hlast := fun hle => h _ ((getElem_mem_take s wsA n hj).mpr hle)
    rw [getElem_mem_take] at hfirst hlast
    by_cases hws : wsA = wsB
    · subst hws
      rw [getElem_mem_take] at hfirst hlast
      have hlast := hlast (by omega)
      omega
    · have hnot : ∀ i (hi : i < (s.on wsA).length) k, (s.on wsA)[i] ∉ (s.on wsB).take k :=
        fun i hi k hmem => on_disjoint s wsA wsB hws (List.getElem_mem hi)
          (List.mem_of_mem_take hmem)
      have hfirst := hfirst.resolve_right (hnot _ hi _)
      have hlast := (hlast (by omega)).resolve_right (hnot _ hj _)
      omega
  · rintro (rfl | hlength | ⟨rfl, htwice⟩ | hall) c hc
    · simp at hc
    · rw [List.length_eq_zero_iff] at hlength
      simp [hlength] at hc
    · right
      rw [List.take_of_length_le (by omega)]
      exact List.mem_of_mem_take hc
    · left
      rw [List.take_of_length_le (by omega)]
      exact List.mem_of_mem_take hc

/-- Every window is where it was or on the other of the two workspaces, just when none is
between its moves or the buffer is one of the two. -/
theorem place_take_iff (n : Nat) :
    (∀ c ∈ s.windows,
      (lastPlace ((swapMoves wsA wsB s.windows).take n) c).workspace = c.workspace ∨
      (lastPlace ((swapMoves wsA wsB s.windows).take n) c).workspace =
        (c.swapped wsA wsB).workspace) ↔
    wsA = bufferWs ∨ wsB = bufferWs ∨ NoneBetween s wsA wsB n := by
  constructor
  · intro h
    by_contra hnot
    obtain ⟨hA, hB, hbetween⟩ : wsA ≠ bufferWs ∧ wsB ≠ bufferWs ∧ ¬ NoneBetween s wsA wsB n := by
      simpa only [not_or] using hnot
    unfold NoneBetween at hbetween
    push Not at hbetween
    obtain ⟨c, hc, hnext, hback⟩ := hbetween
    obtain ⟨hmem, hws⟩ := s.mem_on.mp (List.mem_of_mem_take hc)
    have hplace := h c hmem
    simp only [place_take s wsA wsB n hmem, if_neg hnext, if_neg hback, if_pos hc,
      Client.swapped, hws, if_true] at hplace
    rcases hplace with hplace | hplace
    · exact hA hplace.symm
    · exact hB hplace.symm
  · intro h c hc
    rw [place_take s wsA wsB n hc]
    simp only [Client.swapped]
    by_cases hnext : c ∈ (s.on wsA).take (n - (s.on wsA).length - (s.on wsB).length)
    · have hws := (s.mem_on.mp (List.mem_of_mem_take hnext)).2
      right
      rw [if_pos hnext, if_pos hws]
    · rw [if_neg hnext]
      by_cases hback : c ∈ (s.on wsB).take (n - (s.on wsA).length)
      · have hws := (s.mem_on.mp (List.mem_of_mem_take hback)).2
        right
        rw [if_pos hback, if_pos hws]
        split
        · exact (hws.symm.trans ‹_›).symm
        · rfl
      · rw [if_neg hback]
        by_cases hbuffer : c ∈ (s.on wsA).take n
        · have hws := (s.mem_on.mp (List.mem_of_mem_take hbuffer)).2
          rw [if_pos hbuffer, if_pos hws]
          rcases h with h | h | h
          · exact Or.inl (h.symm.trans hws.symm)
          · exact Or.inr h.symm
          · exact absurd (h c hbuffer) (by simp [hnext, hback])
        · rw [if_neg hbuffer]
          exact Or.inl rfl

end Prefix

/-! ## The queries -/

section Runs

variable {layout : MonitorLayout} {direction : Direction} {s s' : Session}
  {r : Except String Unit}

@[simp] theorem Session.failed_self (s : Session) : s.failed s = s := ite_self s

/-- A query that fails leaves everything as it is. -/
theorem run_query_cases {α β : Type} {e : SwapOp (Except String α)} {a : α}
    {k : α → Prog SwapOp String β} {o : Except String β}
    (h : Run hyprctl ((ask e).bind k) s (some o) s')
    (he : ∀ b s', hyprctl.step e s b s' ↔ s.Reply a s b s') :
    s' = s ∨ (s.answers ≠ some 0 ∧ Run hyprctl (k a) s.spend (some o) s') := by
  rw [run_ask he, Session.failed_self] at h
  split at h
  · exact Or.inl h.2
  · exact Or.inr ⟨‹_›, h⟩

@[simp] theorem spend_windows (s : Session) : s.spend.windows = s.windows := rfl

theorem windows_of_pure {α : Type} {a : α} {o : Except String α}
    (h : Run hyprctl (Prog.pure a : Prog SwapOp String α) s (some o) s') :
    s'.windows = s.windows := by
  rw [(run_pure.mp h).1]

theorem windows_of_fail {α : Type} {e : String} {o : Except String α}
    (h : Run hyprctl (Prog.fail e : Prog SwapOp String α) s (some o) s') :
    s'.windows = s.windows := by
  rw [(run_fail.mp h).1]

theorem answers_three (hzero : s.answers ≠ some 0) (hone : s.spend.answers ≠ some 0)
    (htwo : s.spend.spend.answers ≠ some 0) : s.Answers 3 := by
  intro n hn
  have hn0 : n ≠ 0 := fun h => hzero (h ▸ hn)
  have hn1 : n - 1 ≠ 0 := fun h => hone (by simp [Session.spend, Option.mem_def.mp hn, h])
  have hn2 : n - 1 - 1 ≠ 0 := fun h => htwo (by simp [Session.spend, Option.mem_def.mp hn, h])
  omega

/-- A swap that is about no two monitors, or of which a query fails, moves no window. -/
theorem windows_of_queries
    (h : (∀ m m' v, ¬ Swaps direction s.outputs m m' v) ∨ ¬ s.Answers 3)
    (hrun : Run hyprctl (swapMonitor layout direction) s (some r) s') :
    s'.windows = s.windows := by
  unfold swapMonitor activeMonitor at hrun
  simp only [Prog.bind_eq, Prog.pure_eq] at hrun
  rcases run_query_cases (a := s.outputs) hrun fun b s' => Iff.rfl with
    rfl | ⟨hzero, hrun⟩
  · rfl
  split at hrun
  · exact (windows_of_pure hrun).trans rfl
  rw [Prog.bind_assoc] at hrun
  rcases run_query_cases (a := s.outputs) hrun fun b s' => Iff.rfl with
    rfl | ⟨hone, hrun⟩
  · rfl
  rcases hfirst : (s.outputs.find? fun m => m.focused) with _ | m
  · simp only [hfirst, Prog.bind_fail] at hrun
    exact (windows_of_fail hrun).trans rfl
  simp only [hfirst, Prog.bind_pure] at hrun
  rcases hidx : ((byPosition s.outputs).findIdx? fun k => decide (k.id = m.id)) with _ | i
  · simp only [hidx] at hrun
    exact (windows_of_fail hrun).trans rfl
  simp only [hidx] at hrun
  rcases htarget : neighbour direction (byPosition s.outputs) i with _ | m'
  · simp only [htarget] at hrun
    exact (windows_of_pure hrun).trans rfl
  simp only [htarget] at hrun
  rcases hshown : VirtualWorkspace.fromHyprlandId m.activeWorkspace with _ | v
  · simp only [hshown] at hrun
    exact (windows_of_pure hrun).trans rfl
  simp only [hshown] at hrun
  rcases run_query_cases (a := s.windows) hrun fun b s' => Iff.rfl with
    rfl | ⟨htwo, -⟩
  · rfl
  · have hbeside := (neighbour_iff (sorted_apart s) (find?_mem_sorted hfirst)).mp
      ⟨i, hidx, htarget⟩
    rcases h with hnot | hnot
    · exact absurd ⟨hfirst, hbeside, hshown⟩ (hnot m m' v)
    · exact absurd (answers_three hzero hone htwo) hnot

/-! ## When a failure strands no window -/

/-- Every window is on the workspace that it was on or on the one that the swap was to put it
on. -/
def Unstranded (layout : MonitorLayout) (direction : Direction) (s s' : Session) : Prop :=
  ∀ c ∈ s.windows, ∃ c' ∈ s'.windows, c'.address = c.address ∧
    (c'.workspace = c.workspace ∨ ∃ m m' v, Swaps direction s.outputs m m' v ∧
      c'.workspace = (c.swapped (v.hyprlandId (layout.slotFor m.id))
        (v.hyprlandId (layout.slotFor m'.id))).workspace)

/-- A swap that returns an error strands no window. -/
def FailsSafe (layout : MonitorLayout) (direction : Direction) (s : Session) : Prop :=
  ∀ e s', Run hyprctl (swapMonitor layout direction) s (some (.error e)) s' →
    Unstranded layout direction s s'

/-- Of the requests that are carried out, with the one that fails where it is, no more than the
queries, or all of them; or the windows on the first workspace are none, are on the buffer or are
to be put there, or the two workspaces are one and its windows were put back before. -/
def Harmless (wsA wsB : Int) (s : Session) : Prop :=
  ∀ n ∈ s.answers, n + s.carried.toNat ≤ 3 ∨ (s.on wsA).length = 0 ∨ wsA = bufferWs ∨
    wsB = bufferWs ∨ (wsA = wsB ∧ 3 + 2 * (s.on wsA).length ≤ n + s.carried.toNat) ∨
    3 + 2 * (s.on wsA).length + (s.on wsB).length ≤ n + s.carried.toNat

instance (wsA wsB : Int) (s : Session) : Decidable (Harmless wsA wsB s) :=
  inferInstanceAs (Decidable (∀ n ∈ s.answers, _))

theorem unstranded_of_windows (h : s'.windows = s.windows) : Unstranded layout direction s s' :=
  fun c hc => ⟨c, h ▸ hc, rfl, Or.inl rfl⟩

theorem unstranded_map_iff {m m' : Output} {v : VirtualWorkspace}
    (hswaps : Swaps direction s.outputs m m' v) {moves : List (String × Int)}
    (h : s'.windows = s.windows.map (lastPlace moves)) :
    Unstranded layout direction s s' ↔ ∀ c ∈ s.windows,
      (lastPlace moves c).workspace = c.workspace ∨ (lastPlace moves c).workspace =
        (c.swapped (v.hyprlandId (layout.slotFor m.id))
          (v.hyprlandId (layout.slotFor m'.id))).workspace := by
  constructor
  · intro hunstranded c hc
    obtain ⟨c', hc', haddress, hplace⟩ := hunstranded c hc
    rw [h] at hc'
    obtain ⟨x, hx, rfl⟩ := List.mem_map.mp hc'
    obtain rfl := List.inj_on_of_nodup_map s.distinct hx hc haddress
    rcases hplace with hplace | ⟨k, k', w, hswaps', hplace⟩
    · exact Or.inl hplace
    · obtain ⟨rfl, rfl, rfl⟩ := hswaps'.unique hswaps
      exact Or.inr hplace
  · intro hplace c hc
    refine ⟨lastPlace moves c, h ▸ List.mem_map_of_mem hc, rfl, ?_⟩
    rcases hplace c hc with hsame | hswapped
    · exact Or.inl hsame
    · exact Or.inr ⟨m, m', v, hswaps, hswapped⟩

/-- With the queries answered, a swap fails safe if none of its moves fails or a failure leaves
no window between its moves. -/
theorem fails_safe_of_swaps {m m' : Output} {v : VirtualWorkspace}
    (hswaps : Swaps direction s.outputs m m' v) {n : Nat} (hn : s.answers = some n)
    (hthree : 3 ≤ n) :
    FailsSafe layout direction s ↔
      2 * (s.on (v.hyprlandId (layout.slotFor m.id))).length +
          (s.on (v.hyprlandId (layout.slotFor m'.id))).length ≤ n - 3 ∨
        v.hyprlandId (layout.slotFor m.id) = bufferWs ∨
        v.hyprlandId (layout.slotFor m'.id) = bufferWs ∨
        NoneBetween s (v.hyprlandId (layout.slotFor m.id))
          (v.hyprlandId (layout.slotFor m'.id)) (n - 3 + s.carried.toNat) := by
  have hqueries : s.Answers 3 := by
    intro k hk
    obtain rfl := Option.some.inj (hn.symm.trans hk)
    exact hthree
  have hleft : s.spend.spend.spend.answers = some (n - 3) := by
    simp only [Session.spend, hn, Option.map_some]
    rfl
  have hwindows : ∀ moves, (s.spend.spend.spend.moveAll moves).windows =
      s.windows.map (lastPlace moves) := fun moves => moveAll_place _ moves
  unfold FailsSafe
  simp only [run_swapMonitor hswaps hqueries, run_requestAll]
  rw [← swapMoves_length, ← place_take_iff, ← unstranded_map_iff hswaps (hwindows _)]
  have hcarried : ∀ moves, s.spend.spend.spend.carriedOut moves =
      moves.take (n - 3 + s.carried.toNat) := by
    intro moves
    simp only [Session.carriedOut, hleft]
    rfl
  have hanswers : ∀ k, s.spend.spend.spend.Answers k ↔ k ≤ n - 3 := by
    intro k
    simp [Session.Answers, hleft]
  simp only [hcarried, hanswers]
  split
  · simp [*]
  · constructor
    · intro h
      exact Or.inr (h "" _ ⟨⟨"", rfl⟩, rfl⟩)
    · rintro h e s' ⟨-, rfl⟩
      exact h.resolve_left ‹_›

/-- A swap that fails strands no window if and only if the request that fails is harmless. -/
theorem fails_safe_iff (layout : MonitorLayout) (direction : Direction) (s : Session) :
    FailsSafe layout direction s ↔ ∀ m m' v, Swaps direction s.outputs m m' v →
      Harmless (v.hyprlandId (layout.slotFor m.id)) (v.hyprlandId (layout.slotFor m'.id)) s := by
  constructor
  · intro h m m' v hswaps n hn
    have hone : s.carried.toNat ≤ 1 := s.carried.toNat_le
    by_cases hthree : 3 ≤ n
    · have hsafe := (fails_safe_of_swaps hswaps hn hthree).mp h
      rw [noneBetween_iff] at hsafe
      omega
    · omega
  · intro h
    by_cases hstill : (∀ m m' v, ¬ Swaps direction s.outputs m m' v) ∨ ¬ s.Answers 3
    · intro e s' hrun
      exact unstranded_of_windows (windows_of_queries hstill hrun)
    · obtain ⟨hswaps, hqueries⟩ := not_or.mp hstill
      push Not at hswaps hqueries
      obtain ⟨m, m', v, hswaps⟩ := hswaps
      rcases hn : s.answers with _ | n
      · intro e s' hrun
        rw [run_swapMonitor_all hswaps hn] at hrun
        exact absurd hrun.1 (by simp)
      · have hthree := hqueries n hn
        have hharmless := h m m' v hswaps n hn
        rw [fails_safe_of_swaps hswaps hn hthree, noneBetween_iff]
        omega

end Runs

/-- The move from the buffer fails, and the only window stays there. -/
theorem window_stranded : ¬ ∀ layout direction s, FailsSafe layout direction s := by
  intro h
  have hfails : FailsSafe {} .next (sampleSession [⟨"0x1", 1⟩] (by decide) 11 (some 4)) := h _ _ _
  have hsafe := (fails_safe_of_swaps (swaps_sample 11) rfl (by decide)).mp hfails
  rw [noneBetween_iff] at hsafe
  revert hsafe
  decide +kernel

end Foundrix.HyprWorkspaced

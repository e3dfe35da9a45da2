import Foundrix.HyprWorkspaced.Collapse
import Mathlib.Data.List.Basic

/-!
# The window under the cursor

`WorkspaceManager::focus_window_under_cursor` of `packages/hypr-workspaced/src/workspace.rs`.
The cursor has 64-bit coordinates and a window 16-bit ones, and both are compared in 16 bits.

* `focusWindowUnderCursor`: the queries and the request.
* `Pointer`, `pointing`: what Hyprland knows, and the windows that were focused.
* `Contains`: the window's rectangle over the integers.
* `underCursor_iff`: what the comparison in 16 bits tells.
* `focuses_iff`: when the window that is focused is the first that contains the cursor.
-/

namespace Foundrix.HyprWorkspaced

open Effect

/-! ## The program -/

/-- A window with its place: the left and the upper edge, and the width and the height. -/
structure Window extends Client where
  «at» : Int16 × Int16
  size : Int16 × Int16
deriving DecidableEq, Repr

structure CursorPosition where
  x : Int64
  y : Int64
deriving DecidableEq, Repr

inductive FocusOp : Type → Type where
  | cursorPosition : FocusOp (Except String CursorPosition)
  | clients : FocusOp (Except String (List Window))
  | monitors : FocusOp (Except String (List Monitor))
  | focusWindow (window : String) : FocusOp (Except String Unit)

/-- The test of a client. Additions wrap, as in a release build. -/
def underCursor (validWorkspaces : List Int) (cursor : CursorPosition) (c : Window) : Bool :=
  if !validWorkspaces.contains c.workspace then false
  else
    let (wx, wy) := c.at
    let (ww, wh) := c.size
    let cx := cursor.x.toInt16
    let cy := cursor.y.toInt16
    decide (cx ≥ wx) && decide (cx < wx + ww) && decide (cy ≥ wy) && decide (cy < wy + wh)

def focusWindowUnderCursor (layout : MonitorLayout) (vws : VirtualWorkspace) :
    Prog FocusOp String Unit := do
  let cursor ← Prog.orFail (← Prog.perform .cursorPosition)
  let clients ← Prog.orFail (← Prog.perform .clients)
  let monitors ← Prog.orFail (← Prog.perform .monitors)
  let validWorkspaces := monitors.map fun m => vws.hyprlandId (layout.slotFor m.id)
  match clients.find? (underCursor validWorkspaces cursor) with
  | some client => Prog.orFail (← Prog.perform (.focusWindow client.address))
  | none => return

/-! ## What Hyprland knows -/

/-- The cursor, the monitors and the windows, of which each has an address of its own and no
negative width or height, and the windows that were focused. -/
structure Pointer where
  cursor : CursorPosition
  monitors : List Monitor
  windows : List Window
  distinct : (windows.map fun w => w.address).Nodup
  sized : ∀ w ∈ windows, 0 ≤ w.size.1.toInt ∧ 0 ≤ w.size.2.toInt
  focused : List String := []

def Pointer.focus (p : Pointer) (window : String) : Pointer :=
  { p with focused := p.focused ++ [window] }

/-- A request is answered and has its effect, or fails and has none. -/
def Replied {α : Type} (p : Pointer) (a : α) (q : Pointer) (b : Except String α) (p' : Pointer) :
    Prop :=
  (b = .ok a ∧ p' = q) ∨ ((∃ m, b = .error m) ∧ p' = p)

def pointing : Handler FocusOp Pointer where
  step e p b p' :=
    match e with
    | .cursorPosition => Replied p p.cursor p b p'
    | .clients => Replied p p.windows p b p'
    | .monitors => Replied p p.monitors p b p'
    | .focusWindow window => Replied p () (p.focus window) b p'

variable {layout : MonitorLayout} {vws : VirtualWorkspace} {p p' q : Pointer}

/-- A program that ends well had the answer. -/
theorem run_replied {α β : Type} {e : FocusOp (Except String α)} {a : α}
    (he : ∀ b p', pointing.step e p b p' ↔ Replied p a q b p')
    {k : α → Prog FocusOp String β} {o : β} :
    Run pointing (.op e fun b => (Prog.orFail b).bind k) p (some (.ok o)) p' ↔
      Run pointing (k a) q (some (.ok o)) p' := by
  rw [run_op]
  constructor
  · rintro (⟨h, -⟩ | ⟨b, v, hstep, hrest⟩)
    · cases h
    · rcases (he b v).mp hstep with ⟨rfl, rfl⟩ | ⟨⟨m, rfl⟩, rfl⟩
      · exact hrest
      · exact absurd (run_fail.mp hrest).2 (by simp)
  · intro hrest
    exact Or.inr ⟨.ok a, q, (he _ _).mpr (Or.inl ⟨rfl, rfl⟩), hrest⟩

/-- The workspaces that show the virtual workspace on an attached monitor. -/
def Pointer.shownWorkspaces (p : Pointer) (layout : MonitorLayout) (vws : VirtualWorkspace) :
    List Int :=
  p.monitors.map fun m => vws.hyprlandId (layout.slotFor m.id)

/-- A run that ends well focuses the first window that passes the test. -/
theorem run_focus : Run pointing (focusWindowUnderCursor layout vws) p (some (.ok ())) p' ↔
    p' = match p.windows.find? (underCursor (p.shownWorkspaces layout vws) p.cursor) with
      | some w => p.focus w.address
      | none => p := by
  unfold focusWindowUnderCursor
  simp only [Prog.bind_eq, Prog.perform, Prog.bind_op, Prog.bind_pure, Prog.pure_eq]
  rw [run_replied (a := p.cursor) (q := p) fun b p' => Iff.rfl,
    run_replied (a := p.windows) (q := p) fun b p' => Iff.rfl,
    run_replied (a := p.monitors) (q := p) fun b p' => Iff.rfl]
  simp only [← Pointer.shownWorkspaces.eq_def]
  rcases p.windows.find? (underCursor (p.shownWorkspaces layout vws) p.cursor) with _ | w
  · simp only
    rw [run_pure]
    simp
  · simp only
    have hlast : (fun b : Except String Unit => (Prog.orFail b : Prog FocusOp String Unit)) =
        fun b => (Prog.orFail b).bind .pure := funext fun b => (Prog.bind_pure_right _).symm
    rw [hlast, run_replied (a := ()) (q := p.focus w.address) fun b p' => Iff.rfl, run_pure]
    simp

/-! ## Rectangles -/

/-- The window's rectangle, over the integers. -/
def Contains (w : Window) (x y : Int) : Prop :=
  (w.at.1.toInt ≤ x ∧ x < w.at.1.toInt + w.size.1.toInt) ∧
    w.at.2.toInt ≤ y ∧ y < w.at.2.toInt + w.size.2.toInt

instance (w : Window) (x y : Int) : Decidable (Contains w x y) :=
  inferInstanceAs (Decidable (_ ∧ _))

/-- The right and the lower edge have 16-bit coordinates. -/
def Window.EdgesFit (w : Window) : Prop :=
  w.at.1.toInt + w.size.1.toInt ≤ 32767 ∧ w.at.2.toInt + w.size.2.toInt ≤ 32767

/-- The cursor has 16-bit coordinates. -/
def CursorPosition.Fits (c : CursorPosition) : Prop :=
  (-32768 ≤ c.x.toInt ∧ c.x.toInt ≤ 32767) ∧ -32768 ≤ c.y.toInt ∧ c.y.toInt ≤ 32767

instance (w : Window) : Decidable w.EdgesFit := inferInstanceAs (Decidable (_ ∧ _))

instance (c : CursorPosition) : Decidable c.Fits := inferInstanceAs (Decidable (_ ∧ _))

/-- One coordinate of the test: where the far edge wraps, it is before the near one. -/
theorem between_iff {w s c : Int16} (hs : 0 ≤ s.toInt) : (c ≥ w ∧ c < w + s) ↔
    (w.toInt ≤ c.toInt ∧ c.toInt < w.toInt + s.toInt) ∧ w.toInt + s.toInt ≤ 32767 := by
  have hw := w.le_toInt
  have hw' := w.toInt_lt
  have hs' := s.toInt_lt
  have hc' := c.toInt_lt
  rw [ge_iff_le, Int16.le_iff_toInt_le, Int16.lt_iff_toInt_lt, Int16.toInt_add,
    Int.bmod_def]
  omega

theorem toInt16_of_fits {x : Int64} (h : -32768 ≤ x.toInt ∧ x.toInt ≤ 32767) :
    x.toInt16.toInt = x.toInt := by
  rw [Int64.toInt_toInt16, Int.bmod_def]
  omega

/-- The test tells the narrowed cursor to be in the rectangle, where that does not wrap. -/
theorem underCursor_iff {valid : List Int} {c : CursorPosition} {w : Window}
    (hw : 0 ≤ w.size.1.toInt ∧ 0 ≤ w.size.2.toInt) :
    underCursor valid c w = true ↔ w.workspace ∈ valid ∧
      Contains w c.x.toInt16.toInt c.y.toInt16.toInt ∧ w.EdgesFit := by
  have htest : underCursor valid c w = true ↔ w.workspace ∈ valid ∧
      (c.x.toInt16 ≥ w.at.1 ∧ c.x.toInt16 < w.at.1 + w.size.1) ∧
      (c.y.toInt16 ≥ w.at.2 ∧ c.y.toInt16 < w.at.2 + w.size.2) := by
    unfold underCursor
    by_cases hvalid : w.workspace ∈ valid
    · simp [hvalid, and_assoc]
    · simp [hvalid]
  rw [htest, between_iff hw.1, between_iff hw.2]
  unfold Contains Window.EdgesFit
  tauto

/-! ## The window that is focused -/

/-- The first window on one of the workspaces that contains the cursor. -/
def Pointer.target (p : Pointer) (layout : MonitorLayout) (vws : VirtualWorkspace) :
    Option Window :=
  p.windows.find? fun w => w.workspace ∈ p.shownWorkspaces layout vws ∧
    Contains w p.cursor.x.toInt p.cursor.y.toInt

/-- There is a run that ends well, and one that does focuses the first window that contains the
cursor, and none where there is no such window. -/
def FocusesTarget (layout : MonitorLayout) (vws : VirtualWorkspace) (p : Pointer) : Prop :=
  (∃ p', Run pointing (focusWindowUnderCursor layout vws) p (some (.ok ())) p') ∧
    ∀ p', Run pointing (focusWindowUnderCursor layout vws) p (some (.ok ())) p' →
      p'.focused = p.focused ++ (p.target layout vws).toList.map fun w => w.address

/-- It is the target that passes the test first. -/
theorem focusesTarget_iff_find? : FocusesTarget layout vws p ↔
    p.windows.find? (underCursor (p.shownWorkspaces layout vws) p.cursor) =
      p.target layout vws := by
  unfold FocusesTarget
  simp only [run_focus, forall_eq, exists_eq, true_and]
  have hinj : ∀ {w w' : Window}, w ∈ p.windows → w' ∈ p.windows → w.address = w'.address →
      w = w' := fun hw hw' h => List.inj_on_of_nodup_map p.distinct hw hw' h
  rcases hpick : p.windows.find? (underCursor (p.shownWorkspaces layout vws) p.cursor) with _ | w
  · rcases p.target layout vws with _ | w'
    · simp
    · simp
  · rcases htarget : p.target layout vws with _ | w'
    · simp [Pointer.focus]
    · have hw := List.mem_of_find?_eq_some hpick
      have hw' := List.mem_of_find?_eq_some htarget
      simp only [Pointer.focus, Option.toList_some, List.map_cons, List.map_nil,
        List.append_cancel_left_eq, List.cons.injEq, and_true, Option.some.injEq]
      constructor
      · exact hinj hw hw'
      · rintro rfl
        rfl

/-- What a stronger test finds first where the first of the weaker one passes it. -/
theorem find?_of_imp {α : Type} {l : List α} {f g : α → Bool} (h : ∀ a ∈ l, g a = true → f a = true)
    {a : α} (hf : l.find? f = some a) (hg : g a = true) : l.find? g = some a := by
  rw [List.find?_eq_some_iff_append] at hf ⊢
  obtain ⟨-, before, after, rfl, hbefore⟩ := hf
  refine ⟨hg, before, after, rfl, ?_⟩
  intro b hb
  have hnot := hbefore b hb
  by_contra hgb
  have hgb : g b = true := by simpa using hgb
  have hfb := h b (by simp [hb]) hgb
  simp [hfb] at hnot

/-- The window under the cursor is focused if and only if the right and the lower edge of the
first window that contains the cursor have 16-bit coordinates and, where the cursor has none, no
window with such edges contains it once it is narrowed. -/
theorem focuses_iff (layout : MonitorLayout) (vws : VirtualWorkspace) (p : Pointer) :
    FocusesTarget layout vws p ↔
      (∀ w, p.target layout vws = some w → w.EdgesFit) ∧
      (p.cursor.Fits ∨ ∀ w ∈ p.windows, w.workspace ∈ p.shownWorkspaces layout vws →
        w.EdgesFit → ¬ Contains w p.cursor.x.toInt16.toInt p.cursor.y.toInt16.toInt) := by
  rw [focusesTarget_iff_find?]
  have hfits : ∀ w, p.target layout vws = some w → w.EdgesFit → p.cursor.Fits := by
    intro w hw hedges
    obtain ⟨-, hcontains⟩ : w.workspace ∈ p.shownWorkspaces layout vws ∧
        Contains w p.cursor.x.toInt p.cursor.y.toInt := by simpa using List.find?_some hw
    unfold Contains at hcontains
    have hx := w.at.1.le_toInt
    have hy := w.at.2.le_toInt
    unfold Window.EdgesFit at hedges
    unfold CursorPosition.Fits
    omega
  constructor
  · intro h
    have hedges : ∀ w, p.target layout vws = some w → w.EdgesFit := by
      intro w hw
      have hmem := List.mem_of_find?_eq_some hw
      exact ((underCursor_iff (p.sized w hmem)).mp (List.find?_some (h.trans hw))).2.2
    refine ⟨hedges, ?_⟩
    rcases htarget : p.target layout vws with _ | w
    · right
      intro w hmem hvalid hfit hcontains
      exact List.find?_eq_none.mp (h.trans htarget) w hmem
        ((underCursor_iff (p.sized w hmem)).mpr ⟨hvalid, hcontains, hfit⟩)
    · exact Or.inl (hfits w htarget (hedges w htarget))
  · rintro ⟨hedges, hcursor⟩
    by_cases hfit : p.cursor.Fits
    · have hweaker : ∀ w ∈ p.windows,
          underCursor (p.shownWorkspaces layout vws) p.cursor w = true ↔
            (w.workspace ∈ p.shownWorkspaces layout vws ∧
              Contains w p.cursor.x.toInt p.cursor.y.toInt) ∧ w.EdgesFit := by
        intro w hw
        rw [underCursor_iff (p.sized w hw), toInt16_of_fits hfit.1, toInt16_of_fits hfit.2,
          and_assoc]
      rcases htarget : p.target layout vws with _ | w
      · rw [List.find?_eq_none]
        intro w hw htest
        exact List.find?_eq_none.mp htarget w hw (by simpa using ((hweaker w hw).mp htest).1)
      · have hmem := List.mem_of_find?_eq_some htarget
        refine find?_of_imp ?_ htarget ?_
        · intro w hw htest
          simpa using ((hweaker w hw).mp htest).1
        · exact (hweaker w hmem).mpr ⟨by simpa using List.find?_some htarget, hedges w htarget⟩
    · have hnone : p.target layout vws = none := by
        rcases htarget : p.target layout vws with _ | w
        · rfl
        · exact absurd (hfits w htarget (hedges w htarget)) hfit
      rw [hnone, List.find?_eq_none]
      intro w hw htest
      obtain ⟨hvalid, hcontains, hedge⟩ := (underCursor_iff (p.sized w hw)).mp htest
      exact hcursor.resolve_left hfit w hw hvalid hedge hcontains

/-- A window that reaches beyond the 16-bit coordinates, with the cursor in it. -/
def farWindow : Pointer where
  cursor := ⟨32100, 10⟩
  monitors := [⟨0, "DP-1", "Dell P2419H 7X2", 1, true⟩]
  windows := [⟨⟨"0x1", 1⟩, (32000, 0), (1920, 1080)⟩]
  distinct := by decide
  sized := by decide

/-- The window under the cursor is not focused. -/
theorem far_window_missed : ¬ ∀ layout vws p, FocusesTarget layout vws p := by
  intro h
  have hfocuses := focusesTarget_iff_find?.mp (h {} ⟨1, by decide⟩ farWindow)
  revert hfocuses
  decide +kernel

end Foundrix.HyprWorkspaced

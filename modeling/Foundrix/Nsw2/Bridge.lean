import Mathlib.Data.List.Nodup

/-!
# The virtual gamepad

`emit_state` and the part of `main_loop` that receives reports, of
`packages/nsw2-service/src/bridge.rs`, and the key map of `report.rs`. Only what differs from the
report before is emitted, and an emit that fails is logged and forgotten.

* `changes`, `emitState`: the events of a report.
* `afterEvents`: the device as the emitted events leave it.
* `Bridge.receive`: what a report does to the remembered report and to the device.
* `shows_reports_iff`: when the device shows every report that was emitted well.
-/

namespace Foundrix.Nsw2

/-! ## Reports -/

/-- The keys of the key map. -/
inductive KeyCode where
  | btnEast | btnSouth | btnWest | btnNorth | btnTr | btnTr2 | btnStart
  | btnDpadDown | btnDpadRight | btnDpadLeft | btnDpadUp | btnTl | btnTl2
  | btnMode | btnC | btnZ
deriving DecidableEq, Repr

inductive AbsoluteAxisCode where
  | absX | absY | absRx | absRy | absZ | absRz
deriving DecidableEq, Repr

/-- A decoded report. -/
structure ControllerState where
  buttons : Vector UInt8 3 := Vector.replicate 3 0
  stickL : Int16 × Int16 := (0, 0)
  stickR : Int16 × Int16 := (0, 0)
  triggerL : UInt8 := 0
  triggerR : UInt8 := 0
deriving DecidableEq, Repr

/-- The byte, the mask and the key of each button. -/
def keyMap : List (Fin 3 × UInt8 × KeyCode) :=
  [(0, 0x01, .btnEast), (0, 0x02, .btnSouth), (0, 0x04, .btnWest), (0, 0x08, .btnNorth),
   (0, 0x10, .btnTr), (0, 0x20, .btnTr2), (0, 0x40, .btnStart),
   (1, 0x01, .btnDpadDown), (1, 0x02, .btnDpadRight), (1, 0x04, .btnDpadLeft),
   (1, 0x08, .btnDpadUp), (1, 0x10, .btnTl), (1, 0x20, .btnTl2),
   (2, 0x01, .btnMode), (2, 0x02, .btnC), (2, 0x10, .btnZ)]

/-- What an event is about. -/
inductive Control where
  | key (code : KeyCode)
  | axis (code : AbsoluteAxisCode)
deriving DecidableEq, Repr

structure InputEvent where
  control : Control
  value : Int
deriving DecidableEq, Repr

/-- Whether the bits of the mask are set, as the value of a key. -/
def ControllerState.bit (state : ControllerState) (byte : Fin 3) (mask : UInt8) : Int :=
  if state.buttons[byte] &&& mask ≠ 0 then 1 else 0

/-- An event where the value is not the one before. -/
def changed (control : Control) (now prev : Int) : List InputEvent :=
  if now ≠ prev then [⟨control, now⟩] else []

/-- The events of a report. -/
def changes (state last : ControllerState) : List InputEvent :=
  (keyMap.flatMap fun (byte, mask, key) =>
    changed (.key key) (state.bit byte mask) (last.bit byte mask)) ++
  changed (.axis .absX) state.stickL.1.toInt last.stickL.1.toInt ++
  changed (.axis .absY) state.stickL.2.toInt last.stickL.2.toInt ++
  changed (.axis .absRx) state.stickR.1.toInt last.stickR.1.toInt ++
  changed (.axis .absRy) state.stickR.2.toInt last.stickR.2.toInt ++
  changed (.axis .absZ) state.triggerL.toNat last.triggerL.toNat ++
  changed (.axis .absRz) state.triggerR.toNat last.triggerR.toNat

/-! ## The device -/

/-- The value of each control. -/
abbrev Device := Control → Int

/-- Every key released and every axis at zero. -/
def Device.initial : Device := fun _ => 0

/-- Each event sets its control. -/
def afterEvents (device : Device) (events : List InputEvent) : Device :=
  events.foldl (fun d e => Function.update d e.control e.value) device

/-- What the report tells of each control. -/
def ControllerState.projection (state : ControllerState) : Device
  | .key code =>
    match keyMap.find? fun (_, _, key) => key = code with
    | some (byte, mask, _) => state.bit byte mask
    | none => 0
  | .axis .absX => state.stickL.1.toInt
  | .axis .absY => state.stickL.2.toInt
  | .axis .absRx => state.stickR.1.toInt
  | .axis .absRy => state.stickR.2.toInt
  | .axis .absZ => state.triggerL.toNat
  | .axis .absRz => state.triggerR.toNat

/-- `emit_state`, with the device after it. All events are emitted if the emit is accepted, and
none otherwise. Without events there is no emit. -/
def emitState (device : Device) (state last : ControllerState) (accepted : Bool) :
    Except String Unit × Device :=
  let events := changes state last
  if events.isEmpty then (.ok (), device)
  else if accepted then (.ok (), afterEvents device events)
  else (.error "emit uinput events", device)

/-- The remembered report and the device. -/
structure Bridge where
  last : ControllerState := {}
  device : Device := Device.initial

/-- A report is received: an error is logged, and the report is remembered. -/
def Bridge.receive (b : Bridge) (state : ControllerState) (accepted : Bool) :
    Except String Unit × Bridge :=
  let (result, device) := emitState b.device state b.last accepted
  (result, ⟨state, device⟩)

/-! ## What the events leave -/

theorem afterEvents_append (device : Device) (events events' : List InputEvent) :
    afterEvents device (events ++ events') = afterEvents (afterEvents device events) events' :=
  List.foldl_append

theorem afterEvents_changed (device : Device) (control : Control) (now prev : Int) (c : Control) :
    afterEvents device (changed control now prev) c =
      if c = control ∧ now ≠ prev then now else device c := by
  unfold changed
  by_cases hchanged : now ≠ prev
  · rw [if_pos hchanged]
    show Function.update device control now c = _
    by_cases hc : c = control
    · rw [if_pos ⟨hc, hchanged⟩, hc, Function.update_self]
    · rw [if_neg fun h => hc h.1, Function.update_of_ne hc]
  · rw [if_neg hchanged, if_neg fun h => hchanged h.2]
    rfl

/-- The control and the two values of each comparison. -/
def rows (state last : ControllerState) : List (Control × Int × Int) :=
  (keyMap.map fun (byte, mask, key) => (.key key, state.bit byte mask, last.bit byte mask)) ++
  [(.axis .absX, state.stickL.1.toInt, last.stickL.1.toInt),
   (.axis .absY, state.stickL.2.toInt, last.stickL.2.toInt),
   (.axis .absRx, state.stickR.1.toInt, last.stickR.1.toInt),
   (.axis .absRy, state.stickR.2.toInt, last.stickR.2.toInt),
   (.axis .absZ, state.triggerL.toNat, last.triggerL.toNat),
   (.axis .absRz, state.triggerR.toNat, last.triggerR.toNat)]

theorem changes_eq (state last : ControllerState) :
    changes state last = (rows state last).flatMap fun r => changed r.1 r.2.1 r.2.2 := by
  unfold changes rows
  simp [List.flatMap_append, List.flatMap_map, List.append_assoc]

/-- Each control is compared once. -/
theorem rows_nodup (state last : ControllerState) :
    ((rows state last).map fun r => r.1).Nodup := by
  have hcontrols : (rows state last).map (fun r => r.1) = (rows {} {}).map fun r => r.1 := by
    simp [rows, keyMap]
  rw [hcontrols]
  decide +kernel

/-- Every control is compared. -/
theorem mem_rows (state last : ControllerState) (c : Control) :
    (c, state.projection c, last.projection c) ∈ rows state last := by
  rcases c with code | code
  · apply List.mem_append_left
    cases code <;> simp [keyMap, ControllerState.projection]
  · apply List.mem_append_right
    cases code <;> simp [ControllerState.projection]

theorem afterEvents_of_notMem {rows : List (Control × Int × Int)} {c : Control}
    (hc : c ∉ rows.map fun r => r.1) (device : Device) :
    afterEvents device (rows.flatMap fun r => changed r.1 r.2.1 r.2.2) c = device c := by
  induction rows generalizing device with
  | nil => rfl
  | cons r rows ih =>
    obtain ⟨hne, hrows⟩ := not_or.mp (mt List.mem_cons.mpr hc)
    rw [List.flatMap_cons, afterEvents_append, ih hrows, afterEvents_changed,
      if_neg fun h => hne h.1]

/-- A control is at its new value where that is not the one before, and as it was otherwise. -/
theorem afterEvents_rows {rows : List (Control × Int × Int)} (hrows : (rows.map fun r => r.1).Nodup)
    {c : Control} {now prev : Int} (hc : (c, now, prev) ∈ rows) (device : Device) :
    afterEvents device (rows.flatMap fun r => changed r.1 r.2.1 r.2.2) c =
      if now ≠ prev then now else device c := by
  induction rows generalizing device with
  | nil => cases hc
  | cons r rows ih =>
    rw [List.map_cons, List.nodup_cons] at hrows
    rw [List.flatMap_cons, afterEvents_append]
    rcases List.mem_cons.mp hc with rfl | hmem
    · rw [afterEvents_of_notMem hrows.1, afterEvents_changed]
      simp
    · have hne : c ≠ r.1 := by
        rintro rfl
        exact hrows.1 (List.mem_map.mpr ⟨_, hmem, rfl⟩)
      have hkept : afterEvents device (changed r.1 r.2.1 r.2.2) c = device c := by
        rw [afterEvents_changed, if_neg fun h => hne h.1]
      rw [ih hrows.2 hmem, hkept]

theorem afterEvents_changes (device : Device) (state last : ControllerState) (c : Control) :
    afterEvents device (changes state last) c =
      if state.projection c ≠ last.projection c then state.projection c else device c := by
  rw [changes_eq, afterEvents_rows (rows_nodup state last) (mem_rows state last c)]

/-- No event is due just when the reports tell the same of every control. -/
theorem changes_isEmpty_iff (state last : ControllerState) :
    (changes state last).isEmpty = true ↔ ∀ c, state.projection c = last.projection c := by
  rw [List.isEmpty_iff, changes_eq, List.flatMap_eq_nil_iff]
  have hempty : ∀ c now prev, changed c now prev = [] ↔ now = prev := by
    intro c now prev
    unfold changed
    split
    · simp [*]
    · simp [not_not.mp ‹_›]
  constructor
  · intro h c
    exact (hempty _ _ _).mp (h _ (mem_rows state last c))
  · intro h r hr
    have hrow := List.inj_on_of_nodup_map (rows_nodup state last) hr (mem_rows state last r.1) rfl
    rw [hempty, hrow]
    exact h r.1

/-! ## When the device shows the last report -/

/-- Whether the events of a report were emitted, or none were due. -/
def Emits (state last : ControllerState) (accepted : Bool) : Prop :=
  accepted = true ∨ ∀ c, state.projection c = last.projection c

/-- `emit_state` returns `Ok` just then. -/
theorem emitState_ok_iff (device : Device) (state last : ControllerState) (accepted : Bool) :
    (emitState device state last accepted).1 = .ok () ↔ Emits state last accepted := by
  unfold emitState Emits
  rw [← changes_isEmpty_iff]
  by_cases hempty : (changes state last).isEmpty = true
  · simp [hempty]
  · cases accepted <;> simp [hempty]

theorem emitState_device {device : Device} {state last : ControllerState} {accepted : Bool}
    (h : Emits state last accepted) (c : Control) :
    (emitState device state last accepted).2 c =
      if state.projection c ≠ last.projection c then state.projection c else device c := by
  unfold emitState
  by_cases hempty : (changes state last).isEmpty = true
  · have hsame := (changes_isEmpty_iff state last).mp hempty c
    rw [if_pos hempty, if_neg (not_not.mpr hsame)]
  · have haccepted := h.resolve_right (mt (changes_isEmpty_iff state last).mpr hempty)
    rw [if_neg hempty, if_pos haccepted]
    exact afterEvents_changes device state last c

theorem emitState_device_of_not {device : Device} {state last : ControllerState} {accepted : Bool}
    (h : ¬ Emits state last accepted) : (emitState device state last accepted).2 = device := by
  unfold emitState
  obtain ⟨haccepted, hchanged⟩ := not_or.mp h
  rw [if_neg (mt (changes_isEmpty_iff state last).mp hchanged), if_neg haccepted]

/-- After each of the reports for which `emit_state` returns `Ok`, the device shows it. -/
def ShowsReports : Bridge → List (ControllerState × Bool) → Prop
  | _, [] => True
  | b, (state, accepted) :: reports =>
    ((b.receive state accepted).1 = .ok () →
      (b.receive state accepted).2.device = state.projection) ∧
    ShowsReports (b.receive state accepted).2 reports

/-- Where the events of a report are emitted, every control that is as in the report before is
also as in the last report that was emitted: what failed in between was taken back, or changed
once more. -/
def Caught (shown last : ControllerState) : List (ControllerState × Bool) → Prop
  | [] => True
  | (state, accepted) :: reports =>
    (Emits state last accepted → (∀ c, state.projection c = last.projection c →
      state.projection c = shown.projection c) ∧ Caught state state reports) ∧
    (¬ Emits state last accepted → Caught shown state reports)

/-- One report: the device is right if it showed the last emitted report and nothing was lost
since. -/
theorem device_eq_iff {device : Device} {state last shown : ControllerState} {accepted : Bool}
    (hdevice : device = shown.projection) (h : Emits state last accepted) :
    (emitState device state last accepted).2 = state.projection ↔
      ∀ c, state.projection c = last.projection c → state.projection c = shown.projection c := by
  rw [funext_iff]
  apply forall_congr'
  intro c
  rw [emitState_device h, hdevice]
  by_cases hsame : state.projection c = last.projection c
  · simp [hsame, eq_comm]
  · simp [hsame]

theorem shows_of_shown (reports : List (ControllerState × Bool)) {b : Bridge}
    {shown : ControllerState} (hdevice : b.device = shown.projection) :
    ShowsReports b reports ↔ Caught shown b.last reports := by
  induction reports generalizing b shown with
  | nil => exact Iff.rfl
  | cons report reports ih =>
    obtain ⟨state, accepted⟩ := report
    have hok : (b.receive state accepted).1 = .ok () ↔ Emits state b.last accepted :=
      emitState_ok_iff b.device state b.last accepted
    have hlast : (b.receive state accepted).2.last = state := rfl
    unfold ShowsReports Caught
    rw [hok]
    by_cases hemits : Emits state b.last accepted
    · have hshows : (b.receive state accepted).2.device = state.projection ↔ _ :=
        device_eq_iff hdevice hemits
      simp only [hemits, true_imp_iff, not_true_eq_false, false_imp_iff, and_true, ← hshows]
      constructor
      · rintro ⟨hnow, hrest⟩
        exact ⟨hnow, (ih hnow).mp hrest⟩
      · rintro ⟨hnow, hrest⟩
        exact ⟨hnow, (ih hnow).mpr hrest⟩
    · have hkept : (b.receive state accepted).2.device = shown.projection :=
        (emitState_device_of_not hemits).trans hdevice
      simp only [hemits, false_imp_iff, true_and, not_false_eq_true, true_imp_iff]
      exact ih hkept

theorem projection_initial : Device.initial = ControllerState.projection {} := by
  funext c
  rcases c with code | code
  · cases code <;> decide
  · cases code <;> decide

/-- The device shows every report for which `emit_state` returns `Ok` if and only if whatever
a failed emit lost is taken back or changed once more until then. -/
theorem shows_reports_iff (reports : List (ControllerState × Bool)) :
    ShowsReports {} reports ↔ Caught {} {} reports :=
  shows_of_shown reports projection_initial

/-- The button A is held. -/
def heldA : ControllerState := { buttons := #v[0x02, 0, 0] }

/-- The emit that presses the button fails, and the button is not pressed while it is held. -/
theorem button_lost : ¬ ∀ reports, ShowsReports {} reports := by
  intro h
  have hheld := (h [(heldA, false), (heldA, true)]).2.1 (by decide +kernel)
  have hkey := congrFun hheld (.key .btnSouth)
  revert hkey
  decide +kernel

end Foundrix.Nsw2

import Mathlib.Algebra.Ring.Nat
import Mathlib.Data.List.Induction
import Foundrix.Machine.Trace
import Foundrix.Nsw2.Bridge

/-!
# From the bytes to the gamepad

`ControllerState::parse` of `packages/nsw2-service/src/report.rs`, and the way of a report from the
controller to the virtual gamepad: a report that is too short is dropped, the others are received.
The kernel filters small changes of an axis out, by the fuzz that `build_virtual_device` declares
for it; how it does so is a parameter.

* `ControllerState.parse`: the decoding of a report.
* `rawX`, `rawY`, `Shows`: the raw values of a stick, and what a report is to look like.
* `parse_shows`, `shows_inj`: the decoding brings it about, and loses nothing.
* `absInfo`, `told`, `shown`: the declared axes, what was last emitted, and what the kernel shows.
* `reports_shown`: the events and the gamepad after any reports.
-/

namespace Foundrix.Nsw2

open Machine

/-! ## The decoding -/

def unpack12bit (t₀ t₁ t₂ : UInt8) : UInt16 × UInt16 :=
  (t₀.toUInt16 ||| ((t₁.toUInt16 &&& 0x0F) <<< 8), (t₁.toUInt16 >>> 4) ||| (t₂.toUInt16 <<< 4))

/-- The value fits into an `i32` on the way. -/
def axisFrom12bit (v : UInt16) : Int16 :=
  let centered : Int := v.toNat - 2048
  Int16.ofInt (max (-32768) (min (centered * 16) 32767))

/-- `i16::saturating_neg`. -/
def saturatingNeg (v : Int16) : Int16 := if v = -32768 then 32767 else -v

def ControllerState.parse (report : List UInt8) : Option ControllerState :=
  if h : report.length < 0x0F then none
  else
    let payload := report.drop 1
    have hlength : 0x0E ≤ payload.length := by
      simp only [payload, List.length_drop]
      omega
    let buttons := #v[payload[0x2], payload[0x3], payload[0x4]]
    let (lx, ly) := unpack12bit payload[0x5] payload[0x6] payload[0x7]
    let (rx, ry) := unpack12bit payload[0x8] payload[0x9] payload[0xA]
    some {
      buttons
      stickL := (saturatingNeg (axisFrom12bit lx), saturatingNeg (axisFrom12bit ly))
      stickR := (axisFrom12bit rx, saturatingNeg (axisFrom12bit ry))
      triggerL := payload[0x0C]
      triggerR := payload[0x0D] }

/-! ## What a report is to look like -/

/-- The first of the two packed values: the low byte, and the low half of the second one. -/
def rawX (t₀ t₁ : UInt8) : Nat := t₀.toNat + 256 * (t₁.toNat % 16)

def rawY (t₁ t₂ : UInt8) : Nat := t₁.toNat / 16 + 16 * t₂.toNat

/-- Two parts of a 16-bit value that do not overlap. -/
theorem or_shiftLeft {a b k : Nat} (ha : a < 2 ^ k) (hb : b * 2 ^ k < 2 ^ 16) :
    a ||| b <<< k % 2 ^ 16 = a + b * 2 ^ k := by
  rw [Nat.mod_eq_of_lt (by rwa [Nat.shiftLeft_eq]), Nat.or_comm,
    ← Nat.shiftLeft_add_eq_or_of_lt ha, Nat.shiftLeft_eq, Nat.add_comm]

theorem unpack_fst (t₀ t₁ t₂ : UInt8) : (unpack12bit t₀ t₁ t₂).1.toNat = rawX t₀ t₁ := by
  have hvalue : (unpack12bit t₀ t₁ t₂).1.toNat =
      t₀.toNat ||| (t₁.toNat &&& 15) <<< 8 % 2 ^ 16 := by
    simp [unpack12bit]
  have hmask : t₁.toNat &&& 15 = t₁.toNat % 16 := Nat.and_two_pow_sub_one_eq_mod t₁.toNat 4
  rw [hvalue, hmask, or_shiftLeft t₀.toNat_lt (by omega), rawX]
  omega

theorem unpack_snd (t₀ t₁ t₂ : UInt8) : (unpack12bit t₀ t₁ t₂).2.toNat = rawY t₁ t₂ := by
  have hvalue : (unpack12bit t₀ t₁ t₂).2.toNat =
      t₁.toNat >>> 4 ||| t₂.toNat <<< 4 % 2 ^ 16 := by
    simp [unpack12bit]
  have hmiddle : t₁.toNat < 2 ^ 8 := t₁.toNat_lt
  have hhigh : t₂.toNat < 2 ^ 8 := t₂.toNat_lt
  rw [hvalue, Nat.shiftRight_eq_div_pow, or_shiftLeft (by omega) (by omega), rawY]
  omega

theorem rawX_lt (t₀ t₁ : UInt8) : rawX t₀ t₁ < 4096 := by
  have hlow : t₀.toNat < 256 := t₀.toNat_lt
  unfold rawX
  omega

theorem rawY_lt (t₁ t₂ : UInt8) : rawY t₁ t₂ < 4096 := by
  have hmiddle : t₁.toNat < 256 := t₁.toNat_lt
  have hhigh : t₂.toNat < 256 := t₂.toNat_lt
  unfold rawY
  omega

theorem axis_toInt {v : UInt16} (h : v.toNat < 4096) :
    (axisFrom12bit v).toInt = 16 * (v.toNat - 2048) := by
  unfold axisFrom12bit
  rw [Int16.toInt_ofInt_of_le (by omega) (by omega)]
  omega

theorem saturatingNeg_toInt (v : Int16) : (saturatingNeg v).toInt = min 32767 (-v.toInt) := by
  have hlow := v.le_toInt
  have hhigh := v.toInt_lt
  unfold saturatingNeg
  split
  · rename_i hmin
    rw [hmin]
    decide
  · rename_i hne
    have hne' : v.toInt ≠ -32768 := fun h => hne (Int16.toInt_inj.mp (h.trans (by decide)))
    rw [Int16.toInt_neg, Int.bmod_def]
    omega

/-- The value of an axis of a stick, and that of one that is turned round. -/
def axisValue (raw : Nat) : Int := 16 * (raw - 2048)

def turnedValue (raw : Nat) : Int := min 32767 (16 * (2048 - raw))

/-- What is told of a report: the buttons, the sticks, with up and, on the left one, east
turned round, and the triggers. -/
structure Shows (r : List UInt8) (device : Device) : Prop where
  long : 0x0F ≤ r.length
  keys : ∀ k ∈ keyMap, device (.key k.2.2) = if (r.getD (3 + k.1) 0) &&& k.2.1 ≠ 0 then 1 else 0
  absX : device (.axis .absX) = turnedValue (rawX (r.getD 6 0) (r.getD 7 0))
  absY : device (.axis .absY) = turnedValue (rawY (r.getD 7 0) (r.getD 8 0))
  absRx : device (.axis .absRx) = axisValue (rawX (r.getD 9 0) (r.getD 10 0))
  absRy : device (.axis .absRy) = turnedValue (rawY (r.getD 10 0) (r.getD 11 0))
  absZ : device (.axis .absZ) = (r.getD 13 0).toNat
  absRz : device (.axis .absRz) = (r.getD 14 0).toNat

theorem axis_value {v : UInt16} {raw : Nat} (hv : v.toNat = raw) (hraw : raw < 4096) :
    (axisFrom12bit v).toInt = axisValue raw := by
  rw [axis_toInt (hv ▸ hraw), hv, axisValue]

theorem turned_value {v : UInt16} {raw : Nat} (hv : v.toNat = raw) (hraw : raw < 4096) :
    (saturatingNeg (axisFrom12bit v)).toInt = turnedValue raw := by
  rw [saturatingNeg_toInt, axis_value hv hraw, axisValue, turnedValue]
  omega

theorem parse_none {r : List UInt8} : ControllerState.parse r = none ↔ r.length < 0x0F := by
  unfold ControllerState.parse
  by_cases h : r.length < 0x0F
  · simp [h]
  · simp [h]

/-- A key of the key map has the value of its own bit. -/
theorem projection_key {state : ControllerState} {k : Fin 3 × UInt8 × KeyCode} (hk : k ∈ keyMap) :
    state.projection (.key k.2.2) = state.bit k.1 k.2.1 := by
  have hrow : (Control.key k.2.2, state.bit k.1 k.2.1, state.bit k.1 k.2.1) ∈ rows state state :=
    List.mem_append_left _ (List.mem_map.mpr ⟨k, hk, rfl⟩)
  have hsame := List.inj_on_of_nodup_map (rows_nodup state state)
    (mem_rows state state (.key k.2.2)) hrow rfl
  exact congrArg (fun row => row.2.1) hsame

theorem parse_shows {r : List UInt8} {state : ControllerState}
    (h : ControllerState.parse r = some state) : Shows r state.projection := by
  have hlong : 0x0F ≤ r.length := by
    by_contra hshort
    rw [parse_none.mpr (by omega)] at h
    cases h
  unfold ControllerState.parse at h
  rw [dif_neg (Nat.not_lt.mpr hlong)] at h
  simp only [List.getElem_drop, Option.some.injEq] at h
  subst h
  have hget : ∀ i (hi : i < r.length), r.getD i 0 = r[i] := fun i hi => by
    simp [List.getD_eq_getElem?_getD, hi]
  refine ⟨hlong, fun k hk => ?_, ?_, ?_, ?_, ?_, ?_, ?_⟩
  · rw [projection_key hk, ControllerState.bit]
    have hbutton : ∀ byte : Fin 3, (#v[r[3], r[4], r[5]] : Vector UInt8 3)[byte] =
        r.getD (3 + byte) 0 := by
      intro byte
      rw [hget (3 + byte) (by omega)]
      obtain ⟨i, hi⟩ := byte
      rcases i with _ | _ | _ | i
      · rfl
      · rfl
      · rfl
      · omega
    rw [← hbutton k.1]
  · rw [hget 6 (by omega), hget 7 (by omega)]
    exact turned_value (unpack_fst _ _ _) (rawX_lt _ _)
  · rw [hget 7 (by omega), hget 8 (by omega)]
    exact turned_value (unpack_snd _ _ _) (rawY_lt _ _)
  · rw [hget 9 (by omega), hget 10 (by omega)]
    exact axis_value (unpack_fst _ _ _) (rawX_lt _ _)
  · rw [hget 10 (by omega), hget 11 (by omega)]
    exact turned_value (unpack_snd _ _ _) (rawY_lt _ _)
  · rw [hget 13 (by omega)]
    rfl
  · rw [hget 14 (by omega)]
    rfl

theorem turned_inj {a b : Nat} (ha : a < 4096) (hb : b < 4096)
    (h : turnedValue a = turnedValue b) : a = b := by
  unfold turnedValue at h
  omega

/-- The bytes of the sticks and of the triggers are told. -/
theorem shows_inj {r r' : List UInt8} {device : Device} (h : Shows r device)
    (h' : Shows r' device) : ∀ i ∈ [6, 7, 8, 9, 10, 11, 13, 14], r.getD i 0 = r'.getD i 0 := by
  have hx := turned_inj (rawX_lt _ _) (rawX_lt _ _) (h.absX.symm.trans h'.absX)
  have hy := turned_inj (rawY_lt _ _) (rawY_lt _ _) (h.absY.symm.trans h'.absY)
  have hry := turned_inj (rawY_lt _ _) (rawY_lt _ _) (h.absRy.symm.trans h'.absRy)
  have hrx : rawX (r.getD 9 0) (r.getD 10 0) = rawX (r'.getD 9 0) (r'.getD 10 0) := by
    have hvalue := h.absRx.symm.trans h'.absRx
    unfold axisValue at hvalue
    omega
  have hz := h.absZ.symm.trans h'.absZ
  have hrz := h.absRz.symm.trans h'.absRz
  unfold rawX at hx hrx
  unfold rawY at hy hry
  have hbytes : ∀ i, (r.getD i 0).toNat < 256 ∧ (r'.getD i 0).toNat < 256 :=
    fun i => ⟨(r.getD i 0).toNat_lt, (r'.getD i 0).toNat_lt⟩
  have h6 := hbytes 6
  have h7 := hbytes 7
  have h9 := hbytes 9
  have h10 := hbytes 10
  simp only [List.forall_mem_cons, ← UInt8.toNat_inj]
  refine ⟨?_, ?_, ?_, ?_, ?_, ?_, ?_, ?_, fun _ hi => absurd hi List.not_mem_nil⟩ <;> omega

/-! ## The device -/

structure AbsInfo where
  value : Int
  minimum : Int
  maximum : Int
  fuzz : Int
  flat : Int
  resolution : Int
deriving DecidableEq, Repr

def stick : AbsInfo := ⟨0, -32768, 32767, 64, 512, 0⟩

def trigger : AbsInfo := ⟨0, 0, 255, 2, 4, 0⟩

/-- The axes as `build_virtual_device` declares them. -/
def absInfo : AbsoluteAxisCode → AbsInfo
  | .absX | .absY | .absRx | .absRy => stick
  | .absZ | .absRz => trigger

/-- The values that are declared. -/
def Control.Takes : Control → Int → Prop
  | .key _, value => value = 0 ∨ value = 1
  | .axis code, value => (absInfo code).minimum ≤ value ∧ value ≤ (absInfo code).maximum

/-- The changes that count as noise. -/
def Control.fuzz : Control → Int
  | .key _ => 0
  | .axis code => (absInfo code).fuzz

/-- No further apart than the fuzz. -/
def Near (fuzz a b : Int) : Prop := a - fuzz ≤ b ∧ b ≤ a + fuzz

/-- The value that was emitted last for each control, or what it was from the start. -/
def told (events : List InputEvent) : Device := afterEvents Device.initial events

/-- What the kernel shows after an event: of an axis what its filter makes of the fuzz, the value
shown before and the new one. -/
def filtered (filter : Int → Int → Int → Int) (device : Device) (e : InputEvent) : Device :=
  match e.control with
  | .key code => Function.update device (.key code) e.value
  | .axis code => Function.update device (.axis code)
      (filter (absInfo code).fuzz (device (.axis code)) e.value)

def shown (filter : Int → Int → Int → Int) (events : List InputEvent) : Device :=
  events.foldl (filtered filter) Device.initial

/-- The filter leaves a value within the fuzz of the one that was emitted. -/
def Filters (filter : Int → Int → Int → Int) : Prop :=
  ∀ code old value, Near (absInfo code).fuzz value (filter (absInfo code).fuzz old value)

theorem filtered_near {filter : Int → Int → Int → Int} (hfilter : Filters filter)
    {exact device : Device} (h : ∀ c, Near c.fuzz (exact c) (device c)) (e : InputEvent)
    (c : Control) :
    Near c.fuzz (Function.update exact e.control e.value c) (filtered filter device e c) := by
  obtain ⟨control, value⟩ := e
  by_cases hc : c = control
  · subst hc
    cases c with
    | key code => simp [filtered, Control.fuzz, Near]
    | axis code =>
      have hnear := hfilter code (device (.axis code)) value
      simpa [filtered, Control.fuzz] using hnear
  · rw [Function.update_of_ne hc]
    have hkept : filtered filter device ⟨control, value⟩ c = device c := by
      cases control <;> exact Function.update_of_ne hc _ _
    rw [hkept]
    exact h c

/-- What is shown is within the fuzz of what was emitted, however many changes were filtered. -/
theorem shown_near {filter : Int → Int → Int → Int} (hfilter : Filters filter)
    (events : List InputEvent) (c : Control) :
    Near c.fuzz (told events c) (shown filter events c) := by
  induction events using List.reverseRecOn generalizing c with
  | nil =>
    have hzero : Near c.fuzz 0 0 := by
      rcases c with code | code
      · exact ⟨Int.le_refl 0, Int.le_refl 0⟩
      · cases code <;> exact ⟨by decide, by decide⟩
    exact hzero
  | append_singleton events e ih =>
    unfold shown told afterEvents
    rw [List.foldl_concat, List.foldl_concat]
    exact filtered_near hfilter ih e c

theorem projection_takes (state : ControllerState) (c : Control) :
    c.Takes (state.projection c) := by
  have hstick : ∀ v : Int16, stick.minimum ≤ v.toInt ∧ v.toInt ≤ stick.maximum := fun v =>
    ⟨v.le_toInt, Int.le_of_lt_add_one v.toInt_lt⟩
  have htrigger : ∀ v : UInt8, trigger.minimum ≤ v.toNat ∧ (v.toNat : Int) ≤ trigger.maximum := by
    intro v
    have hlt := v.toNat_lt
    exact ⟨Int.natCast_nonneg _, by simp only [trigger]; omega⟩
  rcases c with code | code
  · obtain ⟨row, hrow, rfl⟩ : ∃ k ∈ keyMap, k.2.2 = code := by cases code <;> decide
    rw [projection_key hrow, ControllerState.bit]
    split
    · exact Or.inr rfl
    · exact Or.inl rfl
  · cases code <;> first | exact hstick _ | exact htrigger _

/-- An event tells what the report tells of its control. -/
theorem changes_takes {state last : ControllerState} {e : InputEvent}
    (he : e ∈ changes state last) : e.control.Takes e.value := by
  rw [changes_eq] at he
  obtain ⟨row, hrow, he⟩ := List.mem_flatMap.mp he
  have hsame := List.inj_on_of_nodup_map (rows_nodup state last) hrow
    (mem_rows state last row.1) rfl
  unfold changed at he
  split at he
  · obtain rfl := List.mem_singleton.mp he
    have hvalue : row.2.1 = state.projection row.1 := congrArg (fun row => row.2.1) hsame
    show row.1.Takes row.2.1
    rw [hvalue]
    exact projection_takes state row.1
  · cases he

/-! ## The two threads -/

/-- The reports that the controller has still to send, the states on their way from the one thread
to the other, the state that was taken last, and the events that were emitted. -/
structure Gamepad where
  unread : List (List UInt8)
  sent : List ControllerState := []
  last : ControllerState := {}
  emitted : List InputEvent := []

inductive GamepadAct where
  /-- `hid_loop` reads a report. -/
  | read
  /-- `main_loop` takes a state, and the emit is accepted. -/
  | drain
deriving DecidableEq, Repr

def Gamepad.step (g : Gamepad) : GamepadAct → Option Gamepad
  | .read =>
    match g.unread with
    | [] => none
    | report :: unread =>
      some { g with unread, sent := g.sent ++ (ControllerState.parse report).toList }
  | .drain =>
    match g.sent with
    | [] => none
    | state :: sent =>
      some { g with sent, last := state, emitted := g.emitted ++ changes state g.last }

/-- The last report that is long enough is told, or none has come yet. -/
def TellsLast (seen : List (List UInt8)) (device : Device) : Prop :=
  (∀ r ∈ seen, r.length < 0x0F) ∧ device = Device.initial ∨
    ∃ before r after, seen = before ++ r :: after ∧ Shows r device ∧
      ∀ q ∈ after, q.length < 0x0F

theorem TellsLast.append {seen later : List (List UInt8)} {device : Device}
    (h : TellsLast seen device) (hshort : ∀ q ∈ later, q.length < 0x0F) :
    TellsLast (seen ++ later) device := by
  rcases h with ⟨hnone, rfl⟩ | ⟨before, r, after, rfl, hshows, hafter⟩
  · refine Or.inl ⟨fun q hq => ?_, rfl⟩
    exact (List.mem_append.mp hq).elim (hnone q) (hshort q)
  · refine Or.inr ⟨before, r, after ++ later, by simp, hshows, fun q hq => ?_⟩
    exact (List.mem_append.mp hq).elim (hafter q) (hshort q)

/-- The events tell the reports of which the states have been taken. -/
structure Gamepad.Tracks (reports : List (List UInt8)) (g : Gamepad) : Prop where
  split : ∃ seen later, reports = seen ++ later ++ g.unread ∧
    g.sent = later.filterMap ControllerState.parse ∧ TellsLast seen (told g.emitted)
  last : told g.emitted = g.last.projection
  takes : ∀ e ∈ g.emitted, e.control.Takes e.value

theorem told_changes {events : List InputEvent} {last : ControllerState}
    (hlast : told events = last.projection) (state : ControllerState) :
    told (events ++ changes state last) = state.projection := by
  funext c
  unfold told at hlast ⊢
  rw [afterEvents_append, afterEvents_changes, hlast]
  split
  · rfl
  · rename_i hsame
    exact (not_not.mp hsame).symm

theorem step_tracks {reports : List (List UInt8)} {g g' : Gamepad} {a : GamepadAct}
    (h : g.Tracks reports) (hs : g.step a = some g') : g'.Tracks reports := by
  obtain ⟨seen, later, hreports, hsent, htells⟩ := h.split
  cases a with
  | read =>
    simp only [Gamepad.step] at hs
    split at hs
    · cases hs
    · rename_i report unread hunread
      cases hs
      refine ⟨⟨seen, later ++ [report], ?_, ?_, htells⟩, h.last, h.takes⟩
      · rw [hreports, hunread]
        simp
      · rw [hsent, List.filterMap_append]
        cases hparse : ControllerState.parse report <;> simp [hparse]
  | drain =>
    simp only [Gamepad.step] at hs
    split at hs
    · cases hs
    · rename_i state sent hstate
      cases hs
      obtain ⟨skipped, report, rest, rfl, hskipped, hparse, hrest⟩ :=
        List.filterMap_eq_cons_iff.mp (hsent.symm.trans hstate)
      have htold := told_changes h.last state
      refine ⟨⟨seen ++ skipped ++ [report], rest, ?_, hrest.symm, Or.inr ?_⟩, htold,
        fun e he => ?_⟩
      · rw [hreports]
        simp
      · refine ⟨seen ++ skipped, report, [], rfl, ?_, fun _ hq => absurd hq List.not_mem_nil⟩
        rw [htold]
        exact parse_shows hparse
      · exact (List.mem_append.mp he).elim (h.takes e) changes_takes

/-- However the two threads take turns, where the emits are accepted the events that were emitted
last tell the last report, among those of which the states have been taken, that is long enough,
and once nothing is under way the last one of all. All events are in the ranges that are declared,
and the gamepad is never further from them than the fuzz. -/
theorem reports_shown (reports : List (List UInt8)) {l : List (Gamepad × GamepadAct)} {g : Gamepad}
    (h : Trace (fun g a g' => Gamepad.step g a = some g') { unread := reports } l g) :
    (∃ seen later, reports = seen ++ later ++ g.unread ∧
      g.sent = later.filterMap ControllerState.parse ∧ TellsLast seen (told g.emitted)) ∧
    (g.unread = [] → g.sent = [] → TellsLast reports (told g.emitted)) ∧
    (∀ e ∈ g.emitted, e.control.Takes e.value) ∧
    ∀ filter, Filters filter → ∀ c, Near c.fuzz (told g.emitted c) (shown filter g.emitted c) := by
  have hstart : Gamepad.Tracks reports { unread := reports } :=
    ⟨⟨[], [], rfl, rfl, Or.inl ⟨fun _ hr => absurd hr List.not_mem_nil, rfl⟩⟩,
      projection_initial, fun _ he => absurd he List.not_mem_nil⟩
  have htracks := h.keeps hstart fun _ hg hs => step_tracks hg hs
  refine ⟨htracks.split, fun hunread hsent => ?_, htracks.takes, fun filter hfilter c =>
    shown_near hfilter g.emitted c⟩
  obtain ⟨seen, later, hreports, hlater, htells⟩ := htracks.split
  rw [hreports, hunread, List.append_nil]
  refine htells.append fun q hq => parse_none.mp ?_
  exact List.filterMap_eq_nil_iff.mp (hlater.symm.trans hsent) q hq

/-- The filter of the kernel: a change of less than half the fuzz is dropped, and one of less than
twice the fuzz is taken in part. -/
def defuzz (fuzz old value : Int) : Int :=
  if old - fuzz / 2 < value ∧ value < old + fuzz / 2 then old
  else if old - fuzz < value ∧ value < old + fuzz then (old * 3 + value).tdiv 4
  else if old - fuzz * 2 < value ∧ value < old + fuzz * 2 then (old + value).tdiv 2
  else value

/-- A quotient that is rounded towards zero. -/
theorem tdiv_near {k : Int} (hk : 0 < k) (n : Int) :
    n - k < k * n.tdiv k ∧ k * n.tdiv k < n + k := by
  have hsplit := Int.mul_tdiv_add_tmod n k
  have hlow := Int.lt_tmod_of_pos n hk
  have hhigh := Int.tmod_lt_of_pos n hk
  omega

theorem defuzz_filters : Filters defuzz := by
  intro code old value
  have hfuzz : (absInfo code).fuzz = 64 ∨ (absInfo code).fuzz = 2 := by
    cases code <;> simp [absInfo, stick, trigger]
  have hquarter := tdiv_near (by decide : (0 : Int) < 4) (old * 3 + value)
  have hhalf := tdiv_near (by decide : (0 : Int) < 2) (old + value)
  unfold Near defuzz
  rcases hfuzz with h | h <;> rw [h] <;> split_ifs <;> omega

/-- The button A is held, and the sticks are nearly at rest. -/
def heldReport : List UInt8 :=
  [0x05, 0, 0, 0x02, 0, 0, 0x01, 0x08, 0x80, 0x00, 0x08, 0x80, 0, 36, 240]

/-- A report that is too short comes first. The small move of the stick is emitted, and not
shown. -/
theorem reports_shown_sample : ∃ l g, Trace (fun g a g' => Gamepad.step g a = some g')
    { unread := [[0x05], heldReport] } l g ∧ TellsLast [[0x05], heldReport] (told g.emitted) ∧
      told g.emitted (.key .btnSouth) = 1 ∧ told g.emitted (.axis .absX) = -16 ∧
      told g.emitted (.axis .absRz) = 240 ∧ shown defuzz g.emitted (.axis .absX) = 0 ∧
      Near 64 (told g.emitted (.axis .absX)) (shown defuzz g.emitted (.axis .absX)) := by
  have hend : ∃ r, replay Gamepad.step { unread := [[0x05], heldReport] } [.read, .read, .drain] =
      some r ∧ r.2.unread = [] ∧ r.2.sent = [] ∧ told r.2.emitted (.key .btnSouth) = 1 ∧
        told r.2.emitted (.axis .absX) = -16 ∧ told r.2.emitted (.axis .absRz) = 240 ∧
        shown defuzz r.2.emitted (.axis .absX) = 0 :=
    ⟨_, rfl, rfl, rfl, by decide +kernel, by decide +kernel, by decide +kernel, by decide +kernel⟩
  obtain ⟨⟨l, g⟩, hreplay, hunread, hsent, hkey, hx, hrz, hshown⟩ := hend
  have htrace := trace_of_replay hreplay
  have hall := reports_shown _ htrace
  exact ⟨l, g, htrace, hall.2.1 hunread hsent, hkey, hx, hrz, hshown,
    hall.2.2.2 defuzz defuzz_filters (.axis .absX)⟩

end Foundrix.Nsw2

import Mathlib.Data.List.Basic

/-!
# Virtual workspaces and monitor slots

`VirtualWorkspace`, `MonitorSlot` and `MonitorLayout` of
`packages/hypr-workspaced/src/workspace.rs`, and the monitors as Hyprland lists them.

* `VirtualWorkspace.hyprlandId`, `VirtualWorkspace.fromHyprlandId`: the numbering.
* `hyprlandId_inj`: a workspace id tells its slot and its virtual workspace.
-/

namespace Foundrix.HyprWorkspaced

/-- A user-facing workspace, from 1 to 9. -/
structure VirtualWorkspace where
  number : Nat
  valid : 1 ≤ number ∧ number ≤ 9
deriving DecidableEq, Repr

/-- The index of a monitor, a `u8`. -/
structure MonitorSlot where
  index : UInt8
deriving DecidableEq, Repr

namespace VirtualWorkspace

def new (n : Nat) : Option VirtualWorkspace :=
  if h : 1 ≤ n ∧ n ≤ 9 then some ⟨n, h⟩ else none

def hyprlandId (v : VirtualWorkspace) (slot : MonitorSlot) : Int :=
  slot.index.toNat * 10 + v.number

/-- `None` for special and orphan ids. -/
def fromHyprlandId (id : Int) : Option VirtualWorkspace :=
  if h : id ≤ 0 ∨ id % 10 = 0 then none
  else some ⟨((id - 1) % 10 + 1).toNat, by omega⟩

end VirtualWorkspace

def MonitorSlot.fromHyprlandId (id : Int) : MonitorSlot :=
  if id < 10 then ⟨0⟩ else ⟨UInt8.ofInt (id / 10)⟩

theorem hyprlandId_inj {v v' : VirtualWorkspace} {s s' : MonitorSlot}
    (h : v.hyprlandId s = v'.hyprlandId s') : v = v' ∧ s = s' := by
  obtain ⟨n, hn⟩ := v
  obtain ⟨n', hn'⟩ := v'
  obtain ⟨i⟩ := s
  obtain ⟨i'⟩ := s'
  simp only [VirtualWorkspace.hyprlandId] at h
  have hnumber : n = n' := by omega
  have hindex : i.toNat = i'.toNat := by omega
  exact ⟨by subst hnumber; rfl, by rw [UInt8.toNat.inj hindex]⟩

@[simp] theorem fromHyprlandId_hyprlandId (v : VirtualWorkspace) (s : MonitorSlot) :
    VirtualWorkspace.fromHyprlandId (v.hyprlandId s) = some v := by
  obtain ⟨n, hn⟩ := v
  have hid : VirtualWorkspace.hyprlandId ⟨n, hn⟩ s = s.index.toNat * 10 + n := rfl
  have hvalid : ¬ (VirtualWorkspace.hyprlandId ⟨n, hn⟩ s ≤ 0 ∨
      VirtualWorkspace.hyprlandId ⟨n, hn⟩ s % 10 = 0) := by omega
  have hnumber : ((VirtualWorkspace.hyprlandId ⟨n, hn⟩ s - 1) % 10 + 1).toNat = n := by omega
  unfold VirtualWorkspace.fromHyprlandId
  rw [dif_neg hvalid]
  simp only [hnumber]

@[simp] theorem slot_fromHyprlandId_hyprlandId (v : VirtualWorkspace) (s : MonitorSlot) :
    MonitorSlot.fromHyprlandId (v.hyprlandId s) = s := by
  obtain ⟨n, hn⟩ := v
  obtain ⟨i⟩ := s
  have hid : VirtualWorkspace.hyprlandId ⟨n, hn⟩ ⟨i⟩ = i.toNat * 10 + n := rfl
  have hindex : i.toNat < 256 := i.toNat_lt
  unfold MonitorSlot.fromHyprlandId
  by_cases hsmall : VirtualWorkspace.hyprlandId ⟨n, hn⟩ ⟨i⟩ < 10
  · have hzero : i.toNat = 0 := by omega
    rw [if_pos hsmall, MonitorSlot.mk.injEq, ← UInt8.toNat_inj, hzero]
    rfl
  · have hdiv : (VirtualWorkspace.hyprlandId ⟨n, hn⟩ ⟨i⟩ / 10 % 2 ^ 8).toNat = i.toNat := by omega
    rw [if_neg hsmall, MonitorSlot.mk.injEq, UInt8.ofInt, hdiv, UInt8.ofNat_toNat]

/-! ## Monitors and their slots -/

/-- What the daemon reads of a monitor. -/
structure Monitor where
  id : Int
  name : String
  /-- It contains the serial number. -/
  description : String
  /-- The id of the workspace that it shows. -/
  activeWorkspace : Int
  focused : Bool := false
deriving DecidableEq, Repr

/-- The slots of the monitors, by their Hyprland id. -/
structure MonitorLayout where
  slots : List (Int × MonitorSlot) := []
deriving DecidableEq, Repr

namespace MonitorLayout

/-- `HashMap::insert`. -/
def insert (l : MonitorLayout) (id : Int) (slot : MonitorSlot) : MonitorLayout :=
  ⟨(id, slot) :: l.slots.filter fun p => p.1 != id⟩

/-- The slot of a monitor, which is its id taken as a `u8` where none is known. -/
def slotFor (l : MonitorLayout) (id : Int) : MonitorSlot :=
  (l.slots.lookup id).getD ⟨UInt8.ofInt id⟩

theorem slotFor_insert (l : MonitorLayout) (id : Int) (slot : MonitorSlot) :
    (l.insert id slot).slotFor id = slot := by
  simp [slotFor, insert]

theorem slotFor_insert_of_ne (l : MonitorLayout) {id id' : Int} (slot : MonitorSlot)
    (h : id' ≠ id) : (l.insert id slot).slotFor id' = l.slotFor id' := by
  have hfilter : (l.slots.filter fun p => p.1 != id).lookup id' = l.slots.lookup id' := by
    induction l.slots with
    | nil => rfl
    | cons p ps ih =>
      obtain ⟨k, s⟩ := p
      by_cases hk : k = id
      · subst hk
        have hne : (id' == k) = false := by simpa using h
        simpa [List.lookup_cons, hne] using ih
      · simp only [List.filter_cons, bne_iff_ne, ne_eq, hk, not_false_eq_true, if_true,
          List.lookup_cons, ih]
  have hne : (id' == id) = false := by simpa using h
  simp [slotFor, insert, List.lookup_cons, hne, hfilter]

end MonitorLayout

end Foundrix.HyprWorkspaced

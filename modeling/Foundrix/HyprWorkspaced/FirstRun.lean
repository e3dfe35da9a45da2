import Mathlib.Data.List.Perm.Basic
import Foundrix.HyprWorkspaced.Registry

/-!
# The first run

What `MonitorLayout::assign` makes of the monitors that are attached while the registry is
empty. Its documentation has them sorted by description, with the built-in display first.

* `SameSlots`, `BuiltInFirst`: the slots do not depend on the order in which Hyprland lists
  the monitors, and the built-in display gets slot 0.
* `assign_first`: a monitor gets the place at which it is listed.
* `first_slots_iff`: when the documentation holds.
-/

namespace Foundrix.HyprWorkspaced

open Text

/-- The built-in display, by the name of its connector. -/
def Monitor.BuiltIn (m : Monitor) : Prop := startsWith m.name "eDP"

/-- Each description is given the same slot for both listings. -/
def SameSlots (file : Option String) (c c' : Listing) : Prop :=
  ∀ m ∈ c.monitors, ∀ n ∈ c'.monitors, m.description = n.description →
    (MonitorLayout.assign file c.monitors).1.slotFor m.id =
      (MonitorLayout.assign file c'.monitors).1.slotFor n.id

def BuiltInFirst (file : Option String) (c : Listing) : Prop :=
  ∀ m ∈ c.monitors, m.BuiltIn → (MonitorLayout.assign file c.monitors).1.slotFor m.id = ⟨0⟩

/-- The slots of the first run do not depend on the listing order. -/
def OrderFree (file : Option String) (c : Listing) : Prop :=
  (∀ c' : Listing, c.monitors.Perm c'.monitors → SameSlots file c c') ∧ BuiltInFirst file c

/-- The place of a description in a listing, as far as a `u8` tells it. -/
def place (c : Listing) (description : String) : Nat :=
  (c.monitors.map fun m => m.description).idxOf description % 256

variable {file : Option String} {c c' : Listing} {m : Monitor}

theorem assign_first (hempty : MonitorRegistry.load file = []) (hm : m ∈ c.monitors) :
    (MonitorLayout.assign file c.monitors).1.slotFor m.id =
      ⟨UInt8.ofNat ((c.monitors.map fun m => m.description).idxOf m.description)⟩ := by
  have hknown : ∀ n ∈ c.monitors, n.description ∈ c.monitors.map fun m => m.description :=
    fun n hn => List.mem_map_of_mem hn
  have hslot := (foldl_insert_slotFor c.apart hknown {}).2 m hm
  simpa [MonitorLayout.assign, MonitorRegistry.register, hempty] using hslot

theorem sameSlots_iff (hempty : MonitorRegistry.load file = [])
    (hperm : c.monitors.Perm c'.monitors) :
    SameSlots file c c' ↔
      ∀ m ∈ c.monitors, place c m.description = place c' m.description := by
  constructor
  · intro h m hm
    have hm' : m ∈ c'.monitors := hperm.mem_iff.mp hm
    have hsame := h m hm m hm' rfl
    rw [assign_first hempty hm, assign_first hempty hm'] at hsame
    exact slot_eq_iff.mp hsame
  · intro h m hm n hn hdescription
    rw [assign_first hempty hm, assign_first hempty hn, ← hdescription]
    exact slot_eq_iff.mpr (h m hm)

theorem builtInFirst_iff (hempty : MonitorRegistry.load file = []) :
    BuiltInFirst file c ↔ ∀ m ∈ c.monitors, m.BuiltIn → place c m.description = 0 := by
  have hslot : ∀ m ∈ c.monitors, (MonitorLayout.assign file c.monitors).1.slotFor m.id = ⟨0⟩ ↔
      place c m.description = 0 := by
    intro m hm
    rw [assign_first hempty hm]
    exact slot_eq_iff (b := 0)
  constructor
  · intro h m hm hbuiltIn
    exact (hslot m hm).mp (h m hm hbuiltIn)
  · intro h m hm hbuiltIn
    exact (hslot m hm).mpr (h m hm hbuiltIn)

/-- The first two monitors of a listing, the other way round. -/
theorem exists_swapped {a b : Monitor} {ms : List Monitor} (hc : c.monitors = a :: b :: ms) :
    ∃ c' : Listing, c'.monitors = b :: a :: ms := by
  have hnodup := c.apart
  rw [hc] at hnodup
  have hswapped : ((b :: a :: ms).map fun m => m.id).Nodup :=
    ((List.Perm.swap b a ms).map _).nodup_iff.mp hnodup
  exact ⟨⟨b :: a :: ms, hswapped⟩, rfl⟩

/-- Two monitors are enough for the order to matter. -/
theorem not_orderFree {a b : Monitor} {ms : List Monitor}
    (hempty : MonitorRegistry.load file = []) (hc : c.monitors = a :: b :: ms)
    (hne : a.description ≠ b.description) : ¬ OrderFree file c := by
  intro h
  obtain ⟨c', hc'⟩ := exists_swapped hc
  have hperm : c.monitors.Perm c'.monitors := by
    rw [hc, hc']
    exact List.Perm.swap b a ms
  have ha : a ∈ c.monitors := by
    rw [hc]
    exact List.mem_cons_self
  have hplaces := (sameSlots_iff hempty hperm).mp (h.1 c' hperm) a ha
  rw [place, place, hc, hc'] at hplaces
  simp [hne.symm] at hplaces

/-- A monitor that is attached alone gets slot 0. -/
theorem orderFree_of_alone (hempty : MonitorRegistry.load file = [])
    (halone : c.monitors.length ≤ 1) : OrderFree file c := by
  have hsame : ∀ m ∈ c.monitors, c.monitors = [m] := by
    intro m hm
    obtain ⟨n, hn⟩ := List.length_eq_one_iff.mp
      (Nat.le_antisymm halone (List.length_pos_of_mem hm))
    rw [hn] at hm ⊢
    rw [List.mem_singleton.mp hm]
  constructor
  · intro c' hperm
    apply (sameSlots_iff hempty hperm).mpr
    intro m hm
    have hother : c'.monitors = [m] := by
      rw [hsame m hm] at hperm
      exact List.perm_singleton.mp hperm.symm
    rw [place, place, hsame m hm, hother]
  · apply (builtInFirst_iff hempty).mpr
    intro m hm _
    rw [place, hsame m hm]
    simp

/-- On the first run the slots are free of the listing order exactly if at most one monitor
is attached. For two orders of the same monitors they agree, with the built-in display at
slot 0, exactly if every monitor is listed at the same place and the built-in one first. -/
theorem first_slots_iff (c : Listing) (hempty : MonitorRegistry.load file = [])
    (hdistinct : (c.monitors.map fun m => m.description).Nodup) :
    (OrderFree file c ↔ c.monitors.length ≤ 1) ∧
      ∀ c' : Listing, c.monitors.Perm c'.monitors →
        (SameSlots file c c' ∧ BuiltInFirst file c ↔
          (∀ m ∈ c.monitors, place c m.description = place c' m.description) ∧
            ∀ m ∈ c.monitors, m.BuiltIn → place c m.description = 0) := by
  refine ⟨⟨?_, orderFree_of_alone hempty⟩, ?_⟩
  · intro h
    by_contra hmany
    match hc : c.monitors with
    | [] => simp [hc] at hmany
    | [a] => simp [hc] at hmany
    | a :: b :: ms =>
      have hne : a.description ≠ b.description := by
        rw [hc] at hdistinct
        intro heq
        simp [heq] at hdistinct
      exact not_orderFree hempty hc hne h
  · intro c' hperm
    rw [sameSlots_iff hempty hperm, builtInFirst_iff hempty]

/-! ## Concrete monitors -/

/-- A laptop with its display listed after an external one. -/
def dockedListing : Listing :=
  ⟨[{ id := 0, name := "DP-1", description := "Dell P2419H 7X2", activeWorkspace := 1 },
    { id := 1, name := "eDP-1", description := "BOE 0x0A1B", activeWorkspace := 2 }], by decide⟩

theorem first_slots_iff_sample : ¬ OrderFree none dockedListing := by
  have hmany : ¬ dockedListing.monitors.length ≤ 1 := by decide
  exact fun h => hmany ((first_slots_iff dockedListing rfl (by decide)).1.mp h)

/-- The built-in display gets slot 1. -/
theorem built_in_listed_second : ¬ ∀ c : Listing,
    (c.monitors.map fun m => m.description).Nodup → OrderFree none c := by
  intro h
  have hfirst := (h dockedListing (by decide)).2
  unfold BuiltInFirst Monitor.BuiltIn at hfirst
  revert hfirst
  decide

end Foundrix.HyprWorkspaced

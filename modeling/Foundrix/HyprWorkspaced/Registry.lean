import Foundrix.HyprWorkspaced.Workspace
import Foundrix.Text.Str

/-!
# The registry of monitors

`MonitorRegistry` and `MonitorLayout::assign`: the descriptions of all monitors that were
ever attached, one a line, of which the line number is the slot.

* `load`, `save`, `register`, `assign`: the registry, and what a call makes of its file.
* `load_save`: the file gives the entries back where every one is a line of its own.
* `slots_kept_iff`: when every monitor keeps a slot of its own.
-/

namespace Foundrix.HyprWorkspaced

open Text

namespace MonitorRegistry

/-- The entries in the file, which is absent where it cannot be read. -/
def load : Option String → List String
  | some content => (lines content).filter fun l => l != ""
  | none => []

/-- What is written to the file. -/
def save (entries : List String) : String := join "\n" entries ++ "\n"

def slotFor (entries : List String) (description : String) : Option Nat :=
  entries.idxOf? description

/-- A monitor that is not known yet is appended, which modifies the registry. -/
def append (r : List String × Bool) (m : Monitor) : List String × Bool :=
  if slotFor r.1 m.description = none then (r.1 ++ [m.description], true) else r

/-- The entries with the monitors, and whether they were modified. On the first run the
monitors are taken as they are listed. -/
def register (entries : List String) (monitors : List Monitor) : List String × Bool :=
  if entries = [] then
    let entries' := monitors.map fun m => m.description
    (entries', !entries'.isEmpty)
  else monitors.foldl append (entries, false)

end MonitorRegistry

/-- The layout of the monitors that are attached, and the file after the call. -/
def MonitorLayout.assign (file : Option String) (monitors : List Monitor) :
    MonitorLayout × Option String :=
  let (entries, modified) := MonitorRegistry.register (MonitorRegistry.load file) monitors
  let layout := monitors.foldl (fun l m =>
    match MonitorRegistry.slotFor entries m.description with
    | some idx => l.insert m.id ⟨UInt8.ofNat idx⟩
    | none => l) {}
  (layout, if modified then some (MonitorRegistry.save entries) else file)

/-- The monitors that are attached at one time; Hyprland gives each an id of its own. -/
structure Listing where
  monitors : List Monitor
  apart : (monitors.map fun m => m.id).Nodup

/-- The layouts of one call after the other. Only the file is kept between calls, so a
restart of the daemon changes nothing. -/
def assignAll (file : Option String) : List Listing → List (Listing × MonitorLayout)
  | [] => []
  | c :: cs =>
    let r := MonitorLayout.assign file c.monitors
    (c, r.1) :: assignAll r.2 cs

/-! ## The property -/

/-- A description is given the same slot in every call. -/
def Stable (results : List (Listing × MonitorLayout)) : Prop :=
  ∀ x ∈ results, ∀ y ∈ results, ∀ m ∈ x.1.monitors, ∀ n ∈ y.1.monitors,
    m.description = n.description → x.2.slotFor m.id = y.2.slotFor n.id

/-- Monitors with different descriptions have different slots, and so no workspace id in
common. -/
def Apart (results : List (Listing × MonitorLayout)) : Prop :=
  ∀ x ∈ results, ∀ m ∈ x.1.monitors, ∀ n ∈ x.1.monitors, m.description ≠ n.description →
    x.2.slotFor m.id ≠ x.2.slotFor n.id ∧ ∀ v w : VirtualWorkspace,
      v.hyprlandId (x.2.slotFor m.id) ≠ w.hyprlandId (x.2.slotFor n.id)

/-- A description that is one line of the file, as it is. -/
def OwnLine (description : String) : Prop :=
  description ≠ "" ∧ '\n' ∉ description.toList ∧ description.toList.getLast? ≠ some '\r'

/-- The descriptions in the order in which they are registered. -/
def registered (calls : List Listing) : List String :=
  calls.foldl (fun entries c => (MonitorRegistry.register entries c.monitors).1) []

/-- The number of a description among those registered, as far as a `u8` tells it. -/
def Number (calls : List Listing) (description : String) : Nat :=
  (registered calls).idxOf description % 256

/-- No two descriptions listed together have numbers that a `u8` confuses. -/
def NumbersApart (calls : List Listing) : Prop :=
  ∀ c ∈ calls, ∀ m ∈ c.monitors, ∀ n ∈ c.monitors, m.description ≠ n.description →
    Number calls m.description ≠ Number calls n.description

/-! ## The file -/

/-- A line end that closes no carriage return. -/
theorem closeLine_ownLine {l : List Char} (h : l.getLast? ≠ some '\r') :
    closeLine l.reverse = l := by
  unfold closeLine
  split
  · rename_i acc hacc
    have hl : l = acc.reverse ++ ['\r'] := by
      rw [← List.reverse_reverse l, hacc, List.reverse_cons]
    exact absurd (by rw [hl]; simp) h
  · exact List.reverse_reverse l

theorem save_toList {entries : List String} (h : entries ≠ []) :
    (MonitorRegistry.save entries).toList = entries.flatMap fun e => e.toList ++ ['\n'] := by
  unfold MonitorRegistry.save
  induction entries with
  | nil => exact absurd rfl h
  | cons e es ih =>
    cases es with
    | nil => simp [join]
    | cons e' es =>
      have hrest := ih (List.cons_ne_nil e' es)
      rw [String.toList_append] at hrest
      rw [join, List.flatMap_cons, ← hrest]
      · simp [String.toList_append]
      · exact fun hes => absurd hes (List.cons_ne_nil e' es)

theorem linesFrom_entries {entries : List String} (h : ∀ e ∈ entries, OwnLine e) :
    linesFrom (entries.flatMap fun e => e.toList ++ ['\n']) [] = entries.map String.toList := by
  induction entries with
  | nil => rfl
  | cons e es ih =>
    obtain ⟨-, hnewline, hreturn⟩ := h e List.mem_cons_self
    have hrest := ih fun e he => h e (List.mem_cons_of_mem _ he)
    rw [List.flatMap_cons, List.append_assoc, linesFrom_text hnewline, List.append_nil]
    rw [List.singleton_append, linesFrom, closeLine_ownLine hreturn, hrest, List.map_cons]

/-- Entries that are lines of their own are read back as they were written. -/
theorem load_save {entries : List String} (hne : entries ≠ []) (h : ∀ e ∈ entries, OwnLine e) :
    MonitorRegistry.load (some (MonitorRegistry.save entries)) = entries := by
  have hlines : lines (MonitorRegistry.save entries) = entries := by
    unfold lines
    rw [save_toList hne, linesFrom_entries h, List.map_map]
    simp
  change (lines (MonitorRegistry.save entries)).filter (fun l => l != "") = entries
  rw [hlines, List.filter_eq_self]
  intro e he
  simpa using (h e he).1

/-! ## The entries -/

theorem slotFor_mem {entries : List String} {d : String} (h : d ∈ entries) :
    MonitorRegistry.slotFor entries d = some (entries.idxOf d) := by
  unfold MonitorRegistry.slotFor
  induction entries with
  | nil => cases h
  | cons e es ih =>
    rw [List.idxOf?_cons, List.idxOf_cons]
    by_cases he : e = d
    · simp [he]
    · have hmem : d ∈ es := by simpa [Ne.symm he] using h
      have hne : (e == d) = false := by simpa using he
      simp [hne, ih hmem]

theorem slotFor_none {entries : List String} {d : String} :
    MonitorRegistry.slotFor entries d = none ↔ d ∉ entries :=
  List.idxOf?_eq_none_iff

/-- What registering monitors makes of entries. -/
structure Registers (entries : List String) (monitors : List Monitor)
    (r : List String × Bool) : Prop where
  grows : entries <+: r.1
  known : ∀ m ∈ monitors, m.description ∈ r.1
  source : ∀ e ∈ r.1, e ∈ entries ∨ ∃ m ∈ monitors, e = m.description
  same : r.2 = false → r.1 = entries
  filled : r.2 = true → r.1 ≠ []

theorem foldl_append_registers (monitors : List Monitor) (r : List String × Bool) (hne : r.1 ≠ []) :
    r.1 <+: (monitors.foldl MonitorRegistry.append r).1 ∧
    (∀ m ∈ monitors, m.description ∈ (monitors.foldl MonitorRegistry.append r).1) ∧
    (∀ e ∈ (monitors.foldl MonitorRegistry.append r).1,
      e ∈ r.1 ∨ ∃ m ∈ monitors, e = m.description) ∧
    ((monitors.foldl MonitorRegistry.append r).2 = false →
      r.2 = false ∧ (monitors.foldl MonitorRegistry.append r).1 = r.1) := by
  induction monitors generalizing r with
  | nil => exact ⟨List.prefix_rfl, by simp, fun e he => Or.inl he, fun h => ⟨h, rfl⟩⟩
  | cons m ms ih =>
    have hstep : r.1 <+: (MonitorRegistry.append r m).1 ∧
        m.description ∈ (MonitorRegistry.append r m).1 ∧
        (∀ e ∈ (MonitorRegistry.append r m).1, e ∈ r.1 ∨ e = m.description) ∧
        ((MonitorRegistry.append r m).2 = false →
          r.2 = false ∧ (MonitorRegistry.append r m).1 = r.1) := by
      unfold MonitorRegistry.append
      by_cases hm : MonitorRegistry.slotFor r.1 m.description = none
      · rw [if_pos hm]
        exact ⟨List.prefix_append _ _, by simp, by simp, by simp⟩
      · rw [if_neg hm]
        have hmem : m.description ∈ r.1 := by
          by_contra hnot
          exact hm (slotFor_none.mpr hnot)
        exact ⟨List.prefix_rfl, hmem, fun e he => Or.inl he, fun h => ⟨h, rfl⟩⟩
    obtain ⟨hgrows, hknown, hsource, hsame⟩ := hstep
    have hne' : (MonitorRegistry.append r m).1 ≠ [] := by
      intro hnil
      rw [hnil] at hgrows
      exact hne (List.prefix_nil.mp hgrows)
    obtain ⟨ihgrows, ihknown, ihsource, ihsame⟩ := ih (MonitorRegistry.append r m) hne'
    rw [List.foldl_cons]
    refine ⟨hgrows.trans ihgrows, ?_, ?_, ?_⟩
    · intro n hn
      rcases List.mem_cons.mp hn with rfl | hn
      · exact ihgrows.subset hknown
      · exact ihknown n hn
    · intro e he
      rcases ihsource e he with he | ⟨n, hn, rfl⟩
      · rcases hsource e he with he | rfl
        · exact Or.inl he
        · exact Or.inr ⟨m, List.mem_cons_self, rfl⟩
      · exact Or.inr ⟨n, List.mem_cons_of_mem _ hn, rfl⟩
    · intro hfalse
      obtain ⟨hmid, heq⟩ := ihsame hfalse
      obtain ⟨hstart, heq'⟩ := hsame hmid
      exact ⟨hstart, heq.trans heq'⟩

theorem register_registers (entries : List String) (monitors : List Monitor) :
    Registers entries monitors (MonitorRegistry.register entries monitors) := by
  by_cases hempty : entries = []
  · subst hempty
    simp only [MonitorRegistry.register, if_true]
    refine ⟨List.nil_prefix, ?_, ?_, ?_, ?_⟩
    · exact fun m hm => List.mem_map_of_mem hm
    · intro e he
      obtain ⟨m, hm, rfl⟩ := List.mem_map.mp he
      exact Or.inr ⟨m, hm, rfl⟩
    · simp
    · simp
  · simp only [MonitorRegistry.register, if_neg hempty]
    obtain ⟨hgrows, hknown, hsource, hsame⟩ :=
      foldl_append_registers monitors (entries, false) hempty
    refine ⟨hgrows, hknown, hsource, fun h => (hsame h).2, fun _ hnil => ?_⟩
    rw [hnil] at hgrows
    exact hempty (List.prefix_nil.mp hgrows)

/-! ## The slots -/

/-- The layout loop of `assign`, from any layout. -/
theorem foldl_insert_slotFor {entries : List String} {monitors : List Monitor}
    (hapart : (monitors.map fun m => m.id).Nodup) (hknown : ∀ m ∈ monitors, m.description ∈ entries)
    (l : MonitorLayout) :
    let l' := monitors.foldl (fun l m =>
      match MonitorRegistry.slotFor entries m.description with
      | some idx => l.insert m.id ⟨UInt8.ofNat idx⟩
      | none => l) l
    (∀ id, id ∉ monitors.map (fun m => m.id) → l'.slotFor id = l.slotFor id) ∧
    ∀ m ∈ monitors, l'.slotFor m.id = ⟨UInt8.ofNat (entries.idxOf m.description)⟩ := by
  induction monitors generalizing l with
  | nil => simp
  | cons m ms ih =>
    obtain ⟨hm, hms⟩ := List.nodup_cons.mp hapart
    obtain ⟨hother, hslots⟩ := ih hms (fun n hn => hknown n (List.mem_cons_of_mem _ hn))
      (l.insert m.id ⟨UInt8.ofNat (entries.idxOf m.description)⟩)
    simp only [List.foldl_cons, slotFor_mem (hknown m List.mem_cons_self)]
    refine ⟨fun id hid => ?_, fun n hn => ?_⟩
    · have hne : id ≠ m.id := fun he => hid (he ▸ List.mem_cons_self)
      rw [hother id fun h => hid (List.mem_cons_of_mem _ h)]
      exact l.slotFor_insert_of_ne _ hne
    · rcases List.mem_cons.mp hn with rfl | hn
      · rw [hother n.id hm]
        exact l.slotFor_insert _ _
      · exact hslots n hn

/-- A call on a file that holds `entries`. -/
theorem assign_spec {file : Option String} {c : Listing} {entries : List String}
    (hload : MonitorRegistry.load file = entries) (hown : ∀ e ∈ entries, OwnLine e)
    (hmonitors : ∀ m ∈ c.monitors, OwnLine m.description) :
    let entries' := (MonitorRegistry.register entries c.monitors).1
    let r := MonitorLayout.assign file c.monitors
    MonitorRegistry.load r.2 = entries' ∧ (∀ e ∈ entries', OwnLine e) ∧ entries <+: entries' ∧
    ∀ m ∈ c.monitors, m.description ∈ entries' ∧
      r.1.slotFor m.id = ⟨UInt8.ofNat (entries'.idxOf m.description)⟩ := by
  have hreg := register_registers entries c.monitors
  have hown' : ∀ e ∈ (MonitorRegistry.register entries c.monitors).1, OwnLine e := by
    intro e he
    rcases hreg.source e he with he | ⟨m, hm, rfl⟩
    · exact hown e he
    · exact hmonitors m hm
  refine ⟨?_, hown', hreg.grows, fun m hm => ⟨hreg.known m hm, ?_⟩⟩
  · simp only [MonitorLayout.assign, hload]
    cases hmodified : (MonitorRegistry.register entries c.monitors).2 with
    | false => simp [hload, hreg.same hmodified]
    | true => simpa using load_save (hreg.filled hmodified) hown'
  · simp only [MonitorLayout.assign, hload]
    exact (foldl_insert_slotFor c.apart hreg.known {}).2 m hm

/-- The entries after some calls, from entries that are there already. -/
def registeredFrom (entries : List String) (calls : List Listing) : List String :=
  calls.foldl (fun entries c => (MonitorRegistry.register entries c.monitors).1) entries

theorem prefix_registeredFrom (entries : List String) (calls : List Listing) :
    entries <+: registeredFrom entries calls := by
  induction calls generalizing entries with
  | nil => exact List.prefix_rfl
  | cons c cs ih => exact (register_registers entries c.monitors).grows.trans (ih _)

/-- The position of an entry does not change when others are appended. -/
theorem idxOf_of_prefix {entries final : List String} (h : entries <+: final) {d : String}
    (hd : d ∈ entries) : final.idxOf d = entries.idxOf d := by
  obtain ⟨more, rfl⟩ := h
  exact List.idxOf_append_of_mem hd

/-- Every monitor of every call has the slot that its number tells. -/
theorem assignAll_slotFor {calls : List Listing} {file : Option String} {entries : List String}
    (hload : MonitorRegistry.load file = entries) (hown : ∀ e ∈ entries, OwnLine e)
    (hcalls : ∀ c ∈ calls, ∀ m ∈ c.monitors, OwnLine m.description) :
    ∀ x ∈ assignAll file calls, x.1 ∈ calls ∧ ∀ m ∈ x.1.monitors,
      x.2.slotFor m.id = ⟨UInt8.ofNat ((registeredFrom entries calls).idxOf m.description)⟩ := by
  induction calls generalizing file entries with
  | nil => simp [assignAll]
  | cons c cs ih =>
    obtain ⟨hload', hown', hgrows, hslots⟩ :=
      assign_spec hload hown (hcalls c List.mem_cons_self)
    intro x hx
    rcases List.mem_cons.mp hx with rfl | hx
    · refine ⟨List.mem_cons_self, fun m hm => ?_⟩
      obtain ⟨hmem, hslot⟩ := hslots m hm
      have hfinal := idxOf_of_prefix (prefix_registeredFrom _ cs) hmem
      rw [hslot, ← hfinal]
      rfl
    · obtain ⟨hc, hm⟩ := ih hload' hown' (fun c hc => hcalls c (List.mem_cons_of_mem _ hc)) x hx
      exact ⟨List.mem_cons_of_mem _ hc, hm⟩

/-- Each call has its layout among the results. -/
theorem mem_assignAll {calls : List Listing} (file : Option String) {c : Listing}
    (hc : c ∈ calls) : ∃ l, (c, l) ∈ assignAll file calls := by
  induction calls generalizing file with
  | nil => cases hc
  | cons c' cs ih =>
    rcases List.mem_cons.mp hc with rfl | hc
    · exact ⟨_, List.mem_cons_self⟩
    · obtain ⟨l, hl⟩ := ih (MonitorLayout.assign file c'.monitors).2 hc
      exact ⟨l, List.mem_cons_of_mem _ hl⟩

theorem slot_eq_iff {a b : Nat} :
    (⟨UInt8.ofNat a⟩ : MonitorSlot) = ⟨UInt8.ofNat b⟩ ↔ a % 256 = b % 256 := by
  rw [MonitorSlot.mk.injEq, ← UInt8.toNat_inj]
  simp

/-- Where every description is a line of its own, each keeps one slot over all calls and
shares it with no other attached monitor, exactly if the descriptions listed together have
different numbers modulo 256. -/
theorem slots_kept_iff (calls : List Listing)
    (hown : ∀ c ∈ calls, ∀ m ∈ c.monitors, OwnLine m.description) :
    Stable (assignAll none calls) ∧ Apart (assignAll none calls) ↔ NumbersApart calls := by
  have hslots := @assignAll_slotFor calls none [] rfl (by simp) hown
  constructor
  · rintro ⟨-, hapart⟩ c hc m hm n hn hne hsame
    obtain ⟨l, hl⟩ := mem_assignAll none hc
    refine (hapart _ hl m hm n hn hne).1 ?_
    rw [(hslots _ hl).2 m hm, (hslots _ hl).2 n hn]
    exact slot_eq_iff.mpr hsame
  · intro hnumbers
    constructor
    · intro x hx y hy m hm n hn hsame
      rw [(hslots x hx).2 m hm, (hslots y hy).2 n hn, hsame]
    · intro x hx m hm n hn hne
      have hslot : x.2.slotFor m.id ≠ x.2.slotFor n.id := by
        rw [(hslots x hx).2 m hm, (hslots x hx).2 n hn]
        exact fun h => hnumbers x.1 (hslots x hx).1 m hm n hn hne (slot_eq_iff.mp h)
      exact ⟨hslot, fun v w h => hslot (hyprlandId_inj h).2⟩

/-! ## Concrete monitors -/

/-- A monitor of this id and description. -/
def sampleMonitor (id : Int) (description : String) : Monitor where
  id
  name := "DP-1"
  description
  activeWorkspace := 1

/-- Two monitors, then one that is new without the first, then all three. -/
def sampleCalls : List Listing :=
  [⟨[sampleMonitor 0 "Dell P2419H 7X2", sampleMonitor 1 "LG 27UL850 91"], by decide⟩,
    ⟨[sampleMonitor 1 "LG 27UL850 91", sampleMonitor 2 "Eizo EV2451 33"], by decide⟩,
    ⟨[sampleMonitor 0 "Eizo EV2451 33", sampleMonitor 3 "LG 27UL850 91",
      sampleMonitor 4 "Dell P2419H 7X2"], by decide⟩]

theorem slots_kept_iff_sample :
    Stable (assignAll none sampleCalls) ∧ Apart (assignAll none sampleCalls) := by
  have hown : ∀ c ∈ sampleCalls, ∀ m ∈ c.monitors, OwnLine m.description := by
    simp only [sampleCalls, sampleMonitor, OwnLine]
    decide
  have hnumbers : NumbersApart sampleCalls := by
    unfold NumbersApart
    decide
  exact (slots_kept_iff sampleCalls hown).mpr hnumbers

/-- A virtual monitor without a description, and one with. -/
def virtualCall : Listing :=
  ⟨[sampleMonitor 0 "", sampleMonitor 1 "Dell P2419H 7X2"], by decide⟩

/-- The line of the empty description is not read back, and the other monitor takes its
slot. -/
theorem slot_not_kept : ¬ ∀ calls, Stable (assignAll none calls) := by
  intro h
  have hslots := h [virtualCall, virtualCall]
  unfold Stable at hslots
  revert hslots
  decide

end Foundrix.HyprWorkspaced

import Mathlib.Data.Finset.Max
import Mathlib.Data.Finset.Range
import Foundrix.Nsw2.Poll

/-!
# Force-feedback effects

The kernel keeps a table of the effects that applications have uploaded, and the bridge
keeps one of its own. `process_ff` answers the kernel's requests one after the other.

* `handle`, `processFf`: the bridge's side.
* `Kernel`, `Request`, `Sys.step`: the kernel's side, and both together.
* `table_simulates_iff`: when the bridge's table agrees with the kernel's.
-/

namespace Foundrix.Nsw2

open Machine

/-! ## The bridge -/

/-- `MAX_FF_EFFECTS`. -/
def maxFfEffects : Nat := 16

inductive FfEffectKind where
  | rumble (strongMagnitude weakMagnitude : UInt16)
  /-- Any other kind, by its type. -/
  | other (type : Nat)
deriving DecidableEq, Repr

structure FfUpload where
  effectId : Nat
  kind : FfEffectKind
deriving DecidableEq, Repr

/-- An input event; the requests come with the answer of the ioctl that begins them. -/
inductive FfEvent where
  | upload (begun : Except String FfUpload)
  | erase (begun : Except String Nat)
  | forceFeedback (effectId : Nat) (value : Int)
  | other

/-- What `process_ff` does besides changing its table. -/
inductive FfOut where
  /-- The end of an upload: the effect id that was set, and the return value. -/
  | uploadEnded (effectId : Option Nat) (retval : Int)
  | sent (cmd : RumbleCmd)
deriving DecidableEq, Repr

/-- `effects` and `available_ids`. -/
structure FfTable where
  effects : Nat → Option FfEffectKind
  availableIds : Finset Nat

def FfTable.new : FfTable := ⟨fun _ => none, Finset.range maxFfEffects⟩

/-- The first element of an ordered set. -/
def first (s : Finset Nat) : Option Nat := if h : s.Nonempty then some (s.min' h) else none

/-- `FF_STATUS_STOPPED`. -/
def stopped : Int := 0

/-- `FF_STATUS_PLAYING`. -/
def playing : Int := 1

/-- The loop body of `process_ff`. -/
def handle (t : FfTable) : FfEvent → Except String (FfTable × List FfOut)
  | .upload (.error e) => .error s!"process FF upload: {e}"
  | .upload (.ok upload) =>
    match first t.availableIds with
    | some id =>
      .ok (⟨Function.update t.effects id (some upload.kind), t.availableIds.erase id⟩,
        [.uploadEnded (some id) 0])
    | none => .ok (t, [.uploadEnded none (-1)])
  | .erase (.error e) => .error s!"process FF erase: {e}"
  | .erase (.ok id) => .ok (⟨Function.update t.effects id none, insert id t.availableIds⟩, [])
  | .forceFeedback id value =>
    if value = playing then
      match t.effects id with
      | some (.rumble strong weak) => .ok (t, [.sent (.play strong weak)])
      | _ => .ok (t, [])
    else if value = stopped then .ok (t, [.sent .stop])
    else .ok (t, [])
  | .other => .ok (t, [])

/-- The events of one `fetch_events`; an error ends the loop, and the bridge. -/
def processFf (t : FfTable) : List FfEvent → Except String (FfTable × List FfOut)
  | [] => .ok (t, [])
  | e :: es =>
    match handle t e with
    | .error err => .error err
    | .ok (t', outs) => (processFf t' es).map fun r => (r.1, outs ++ r.2)

/-- How the events are split into batches does not matter. -/
theorem processFf_append (t : FfTable) (es fs : List FfEvent) :
    processFf t (es ++ fs) = (processFf t es).bind fun r =>
      (processFf r.1 fs).map fun r' => (r'.1, r.2 ++ r'.2) := by
  induction es generalizing t with
  | nil =>
    simp only [List.nil_append, processFf, Except.bind]
    cases processFf t fs <;> rfl
  | cons e es ih =>
    simp only [List.cons_append, processFf]
    cases handle t e with
    | error err => rfl
    | ok r =>
      obtain ⟨t', outs⟩ := r
      simp only [ih t']
      cases processFf t' es with
      | error err => rfl
      | ok r₁ =>
        simp only [Except.bind, Except.map]
        cases processFf r₁.1 fs <;> simp

/-! ## The kernel -/

/-- The effects that are live in the kernel. -/
structure Kernel where
  live : Nat → Option FfEffectKind

/-- The ids that the kernel can still assign. -/
def Kernel.free (k : Kernel) : Finset Nat :=
  (Finset.range maxFfEffects).filter fun id => k.live id = none

/-- What applications ask of the kernel. -/
inductive Request where
  | upload (kind : FfEffectKind)
  /-- Upload an effect that is live once more, with another kind. -/
  | update (id : Nat) (kind : FfEffectKind)
  | erase (id : Nat)
  | force (id : Nat) (value : Int)
deriving DecidableEq, Repr

/-- The kernel turns away a new effect where no id is free, and requests for effects that
are not live. -/
def Request.Enabled (k : Kernel) : Request → Prop
  | .upload _ => k.free.Nonempty
  | .update id _ | .erase id | .force id _ => k.live id ≠ none

/-- The event by which the bridge learns of a request. -/
def Request.event (k : Kernel) : Request → FfEvent
  | .upload kind => .upload (.ok ⟨(first k.free).getD 0, kind⟩)
  | .update id kind => .upload (.ok ⟨id, kind⟩)
  | .erase id => .erase (.ok id)
  | .force id value => .forceFeedback id value

/-- Whether an upload was accepted. -/
def accepted (outs : List FfOut) : Bool :=
  outs.any fun o => match o with
    | .uploadEnded _ retval => retval == 0
    | _ => false

/-- The kernel's table after a request; an effect is kept as it was where the bridge
refused it. The id that the bridge set is not looked at. -/
def Request.effect (k : Kernel) (outs : List FfOut) : Request → Kernel
  | .upload kind =>
    if accepted outs then ⟨Function.update k.live ((first k.free).getD 0) (some kind)⟩ else k
  | .update id kind => if accepted outs then ⟨Function.update k.live id (some kind)⟩ else k
  | .erase id => ⟨Function.update k.live id none⟩
  | .force _ _ => k

/-! ## Both together -/

structure Sys where
  kernel : Kernel
  table : FfTable
  /-- What the last event made the bridge do. -/
  outs : List FfOut

def Sys.initial : Sys := ⟨⟨fun _ => none⟩, .new, []⟩

/-- One request, answered by `process_ff`. -/
def Sys.step (s : Sys) (r : Request) (s' : Sys) : Prop :=
  r.Enabled s.kernel ∧
    processFf s.table [r.event s.kernel] = .ok (s'.table, s'.outs) ∧
    s'.kernel = r.effect s.kernel s'.outs

/-- `effects` holds the kernel's live effects, and `available_ids` all other ids. -/
def Simulates (s : Sys) : Prop :=
  s.table.effects = s.kernel.live ∧ s.table.availableIds = s.kernel.free

/-- An effect is uploaded once more while the kernel has an id to spare. -/
def EarlyUpdate (s : Sys) : Request → Prop
  | .update _ _ => s.kernel.free.Nonempty
  | _ => False

/-! ## What one request does -/

theorem first_some {s : Finset Nat} {id : Nat} (h : first s = some id) : id ∈ s := by
  unfold first at h
  split at h
  · rename_i hs
    cases h
    exact s.min'_mem hs
  · cases h

theorem first_le {s : Finset Nat} {id a : Nat} (h : first s = some id) (ha : a ∈ s) : id ≤ a := by
  unfold first at h
  split at h
  · cases h
    exact s.min'_le a ha
  · cases h

theorem first_none {s : Finset Nat} (h : first s = none) : s = ∅ := by
  unfold first at h
  split at h
  · cases h
  · rename_i hs
    exact Finset.not_nonempty_iff_eq_empty.mp hs

theorem first_of_nonempty {s : Finset Nat} (h : s.Nonempty) : ∃ id, first s = some id := by
  cases hf : first s with
  | some id => exact ⟨id, rfl⟩
  | none =>
    have hempty := first_none hf
    exact absurd h (hempty ▸ Finset.not_nonempty_empty)

theorem Kernel.mem_free {k : Kernel} {id : Nat} : id ∈ k.free ↔ id < 16 ∧ k.live id = none := by
  simp [Kernel.free, maxFfEffects]

/-- The bridge takes an upload under its own first id, or refuses it. -/
def FfTable.upload (t : FfTable) (kind : FfEffectKind) : FfTable × List FfOut :=
  match first t.availableIds with
  | some id => (⟨Function.update t.effects id (some kind), t.availableIds.erase id⟩,
      [.uploadEnded (some id) 0])
  | none => (t, [.uploadEnded none (-1)])

theorem processFf_upload (t : FfTable) (u : FfUpload) :
    processFf t [.upload (.ok u)] = .ok (t.upload u.kind) := by
  unfold FfTable.upload
  cases h : first t.availableIds <;> simp [processFf, handle, h, Except.map]

theorem processFf_erase (t : FfTable) (id : Nat) :
    processFf t [.erase (.ok id)] =
      .ok (⟨Function.update t.effects id none, insert id t.availableIds⟩, []) := by
  simp [processFf, handle, Except.map]

/-- A force-feedback event leaves the table as it is. -/
theorem processFf_force (t : FfTable) (id : Nat) (value : Int) :
    ∃ outs, processFf t [.forceFeedback id value] = .ok (t, outs) ∧ accepted outs = false ∧
      (∀ e, .uploadEnded e (-1) ∉ outs) ∧
      ∀ strong weak, value = playing → t.effects id = some (.rumble strong weak) →
        outs = [.sent (.play strong weak)] := by
  by_cases hplay : value = playing
  · subst hplay
    cases he : t.effects id with
    | none => exact ⟨[], by simp [processFf, handle, he, Except.map], rfl, by simp, by simp⟩
    | some kind =>
      cases kind with
      | rumble strong weak =>
        refine ⟨[.sent (.play strong weak)], by simp [processFf, handle, he, Except.map], rfl,
          by simp, ?_⟩
        rintro strong' weak' - heq
        cases heq
        rfl
      | other type =>
        exact ⟨[], by simp [processFf, handle, he, Except.map], rfl, by simp, by simp⟩
  · by_cases hstop : value = stopped
    · have hne : ¬ stopped = playing := by decide
      refine ⟨[.sent .stop], ?_, rfl, by simp, fun _ _ h => absurd h hplay⟩
      simp [processFf, handle, hstop, hne, Except.map]
    · refine ⟨[], ?_, rfl, by simp, fun _ _ h => absurd h hplay⟩
      simp [processFf, handle, hplay, hstop, Except.map]

/-- What one request does to both tables. -/
theorem step_cases {s s' : Sys} {r : Request} (h : s.step r s') :
    (∃ kind, r = .upload kind ∧ s.kernel.free.Nonempty ∧
      (s'.table, s'.outs) = s.table.upload kind ∧
      s'.kernel = (Request.upload kind).effect s.kernel s'.outs) ∨
    (∃ id kind, r = .update id kind ∧ s.kernel.live id ≠ none ∧
      (s'.table, s'.outs) = s.table.upload kind ∧
      s'.kernel = (Request.update id kind).effect s.kernel s'.outs) ∨
    (∃ id, r = .erase id ∧ s.kernel.live id ≠ none ∧ s'.outs = [] ∧
      s'.table = ⟨Function.update s.table.effects id none, insert id s.table.availableIds⟩ ∧
      s'.kernel = ⟨Function.update s.kernel.live id none⟩) ∨
    (∃ id value, r = .force id value ∧ s'.table = s.table ∧ s'.kernel = s.kernel ∧
      (∀ e, .uploadEnded e (-1) ∉ s'.outs) ∧
      ∀ strong weak, value = playing → s.table.effects id = some (.rumble strong weak) →
        s'.outs = [.sent (.play strong weak)]) := by
  obtain ⟨henabled, hproc, hkernel⟩ := h
  cases r with
  | upload kind =>
    rw [Request.event, processFf_upload] at hproc
    exact Or.inl ⟨kind, rfl, henabled, (Except.ok.inj hproc).symm, hkernel⟩
  | update id kind =>
    rw [Request.event, processFf_upload] at hproc
    exact Or.inr (Or.inl ⟨id, kind, rfl, henabled, (Except.ok.inj hproc).symm, hkernel⟩)
  | erase id =>
    rw [Request.event, processFf_erase] at hproc
    obtain ⟨htable, houts⟩ := Prod.mk.inj (Except.ok.inj hproc)
    exact Or.inr (Or.inr (Or.inl ⟨id, rfl, henabled, houts.symm, htable.symm, hkernel⟩))
  | force id value =>
    obtain ⟨outs, hforce, -, hrefused, hplay⟩ := processFf_force s.table id value
    rw [Request.event, hforce] at hproc
    obtain ⟨htable, houts⟩ := Prod.mk.inj (Except.ok.inj hproc)
    subst houts
    exact Or.inr (Or.inr (Or.inr ⟨id, value, rfl, htable.symm, hkernel, hrefused, hplay⟩))

/-! ## The tables agree -/

theorem free_update_some {k : Kernel} {id : Nat} (kind : FfEffectKind) :
    Kernel.free ⟨Function.update k.live id (some kind)⟩ = k.free.erase id := by
  ext a
  by_cases ha : a = id
  · simp [Kernel.free, ha]
  · simp [Kernel.free, ha]

theorem free_update_none {k : Kernel} {id : Nat} (hid : id < 16) :
    Kernel.free ⟨Function.update k.live id none⟩ = insert id k.free := by
  ext a
  by_cases ha : a = id
  · simp [Kernel.free, maxFfEffects, ha, hid]
  · simp [Kernel.free, ha]

/-- Only ids below 16 are ever live. -/
def InRange (s : Sys) : Prop := ∀ id, s.kernel.live id ≠ none → id < 16

theorem step_simulates {s s' : Sys} {r : Request} (h : s.step r s') (hrange : InRange s)
    (hsim : Simulates s) (hearly : ¬ EarlyUpdate s r) : Simulates s' := by
  obtain ⟨heffects, havailable⟩ := hsim
  obtain ⟨kind, rfl, hfree, htable, hkernel⟩ | ⟨id, kind, rfl, hlive, htable, hkernel⟩ |
    ⟨id, rfl, hlive, houts, htable, hkernel⟩ | ⟨id, value, rfl, htable, hkernel, -⟩ := step_cases h
  · obtain ⟨id, hid⟩ := first_of_nonempty hfree
    simp only [FfTable.upload, havailable, hid, Prod.mk.injEq] at htable
    have hk : s'.kernel = ⟨Function.update s.kernel.live id (some kind)⟩ := by
      simp [hkernel, htable.2, Request.effect, accepted, hid]
    constructor
    · rw [htable.1, hk, heffects]
    · rw [htable.1, hk, free_update_some]
  · -- no id is free, and the bridge refuses
    have hempty : ¬ s.kernel.free.Nonempty := hearly
    have hnone : first s.kernel.free = none := by
      unfold first
      rw [dif_neg hempty]
    simp only [FfTable.upload, havailable, hnone, Prod.mk.injEq] at htable
    have hk : s'.kernel = s.kernel := by simp [hkernel, htable.2, Request.effect, accepted]
    exact ⟨by rw [htable.1, hk, heffects], by rw [htable.1, hk, havailable]⟩
  · constructor
    · rw [htable, hkernel, heffects]
    · rw [htable, hkernel, free_update_none (hrange id hlive), havailable]
  · exact ⟨by rw [htable, hkernel, heffects], by rw [htable, hkernel, havailable]⟩

/-! ## The tables have drifted apart -/

/-- The bridge holds everything that is live in the kernel, and its two halves agree. -/
structure Covers (s : Sys) : Prop where
  range : InRange s
  live : ∀ id, s.kernel.live id ≠ none → s.table.effects id ≠ none
  available : ∀ id, id ∈ s.table.availableIds ↔ id < 16 ∧ s.table.effects id = none

/-- The bridge holds an effect that is not live. -/
def Drifted (s : Sys) : Prop := ∃ id, s.table.effects id ≠ none ∧ s.kernel.live id = none

theorem Drifted.not_simulates {s : Sys} (h : Drifted s) : ¬ Simulates s := by
  rintro ⟨heffects, -⟩
  obtain ⟨id, heffect, hlive⟩ := h
  exact heffect (heffects ▸ hlive)

/-- An upload is refused where the bridge has no id, and else gets its first one. -/
theorem upload_cases (t : FfTable) (kind : FfEffectKind) :
    (t.availableIds = ∅ ∧ t.upload kind = (t, [.uploadEnded none (-1)])) ∨
    ∃ id ∈ t.availableIds, (∀ a ∈ t.availableIds, id ≤ a) ∧
      t.upload kind = (⟨Function.update t.effects id (some kind), t.availableIds.erase id⟩,
        [.uploadEnded (some id) 0]) := by
  unfold FfTable.upload
  cases h : first t.availableIds with
  | none => exact Or.inl ⟨first_none h, rfl⟩
  | some id => exact Or.inr ⟨id, first_some h, fun a ha => first_le h ha, rfl⟩

/-- The bridge's half of an accepted upload. -/
theorem available_upload {t : FfTable} {id : Nat} {kind : FfEffectKind}
    (h : ∀ a, a ∈ t.availableIds ↔ a < 16 ∧ t.effects a = none) (a : Nat) :
    a ∈ t.availableIds.erase id ↔
      a < 16 ∧ Function.update t.effects id (some kind) a = none := by
  by_cases ha : a = id
  · simp [ha]
  · simp [ha, h a]

/-- The id that the bridge takes for a new effect is the kernel's, or the bridge holds an
effect under the kernel's id already. -/
theorem Covers.upload_id {s : Sys} (h : Covers s) {i j : Nat} (hi : first s.kernel.free = some i)
    (hj : j ∈ s.table.availableIds) (hmin : ∀ a ∈ s.table.availableIds, j ≤ a) :
    i = j ∨ s.table.effects i ≠ none := by
  by_cases heffect : s.table.effects i = none
  · have hfree := Kernel.mem_free.mp (first_some hi)
    have hji : j ≤ i := hmin i ((h.available i).mpr ⟨hfree.1, heffect⟩)
    have hbridge := (h.available j).mp hj
    have hlive : s.kernel.live j = none := by
      by_contra hne
      exact h.live j hne hbridge.2
    have hij : i ≤ j := first_le hi (Kernel.mem_free.mpr ⟨hbridge.1, hlive⟩)
    exact Or.inl (by omega)
  · exact Or.inr heffect

/-- An accepted update: the bridge holds the effect under one more id. -/
theorem step_update {s s' : Sys} {id : Nat} {kind : FfEffectKind} (h : s.step (.update id kind) s')
    (hcovers : Covers s) :
    (s'.table = s.table ∧ s'.kernel = s.kernel ∧ s.table.availableIds = ∅) ∨
    ∃ j ∈ s.table.availableIds, s.kernel.live id ≠ none ∧ s.kernel.live j = none ∧
      s'.table = ⟨Function.update s.table.effects j (some kind), s.table.availableIds.erase j⟩ ∧
      s'.kernel = ⟨Function.update s.kernel.live id (some kind)⟩ := by
  obtain ⟨hlive, hproc, hkernel⟩ := h
  rw [Request.event, processFf_upload] at hproc
  have htable := (Except.ok.inj hproc).symm
  rcases upload_cases s.table kind with ⟨hempty, hup⟩ | ⟨j, hj, -, hup⟩
  · obtain ⟨htable, houts⟩ := Prod.mk.inj (htable.trans hup)
    have hk : s'.kernel = s.kernel := by simp [hkernel, houts, Request.effect, accepted]
    exact Or.inl ⟨htable, hk, hempty⟩
  · obtain ⟨htable, houts⟩ := Prod.mk.inj (htable.trans hup)
    have hk : s'.kernel = ⟨Function.update s.kernel.live id (some kind)⟩ := by
      simp [hkernel, houts, Request.effect, accepted]
    have hnone : s.kernel.live j = none := by
      by_contra hne
      exact hcovers.live j hne ((hcovers.available j).mp hj).2
    exact Or.inr ⟨j, hj, hlive, hnone, htable, hk⟩

/-- A new effect: refused by the bridge, or live under the kernel's id. -/
theorem step_upload {s s' : Sys} {kind : FfEffectKind} (h : s.step (.upload kind) s') :
    (s'.table = s.table ∧ s'.kernel = s.kernel ∧ s.table.availableIds = ∅) ∨
    ∃ i j, first s.kernel.free = some i ∧ j ∈ s.table.availableIds ∧
      (∀ a ∈ s.table.availableIds, j ≤ a) ∧
      s'.table = ⟨Function.update s.table.effects j (some kind), s.table.availableIds.erase j⟩ ∧
      s'.kernel = ⟨Function.update s.kernel.live i (some kind)⟩ := by
  obtain ⟨hfree, hproc, hkernel⟩ := h
  rw [Request.event, processFf_upload] at hproc
  have htable := (Except.ok.inj hproc).symm
  obtain ⟨i, hi⟩ := first_of_nonempty hfree
  rcases upload_cases s.table kind with ⟨hempty, hup⟩ | ⟨j, hj, hmin, hup⟩
  · obtain ⟨htable, houts⟩ := Prod.mk.inj (htable.trans hup)
    have hk : s'.kernel = s.kernel := by simp [hkernel, houts, Request.effect, accepted]
    exact Or.inl ⟨htable, hk, hempty⟩
  · obtain ⟨htable, houts⟩ := Prod.mk.inj (htable.trans hup)
    have hk : s'.kernel = ⟨Function.update s.kernel.live i (some kind)⟩ := by
      simp [hkernel, houts, Request.effect, accepted, hi]
    exact Or.inr ⟨i, j, hi, hj, hmin, htable, hk⟩

theorem step_covers {s s' : Sys} {r : Request} (h : s.step r s') (hc : Covers s) : Covers s' := by
  obtain ⟨kind, rfl, -⟩ | ⟨id, kind, rfl, -⟩ | ⟨id, rfl, hlive, -, htable, hkernel⟩ |
    ⟨id, value, rfl, htable, hkernel, -⟩ := step_cases h
  · rcases step_upload h with ⟨htable, hkernel, -⟩ | ⟨i, j, hi, hj, hmin, htable, hkernel⟩
    · exact ⟨fun a ha => hc.range a (hkernel ▸ ha), fun a ha => htable ▸ hc.live a (hkernel ▸ ha),
        htable ▸ hc.available⟩
    · refine ⟨fun a ha => ?_, fun a ha => ?_, htable ▸ available_upload hc.available⟩
      · by_cases hai : a = i
        · exact hai ▸ (Kernel.mem_free.mp (first_some hi)).1
        · refine hc.range a ?_
          simpa [hkernel, hai] using ha
      · by_cases haj : a = j
        · simp [htable, haj]
        · rw [htable]
          simp only [ne_eq, Function.update_of_ne haj]
          by_cases hai : a = i
          · rcases hc.upload_id hi hj hmin with hij | heffect
            · exact absurd (hai.trans hij) haj
            · exact hai ▸ heffect
          · refine hc.live a ?_
            simpa [hkernel, hai] using ha
  · rcases step_update h hc with ⟨htable, hkernel, -⟩ | ⟨j, hj, hid, hnone, htable, hkernel⟩
    · exact ⟨fun a ha => hc.range a (hkernel ▸ ha), fun a ha => htable ▸ hc.live a (hkernel ▸ ha),
        htable ▸ hc.available⟩
    · have hlive : ∀ a, s'.kernel.live a ≠ none → s.kernel.live a ≠ none := by
        intro a ha
        by_cases haid : a = id
        · exact haid ▸ hid
        · simpa [hkernel, haid] using ha
      refine ⟨fun a ha => hc.range a (hlive a ha), fun a ha => ?_,
        htable ▸ available_upload hc.available⟩
      by_cases haj : a = j
      · simp [htable, haj]
      · simpa [htable, haj] using hc.live a (hlive a ha)
  · have hne : ∀ a, s'.kernel.live a ≠ none → a ≠ id ∧ s.kernel.live a ≠ none := by
      intro a ha
      by_cases haid : a = id
      · exact absurd (by simp [hkernel, haid]) ha
      · exact ⟨haid, by simpa [hkernel, haid] using ha⟩
    refine ⟨fun a ha => hc.range a (hne a ha).2, fun a ha => ?_, fun a => ?_⟩
    · simpa [htable, (hne a ha).1] using hc.live a (hne a ha).2
    · rw [htable]
      by_cases haid : a = id
      · simp [haid, hc.range id hlive]
      · simp [haid, hc.available a]
  · exact ⟨fun a ha => hc.range a (hkernel ▸ ha), fun a ha => htable ▸ hc.live a (hkernel ▸ ha),
      htable ▸ hc.available⟩

/-- Once the tables have drifted apart they never agree again. -/
theorem step_drifted {s s' : Sys} {r : Request} (h : s.step r s') (hc : Covers s)
    (hd : Drifted s) : Drifted s' := by
  obtain ⟨e, heffect, hlive⟩ := hd
  obtain ⟨kind, rfl, -⟩ | ⟨id, kind, rfl, -⟩ | ⟨id, rfl, hid, -, htable, hkernel⟩ |
    ⟨id, value, rfl, htable, hkernel, -⟩ := step_cases h
  · rcases step_upload h with ⟨htable, hkernel, -⟩ | ⟨i, j, hi, hj, hmin, htable, hkernel⟩
    · exact ⟨e, htable ▸ heffect, hkernel ▸ hlive⟩
    · have hbridge := (hc.available j).mp hj
      have hej : e ≠ j := fun he => heffect (he ▸ hbridge.2)
      by_cases hei : e = i
      · -- the kernel takes the id of the stray effect, and the bridge a stray one more
        have hji : j ≠ i := fun he => hej (hei.trans he.symm)
        have hnone : s.kernel.live j = none := by
          by_contra hne
          exact hc.live j hne hbridge.2
        exact ⟨j, by simp [htable], by simp [hkernel, hji, hnone]⟩
      · exact ⟨e, by simpa [htable, hej] using heffect, by simpa [hkernel, hei] using hlive⟩
  · rcases step_update h hc with ⟨htable, hkernel, -⟩ | ⟨j, hj, hid, hnone, htable, hkernel⟩
    · exact ⟨e, htable ▸ heffect, hkernel ▸ hlive⟩
    · have hej : e ≠ j := fun he => heffect (he ▸ ((hc.available j).mp hj).2)
      have heid : e ≠ id := fun he => hid (he ▸ hlive)
      exact ⟨e, by simpa [htable, hej] using heffect, by simpa [hkernel, heid] using hlive⟩
  · have heid : e ≠ id := fun he => hid (he ▸ hlive)
    exact ⟨e, by simpa [htable, heid] using heffect, by simpa [hkernel, heid] using hlive⟩
  · exact ⟨e, htable ▸ heffect, hkernel ▸ hlive⟩

/-- An early update makes the tables drift apart. -/
theorem step_early {s s' : Sys} {r : Request} (h : s.step r s') (hc : Covers s)
    (hsim : Simulates s) (hearly : EarlyUpdate s r) : Drifted s' := by
  cases r with
  | update id kind =>
    have hfree : s.kernel.free.Nonempty := hearly
    rcases step_update h hc with ⟨-, -, hempty⟩ | ⟨j, hj, hid, hnone, htable, hkernel⟩
    · rw [← hsim.2, hempty] at hfree
      exact absurd hfree Finset.not_nonempty_empty
    · have hjid : j ≠ id := fun he => hid (he ▸ hnone)
      exact ⟨j, by simp [htable], by simp [hkernel, hjid, hnone]⟩
  | upload => exact hearly.elim
  | erase => exact hearly.elim
  | force => exact hearly.elim

/-! ## Whole runs -/

theorem initial_simulates : Simulates .initial := by
  refine ⟨rfl, ?_⟩
  ext a
  simp [Sys.initial, FfTable.new, Kernel.free]

theorem initial_covers : Covers .initial := by
  refine ⟨fun id h => absurd rfl h, fun id h => absurd rfl h, fun id => ?_⟩
  simp [Sys.initial, FfTable.new, maxFfEffects]

/-- An upload is refused only where the kernel has no id. -/
def RefusedOnlyFull (l : List (Sys × Request)) : Prop :=
  ∀ x ∈ l, ∀ s', x.1.step x.2 s' → ∀ e, .uploadEnded e (-1) ∈ s'.outs → x.1.kernel.free = ∅

/-- Playing a rumble effect sends the magnitudes that were last uploaded for it. -/
def PlaysLatest (l : List (Sys × Request)) : Prop :=
  ∀ x ∈ l, ∀ s', x.1.step x.2 s' → ∀ id strong weak, x.2 = .force id playing →
    x.1.kernel.live id = some (.rumble strong weak) → s'.outs = [.sent (.play strong weak)]

theorem run_drifted {l : List (Sys × Request)} {s t : Sys} (h : Trace Sys.step s l t)
    (hc : Covers s) (hd : Drifted s) : Drifted t := by
  have hboth : Covers t ∧ Drifted t :=
    h.keeps (J := fun u => Covers u ∧ Drifted u) ⟨hc, hd⟩
      fun _ hj hs => ⟨step_covers hs hj.1, step_drifted hs hj.1 hj.2⟩
  exact hboth.2

/-- A run without early updates keeps the tables in agreement; any other one ends with
tables that have drifted apart. -/
theorem run_simulates_or_drifted {l : List (Sys × Request)} {s t : Sys}
    (h : Trace Sys.step s l t) (hc : Covers s) (hsim : Simulates s) :
    ((∀ x ∈ l, ¬ EarlyUpdate x.1 x.2) ∧ Simulates t ∧ ∀ x ∈ l, Simulates x.1) ∨
    ((∃ x ∈ l, EarlyUpdate x.1 x.2) ∧ Drifted t) := by
  induction h with
  | nil s => exact Or.inl ⟨by simp, hsim, by simp⟩
  | @cons s t u r l first rest ih =>
    by_cases hearly : EarlyUpdate s r
    · have hdrift := run_drifted rest (step_covers first hc) (step_early first hc hsim hearly)
      exact Or.inr ⟨⟨(s, r), List.mem_cons_self, hearly⟩, hdrift⟩
    · have hnext := step_simulates first hc.range hsim hearly
      rcases ih (step_covers first hc) hnext with ⟨hnone, hend, hall⟩ | ⟨⟨x, hx, hex⟩, hdrift⟩
      · refine Or.inl ⟨?_, hend, ?_⟩
        · exact List.forall_mem_cons.mpr ⟨hearly, hnone⟩
        · exact List.forall_mem_cons.mpr ⟨hsim, hall⟩
      · exact Or.inr ⟨⟨x, List.mem_cons_of_mem _ hx, hex⟩, hdrift⟩

/-- Where the tables agree, a refused upload finds the kernel without a free id. -/
theorem refused_full {s s' : Sys} {r : Request} (h : s.step r s') (hsim : Simulates s)
    {e : Option Nat} (hout : .uploadEnded e (-1) ∈ s'.outs) : s.kernel.free = ∅ := by
  have refused : ∀ kind, (s'.table, s'.outs) = s.table.upload kind → s.kernel.free = ∅ := by
    intro kind htable
    rcases upload_cases s.table kind with ⟨hempty, -⟩ | ⟨id, -, -, hup⟩
    · exact hsim.2 ▸ hempty
    · rw [(Prod.mk.inj (htable.trans hup)).2] at hout
      simp at hout
  obtain ⟨kind, -, -, htable, -⟩ | ⟨id, kind, -, -, htable, -⟩ | ⟨id, -, -, houts, -⟩ |
    ⟨id, value, -, -, -, hnone, -⟩ := step_cases h
  · exact refused kind htable
  · exact refused kind htable
  · simp [houts] at hout
  · exact absurd hout (hnone e)

/-- For every sequence of requests that the kernel can issue, in batches of any size: the
bridge's table simulates the kernel's, uploads are refused only where the kernel is full and
a rumble effect is played with its latest magnitudes, exactly if no effect was uploaded once
more while the kernel had a free id. -/
theorem table_simulates_iff (l : List (Sys × Request)) (s : Sys)
    (h : Trace Sys.step .initial l s) :
    (Simulates s ∧ RefusedOnlyFull l ∧ PlaysLatest l) ↔ ∀ x ∈ l, ¬ EarlyUpdate x.1 x.2 := by
  constructor
  · rintro ⟨hsim, -, -⟩
    rcases run_simulates_or_drifted h initial_covers initial_simulates with ⟨hnone, -⟩ | ⟨-, hdrift⟩
    · exact hnone
    · exact absurd hsim hdrift.not_simulates
  · intro hnone
    rcases run_simulates_or_drifted h initial_covers initial_simulates with
      ⟨-, hsim, hall⟩ | ⟨⟨x, hx, hearly⟩, -⟩
    · refine ⟨hsim, fun x hx s' hs e hout => refused_full hs (hall x hx) hout, ?_⟩
      rintro ⟨u, r⟩ hx s' hs id strong weak rfl hlive
      obtain ⟨-, hproc, -⟩ := hs
      have heffect : u.table.effects id = some (.rumble strong weak) := by
        rw [(hall _ hx).1]
        exact hlive
      obtain ⟨outs, hforce, -, -, hplay⟩ := processFf_force u.table id playing
      rw [Request.event, hforce] at hproc
      rw [← (Prod.mk.inj (Except.ok.inj hproc)).2]
      exact hplay strong weak rfl heffect
    · exact absurd hearly (hnone x hx)

/-! ## Concrete requests -/

instance (k : Kernel) (r : Request) : Decidable (r.Enabled k) := by
  cases r <;> unfold Request.Enabled <;> infer_instance

instance (s : Sys) (r : Request) : Decidable (EarlyUpdate s r) := by
  cases r <;> unfold EarlyUpdate <;> infer_instance

/-- The state after a request, where the kernel issues it and the bridge goes on. -/
def Sys.next (s : Sys) (r : Request) : Option Sys :=
  if r.Enabled s.kernel then
    match processFf s.table [r.event s.kernel] with
    | .ok (table, outs) => some ⟨r.effect s.kernel outs, table, outs⟩
    | .error _ => none
  else none

theorem next_step {s s' : Sys} {r : Request} (h : s.next r = some s') : s.step r s' := by
  unfold Sys.next at h
  split at h
  · rename_i hr
    cases hproc : processFf s.table [r.event s.kernel] with
    | error e => rw [hproc] at h; cases h
    | ok res =>
      rw [hproc] at h
      cases h
      exact ⟨hr, hproc, rfl⟩
  · cases h

theorem trace_of_next {rs : List Request} {l : List (Sys × Request)} {s : Sys}
    (h : replay Sys.next .initial rs = some (l, s)) : Trace Sys.step .initial l s :=
  (trace_of_replay h).mono fun hs => next_step hs

/-- Two effects, the first of them played and erased, and a third one in its place. -/
def sampleRequests : List Request :=
  [.upload (.rumble 512 256), .upload (.other 81), .force 0 playing, .erase 0,
    .upload (.rumble 100 50), .force 0 playing]

theorem table_simulates_iff_sample :
    ∃ l s, replay Sys.next .initial sampleRequests = some (l, s) ∧
      s.outs = [.sent (.play 100 50)] ∧ Simulates s ∧ RefusedOnlyFull l ∧ PlaysLatest l := by
  have hend : ∃ r, replay Sys.next .initial sampleRequests = some r ∧
      r.2.outs = [.sent (.play 100 50)] ∧ ∀ x ∈ r.1, ¬ EarlyUpdate x.1 x.2 :=
    ⟨_, rfl, by decide, by decide⟩
  obtain ⟨⟨l, s⟩, hr, houts, hnone⟩ := hend
  exact ⟨l, s, hr, houts, (table_simulates_iff l s (trace_of_next hr)).mpr hnone⟩

/-- An effect whose magnitudes are changed is held twice. -/
theorem updated_effect_held_twice :
    ¬ ∀ (l : List (Sys × Request)) (s : Sys), Trace Sys.step .initial l s → Simulates s := by
  intro h
  have hend : ∃ r, replay Sys.next .initial
      [.upload (.rumble 512 256), .update 0 (.rumble 100 50)] = some r ∧
      r.2.table.effects 1 = some (.rumble 100 50) ∧ r.2.kernel.live 1 = none :=
    ⟨_, rfl, by decide, by decide⟩
  obtain ⟨⟨l, s⟩, hr, heffect, hlive⟩ := hend
  have hsim := h l s (trace_of_next hr)
  rw [hsim.1, hlive] at heffect
  cases heffect

end Foundrix.Nsw2

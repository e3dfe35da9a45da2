import Foundrix.VarDisk.Classify

/-!
# What a plan is decided by

`plan` depends on how often each class occurs among the disks, and on nothing else.

* `Blocked`, `Decides`: which plan is the one for a set of disks, without reference to `plan`.
* `Plan.Same`: equal up to the text of a `Block` reason.
* `plan_decides`: the plan is the one decided, for disks in any order, whatever foreign disks
  are among them.
-/

namespace Foundrix.VarDisk

variable {disks disks' : List (String × DiskClass)}

/-- How many disks of a class there are. -/
def occurrences (c : DiskClass) (disks : List (String × DiskClass)) : Nat :=
  disks.countP fun d => d.2 = c

/-- A class other than `Foreign` occurs twice, or an encrypted and a legacy volume occur. -/
def Blocked (disks : List (String × DiskClass)) : Prop :=
  2 ≤ occurrences .luks disks ∨ 2 ≤ occurrences .legacy disks ∨ 2 ≤ occurrences .blank disks ∨
    (1 ≤ occurrences .luks disks ∧ 1 ≤ occurrences .legacy disks)

/-- The plan is the one for these disks. -/
def Decides (disks : List (String × DiskClass)) : Plan → Prop
  | .block _ => Blocked disks
  | .unlock l => ¬ Blocked disks ∧ (l, .luks) ∈ disks
  | .migrate old new => ¬ Blocked disks ∧ occurrences .luks disks = 0 ∧
      (old, .legacy) ∈ disks ∧ (new, .blank) ∈ disks
  | .bootLegacy old => ¬ Blocked disks ∧ occurrences .luks disks = 0 ∧
      (old, .legacy) ∈ disks ∧ occurrences .blank disks = 0
  | .provision new => ¬ Blocked disks ∧ occurrences .luks disks = 0 ∧
      occurrences .legacy disks = 0 ∧ (new, .blank) ∈ disks
  | .noDisks => occurrences .luks disks = 0 ∧ occurrences .legacy disks = 0 ∧
      occurrences .blank disks = 0

/-- Equal, up to the reason of a block. -/
def Plan.Same : Plan → Plan → Prop
  | .block _, q => ∃ reason, q = .block reason
  | p, q => p = q

theorem Plan.Same.refl (p : Plan) : p.Same p := by
  cases p with
  | block reason => exact ⟨reason, rfl⟩
  | _ => rfl

/-! ## The ids of a class -/

theorem length_idsOf (c : DiskClass) (disks : List (String × DiskClass)) :
    (idsOf c disks).length = occurrences c disks := by
  rw [idsOf, List.length_map, occurrences, List.countP_eq_length_filter]

theorem idsOf_eq_nil {c : DiskClass} (h : occurrences c disks = 0) : idsOf c disks = [] := by
  rw [← List.length_eq_zero_iff, length_idsOf, h]

/-- A class that occurs once has one id, and it is the id of its disk. -/
theorem idsOf_eq_singleton {c : DiskClass} {id : String} (h : occurrences c disks < 2)
    (hid : (id, c) ∈ disks) : idsOf c disks = [id] := by
  have hmem : id ∈ idsOf c disks := mem_idsOf.mpr hid
  rw [← length_idsOf] at h
  obtain ⟨x, hx⟩ := List.length_eq_one_iff.mp
    (Nat.le_antisymm (by omega) (List.length_pos_of_mem hmem))
  rw [hx] at hmem ⊢
  rw [List.mem_singleton.mp hmem]

theorem exists_of_occurrences {c : DiskClass} (h : occurrences c disks ≠ 0) :
    ∃ id, (id, c) ∈ disks := by
  rw [← length_idsOf] at h
  obtain ⟨id, hid⟩ := List.exists_mem_of_length_pos (Nat.pos_of_ne_zero h)
  exact ⟨id, mem_idsOf.mp hid⟩

theorem occurrences_pos {c : DiskClass} {id : String} (h : (id, c) ∈ disks) :
    occurrences c disks ≠ 0 := by
  rw [← length_idsOf]
  exact Nat.ne_of_gt (List.length_pos_of_mem (mem_idsOf.mpr h))

/-! ## The plan by its cases -/

theorem plan_of_many {c : DiskClass} (hc : c ≠ .foreign) (h : 2 ≤ occurrences c disks) :
    ∃ reason, plan disks = .block reason := by
  rw [← length_idsOf] at h
  have hfound : ∃ l, [("LUKS", idsOf .luks disks), ("legacy var", idsOf .legacy disks),
      ("blank", idsOf .blank disks)].find? (fun l => 1 < l.2.length) = some l := by
    rw [← Option.isSome_iff_exists, List.find?_isSome]
    cases c with
    | luks => exact ⟨_, List.mem_cons_self, decide_eq_true h⟩
    | legacy => exact ⟨_, List.mem_cons_of_mem _ List.mem_cons_self, decide_eq_true h⟩
    | blank =>
      exact ⟨_, List.mem_cons_of_mem _ (List.mem_cons_of_mem _ List.mem_cons_self),
        decide_eq_true h⟩
    | foreign => exact absurd rfl hc
  obtain ⟨l, hl⟩ := hfound
  rw [plan]
  simp only [hl]
  exact ⟨_, rfl⟩

/-- Where no class occurs twice, the first ids decide. -/
theorem plan_of_few (hluks : occurrences .luks disks < 2) (hlegacy : occurrences .legacy disks < 2)
    (hblank : occurrences .blank disks < 2) :
    plan disks = match (idsOf .luks disks).head?, (idsOf .legacy disks).head?,
        (idsOf .blank disks).head? with
      | some l, some old, _ =>
        .block (s!"UNENCRYPTED DISK STILL ATTACHED: detach old volume {old} from this machine " ++
          s!"and power-cycle (encrypted volume {l} stays)")
      | some l, none, _ => .unlock l
      | none, some old, some new => .migrate old new
      | none, some old, none => .bootLegacy old
      | none, none, some new => .provision new
      | none, none, none => .noDisks := by
  rw [← length_idsOf] at hluks hlegacy hblank
  have hnone : [("LUKS", idsOf .luks disks), ("legacy var", idsOf .legacy disks),
      ("blank", idsOf .blank disks)].find? (fun l => 1 < l.2.length) = none := by
    rw [List.find?_eq_none]
    simp only [List.forall_mem_cons, decide_eq_true_eq]
    refine ⟨by omega, by omega, by omega, ?_⟩
    intro l hl
    cases hl
  rw [plan]
  split
  · rename_i l hl
    exact absurd (hnone.symm.trans hl) nofun
  · rfl

theorem few_of_not_blocked (h : ¬ Blocked disks) : occurrences .luks disks < 2 ∧
    occurrences .legacy disks < 2 ∧ occurrences .blank disks < 2 := by
  rw [Blocked] at h
  omega

theorem plan_of_blocked (h : Blocked disks) : ∃ reason, plan disks = .block reason := by
  by_cases hluks : 2 ≤ occurrences .luks disks
  · exact plan_of_many (c := .luks) nofun hluks
  by_cases hlegacy : 2 ≤ occurrences .legacy disks
  · exact plan_of_many (c := .legacy) nofun hlegacy
  by_cases hblank : 2 ≤ occurrences .blank disks
  · exact plan_of_many (c := .blank) nofun hblank
  have hboth : occurrences .luks disks ≠ 0 ∧ occurrences .legacy disks ≠ 0 := by
    rw [Blocked] at h
    omega
  obtain ⟨l, hl⟩ := exists_of_occurrences hboth.1
  obtain ⟨old, hold⟩ := exists_of_occurrences hboth.2
  rw [plan_of_few (by omega) (by omega) (by omega), idsOf_eq_singleton (by omega) hl,
    idsOf_eq_singleton (by omega) hold]
  exact ⟨_, rfl⟩

/-- The plan that is decided is the plan, up to the reason of a block. -/
theorem same_of_decides {p : Plan} (h : Decides disks p) : p.Same (plan disks) := by
  cases p with
  | block reason => exact plan_of_blocked h
  | unlock l =>
    obtain ⟨hopen, hl⟩ := h
    obtain ⟨hluks, hlegacy, hblank⟩ := few_of_not_blocked hopen
    have hnone : occurrences .legacy disks = 0 := by
      have hsome := occurrences_pos hl
      rw [Blocked] at hopen
      omega
    show Plan.unlock l = plan disks
    rw [plan_of_few hluks hlegacy hblank, idsOf_eq_singleton hluks hl, idsOf_eq_nil hnone]
    rfl
  | migrate old new =>
    obtain ⟨hopen, hnone, hold, hnew⟩ := h
    obtain ⟨hluks, hlegacy, hblank⟩ := few_of_not_blocked hopen
    show Plan.migrate old new = plan disks
    rw [plan_of_few hluks hlegacy hblank, idsOf_eq_nil hnone, idsOf_eq_singleton hlegacy hold,
      idsOf_eq_singleton hblank hnew]
    rfl
  | bootLegacy old =>
    obtain ⟨hopen, hnone, hold, hnone'⟩ := h
    obtain ⟨hluks, hlegacy, hblank⟩ := few_of_not_blocked hopen
    show Plan.bootLegacy old = plan disks
    rw [plan_of_few hluks hlegacy hblank, idsOf_eq_nil hnone, idsOf_eq_singleton hlegacy hold,
      idsOf_eq_nil hnone']
    rfl
  | provision new =>
    obtain ⟨hopen, hnone, hnone', hnew⟩ := h
    obtain ⟨hluks, hlegacy, hblank⟩ := few_of_not_blocked hopen
    show Plan.provision new = plan disks
    rw [plan_of_few hluks hlegacy hblank, idsOf_eq_nil hnone, idsOf_eq_nil hnone',
      idsOf_eq_singleton hblank hnew]
    rfl
  | noDisks =>
    obtain ⟨hnone, hnone', hnone''⟩ := h
    show Plan.noDisks = plan disks
    rw [plan_of_few (by omega) (by omega) (by omega), idsOf_eq_nil hnone, idsOf_eq_nil hnone',
      idsOf_eq_nil hnone'']
    rfl

/-- For every set of disks a plan is decided. -/
theorem exists_decides (disks : List (String × DiskClass)) : ∃ p, Decides disks p := by
  by_cases hblocked : Blocked disks
  · exact ⟨.block "", hblocked⟩
  by_cases hluks : occurrences .luks disks = 0
  · by_cases hlegacy : occurrences .legacy disks = 0
    · by_cases hblank : occurrences .blank disks = 0
      · exact ⟨.noDisks, hluks, hlegacy, hblank⟩
      · obtain ⟨new, hnew⟩ := exists_of_occurrences hblank
        exact ⟨.provision new, hblocked, hluks, hlegacy, hnew⟩
    · obtain ⟨old, hold⟩ := exists_of_occurrences hlegacy
      by_cases hblank : occurrences .blank disks = 0
      · exact ⟨.bootLegacy old, hblocked, hluks, hold, hblank⟩
      · obtain ⟨new, hnew⟩ := exists_of_occurrences hblank
        exact ⟨.migrate old new, hblocked, hluks, hold, hnew⟩
  · obtain ⟨l, hl⟩ := exists_of_occurrences hluks
    exact ⟨.unlock l, hblocked, hl⟩

/-- What is decided does not depend on the reason of a block. -/
theorem Plan.Same.decides {p q : Plan} (h : p.Same q) (hp : Decides disks p) :
    Decides disks q := by
  cases p with
  | block reason =>
    obtain ⟨reason', rfl⟩ := h
    exact hp
  | _ =>
    obtain rfl := h
    exact hp

theorem Plan.Same.symm {p q : Plan} (h : p.Same q) : q.Same p := by
  cases p with
  | block reason =>
    obtain ⟨reason', rfl⟩ := h
    exact ⟨reason, rfl⟩
  | _ =>
    obtain rfl := h
    exact Plan.Same.refl _

theorem decides_iff {p : Plan} : Decides disks p ↔ p.Same (plan disks) := by
  constructor
  · exact same_of_decides
  · intro h
    obtain ⟨q, hq⟩ := exists_decides disks
    exact h.symm.decides ((same_of_decides hq).decides hq)

/-! ## Orders, and foreign disks -/

/-- Without the foreign disks, one list is a permutation of the other. -/
def Alike (disks disks' : List (String × DiskClass)) : Prop :=
  (disks.filter fun d => d.2 ≠ .foreign).Perm (disks'.filter fun d => d.2 ≠ .foreign)

theorem Alike.symm (h : Alike disks disks') : Alike disks' disks := List.Perm.symm h

theorem Alike.mem {c : DiskClass} {id : String} (h : Alike disks disks') (hc : c ≠ .foreign)
    (hid : (id, c) ∈ disks) : (id, c) ∈ disks' := by
  have hmem : (id, c) ∈ disks.filter fun d => d.2 ≠ .foreign :=
    List.mem_filter.mpr ⟨hid, by simpa using hc⟩
  exact (List.mem_filter.mp (h.mem_iff.mp hmem)).1

theorem occurrences_filter {c : DiskClass} (hc : c ≠ .foreign)
    (disks : List (String × DiskClass)) :
    occurrences c (disks.filter fun d => d.2 ≠ .foreign) = occurrences c disks := by
  rw [occurrences, occurrences, List.countP_filter]
  apply List.countP_congr
  intro d _
  simp only [Bool.and_eq_true, decide_eq_true_eq]
  constructor
  · exact fun h => h.1
  · exact fun h => ⟨h, h ▸ hc⟩

theorem Alike.occurrences {c : DiskClass} (h : Alike disks disks') (hc : c ≠ .foreign) :
    occurrences c disks = VarDisk.occurrences c disks' := by
  rw [← occurrences_filter hc disks, ← occurrences_filter hc disks']
  exact h.countP_eq _

theorem Alike.decides {p : Plan} (h : Alike disks disks') (hp : Decides disks p) :
    Decides disks' p := by
  have hluks := h.occurrences (c := .luks) nofun
  have hlegacy := h.occurrences (c := .legacy) nofun
  have hblank := h.occurrences (c := .blank) nofun
  have hblocked : Blocked disks' ↔ Blocked disks := by
    rw [Blocked, Blocked, hluks, hlegacy, hblank]
  cases p with
  | block reason => exact hblocked.mpr hp
  | unlock l => exact ⟨fun hb => hp.1 (hblocked.mp hb), h.mem nofun hp.2⟩
  | migrate old new =>
    obtain ⟨hopen, hnone, hold, hnew⟩ := hp
    exact ⟨fun hb => hopen (hblocked.mp hb), hluks ▸ hnone, h.mem nofun hold, h.mem nofun hnew⟩
  | bootLegacy old =>
    obtain ⟨hopen, hnone, hold, hnone'⟩ := hp
    exact ⟨fun hb => hopen (hblocked.mp hb), hluks ▸ hnone, h.mem nofun hold, hblank ▸ hnone'⟩
  | provision new =>
    obtain ⟨hopen, hnone, hnone', hnew⟩ := hp
    exact ⟨fun hb => hopen (hblocked.mp hb), hluks ▸ hnone, hlegacy ▸ hnone', h.mem nofun hnew⟩
  | noDisks =>
    obtain ⟨hnone, hnone', hnone''⟩ := hp
    exact ⟨hluks ▸ hnone, hlegacy ▸ hnone', hblank ▸ hnone''⟩

/-- The plan is the one that is decided by how often each class occurs, up to the reason of a
block; the order of the disks and the foreign disks among them do not change it; and with an
encrypted volume attached it is to unlock or to block. -/
theorem plan_decides (disks : List (String × DiskClass)) :
    (∀ p, Decides disks p ↔ p.Same (plan disks)) ∧
      (∀ disks', Alike disks disks' → (plan disks).Same (plan disks')) ∧
      (∀ l, (l, .luks) ∈ disks → (∃ l', plan disks = .unlock l') ∨
        ∃ reason, plan disks = .block reason) := by
  have hplan : Decides disks (plan disks) := decides_iff.mpr (Plan.Same.refl _)
  refine ⟨fun p => decides_iff, ?_, ?_⟩
  · intro disks' h
    exact decides_iff.mp (h.decides hplan)
  · intro l hl
    have hsome := occurrences_pos hl
    cases hp : plan disks with
    | unlock l' => exact Or.inl ⟨l', rfl⟩
    | block reason => exact Or.inr ⟨reason, rfl⟩
    | migrate old new => rw [hp] at hplan; exact absurd hplan.2.1 hsome
    | bootLegacy old => rw [hp] at hplan; exact absurd hplan.2.1 hsome
    | provision new => rw [hp] at hplan; exact absurd hplan.2.1 hsome
    | noDisks => rw [hp] at hplan; exact absurd hplan.1 hsome

end Foundrix.VarDisk

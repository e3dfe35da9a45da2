import Foundrix.VarDisk.History

/-!
# What a probe proves

A disk is taken for blank where no partition 1 exists and the probes of the whole disk
name nothing. A probe that was killed or that failed names nothing either.

* `Outcomes`, `probe_run`: how the commands of a probe end, and what the probe makes of it.
* `blank_only_on_proof_iff`: when a blank disk is one that was found empty.
* `killed_probe_is_blank`: a disk that is taken for blank because a probe was killed.
-/

namespace Foundrix.VarDisk

open Effect Text

/-- How the commands of a probe end. Those on partition 1 count only where it exists. -/
structure Outcomes where
  present : Bool
  partFstype : Except String Output
  partPartuuid : Except String Output
  diskPttype : Except String Output
  diskFstype : Except String Output

namespace Outcomes

variable (o : Outcomes)

/-- The history of a probe that ended with its result. -/
def events (id : String) : List Event :=
  .existed (.part1 id) o.present ::
    ((if o.present then
      [.ran (.blkid .type (.part1 id)) o.partFstype, .ran (.lsblk (.part1 id)) o.partPartuuid]
    else []) ++
    [.ran (.blkid .pttype (.disk id)) o.diskPttype, .ran (.blkid .type (.disk id)) o.diskFstype])

/-- The value of a probe of partition 1, unless the command could not be started. -/
def partValue (r : Except String Output) : Option (Option String) :=
  if o.present then r.toOption.map probed else some none

/-- What the probe makes of it, unless a command could not be started. -/
def found (id : String) : Option DiskProbe := do
  let partFstype ← o.partValue o.partFstype
  let partPartuuid ← o.partValue o.partPartuuid
  let diskPttype ← o.diskPttype.toOption.map probed
  let diskFstype ← o.diskFstype.toOption.map probed
  some { id, hasPart1 := o.present, partFstype, partPartuuid, diskPttype, diskFstype }

theorem found_some {o : Outcomes} {id : String} {p : DiskProbe} :
    o.found id = some p ↔ ∃ v₁ v₂ v₃ v₄,
      o.partValue o.partFstype = some v₁ ∧ o.partValue o.partPartuuid = some v₂ ∧
      o.diskPttype.toOption.map probed = some v₃ ∧ o.diskFstype.toOption.map probed = some v₄ ∧
      p = ⟨id, o.present, v₁, v₂, v₃, v₄⟩ := by
  constructor
  · intro h
    unfold found at h
    obtain ⟨v₁, hv₁, h⟩ := Option.bind_eq_some_iff.mp h
    obtain ⟨v₂, hv₂, h⟩ := Option.bind_eq_some_iff.mp h
    obtain ⟨v₃, hv₃, h⟩ := Option.bind_eq_some_iff.mp h
    obtain ⟨v₄, hv₄, h⟩ := Option.bind_eq_some_iff.mp h
    exact ⟨v₁, v₂, v₃, v₄, hv₁, hv₂, hv₃, hv₄, (Option.some.inj h).symm⟩
  · rintro ⟨v₁, v₂, v₃, v₄, hv₁, hv₂, hv₃, hv₄, rfl⟩
    unfold found
    rw [hv₁, hv₂, hv₃, hv₄]
    rfl

end Outcomes

/-- The command ran and ended with `blkid`'s exit code for nothing found. -/
def NothingFound (r : Except String Output) : Prop := ∃ out, r = .ok out ∧ out.status.code = some 2

/-- The command could not be started, or succeeded and printed a value. -/
def Heard (r : Except String Output) : Prop := ∀ out, r = .ok out → probed out ≠ none

namespace Outcomes

variable (o : Outcomes)

/-- There is no partition 1, and both probes of the whole disk positively found nothing. -/
def FoundNothing : Prop :=
  o.present = false ∧ NothingFound o.diskPttype ∧ NothingFound o.diskFstype

/-- There is a partition 1, or a probe of the whole disk was heard, or both found nothing. -/
def Conclusive : Prop :=
  o.present = true ∨ Heard o.diskPttype ∨ Heard o.diskFstype ∨
    (NothingFound o.diskPttype ∧ NothingFound o.diskFstype)

end Outcomes

/-! ## The runs of a probe -/

variable {x y : World × List Event}

theorem output_step {c : Cmd} {r : Except String Output} :
    observed.step (.output c) x r y ↔ y = (x.1, x.2 ++ [.ran c r]) := by
  rw [Prod.ext_iff]
  exact Iff.rfl

theorem exists_step {d : Device} {present : Bool} :
    observed.step (.exists d) x present y ↔ y = (x.1, x.2 ++ [.existed d present]) := by
  rw [Prod.ext_iff]
  exact Iff.rfl

theorem probeValue_run {c : Cmd} {v : Option String} :
    Run observed (probeValue c) x (some (.ok v)) y ↔
      ∃ out, v = probed out ∧ y = (x.1, x.2 ++ [.ran c (.ok out)]) := by
  constructor
  · intro h
    obtain ⟨r, z, h₁, h⟩ := run_bind_ok.mp h
    obtain rfl := output_step.mp (run_perform_ok.mp h₁)
    obtain ⟨out, z, h₂, h⟩ := run_bind_ok.mp h
    obtain ⟨rfl, rfl⟩ := run_pure_ok.mp h
    cases r with
    | error e => obtain ⟨-, h | h⟩ := run_fail.mp h₂ <;> cases h
    | ok out' =>
      obtain ⟨rfl, rfl⟩ := run_pure_ok.mp h₂
      exact ⟨out, rfl, rfl⟩
  · rintro ⟨out, rfl, rfl⟩
    refine run_bind_ok.mpr ⟨.ok out, _, run_perform_ok.mpr (output_step.mpr rfl), ?_⟩
    exact run_bind_ok.mpr ⟨out, _, run_pure_ok.mpr ⟨rfl, rfl⟩, run_pure_ok.mpr ⟨rfl, rfl⟩⟩

theorem probeIf_run {present : Bool} {c : Cmd} {v : Option String} :
    Run observed (probeIf present c) x (some (.ok v)) y ↔
      if present then ∃ out, v = probed out ∧ y = (x.1, x.2 ++ [.ran c (.ok out)])
      else v = none ∧ y = x := by
  cases present with
  | true => exact probeValue_run
  | false => exact run_pure_ok

/-- A probe of a disk ends with a result exactly where all its commands could be started. -/
theorem probe_run {id : String} {p : DiskProbe} :
    Run observed (probe id) x (some (.ok p)) y ↔
      ∃ o : Outcomes, o.found id = some p ∧ y = (x.1, x.2 ++ o.events id) := by
  constructor
  · intro h
    obtain ⟨present, _, h₁, h⟩ := run_bind_ok.mp h
    obtain rfl := exists_step.mp (run_perform_ok.mp h₁)
    obtain ⟨v₁, _, h₂, h⟩ := run_bind_ok.mp h
    obtain ⟨v₂, _, h₃, h⟩ := run_bind_ok.mp h
    obtain ⟨_, _, h₄, h⟩ := run_bind_ok.mp h
    obtain ⟨out₃, rfl, rfl⟩ := probeValue_run.mp h₄
    obtain ⟨_, _, h₅, h⟩ := run_bind_ok.mp h
    obtain ⟨out₄, rfl, rfl⟩ := probeValue_run.mp h₅
    obtain ⟨rfl, rfl⟩ := run_pure_ok.mp h
    cases present with
    | true =>
      obtain ⟨out₁, rfl, rfl⟩ := probeIf_run.mp h₂
      obtain ⟨out₂, rfl, rfl⟩ := probeIf_run.mp h₃
      exact ⟨⟨true, .ok out₁, .ok out₂, .ok out₃, .ok out₄⟩, rfl, by simp [Outcomes.events]⟩
    | false =>
      obtain ⟨rfl, rfl⟩ := probeIf_run.mp h₂
      obtain ⟨rfl, rfl⟩ := probeIf_run.mp h₃
      exact ⟨⟨false, .error "", .error "", .ok out₃, .ok out₄⟩, rfl, by simp [Outcomes.events]⟩
  · rintro ⟨⟨present, r₁, r₂, r₃, r₄⟩, hfound, rfl⟩
    have ran : ∀ {r : Except String Output} {v : Option String}, r.toOption.map probed = some v →
        ∃ out, r = .ok out ∧ v = probed out := by
      rintro (e | out) v h
      · cases h
      · exact ⟨out, rfl, (Option.some.inj h).symm⟩
    obtain ⟨v₁, v₂, v₃, v₄, hv₁, hv₂, hv₃, hv₄, rfl⟩ := Outcomes.found_some.mp hfound
    obtain ⟨out₃, rfl, rfl⟩ := ran hv₃
    obtain ⟨out₄, rfl, rfl⟩ := ran hv₄
    refine run_bind_ok.mpr ⟨present, _, run_perform_ok.mpr (exists_step.mpr rfl), ?_⟩
    cases present with
    | true =>
      obtain ⟨out₁, rfl, rfl⟩ := ran hv₁
      obtain ⟨out₂, rfl, rfl⟩ := ran hv₂
      refine run_bind_ok.mpr ⟨_, _, probeIf_run.mpr ⟨out₁, rfl, rfl⟩, ?_⟩
      refine run_bind_ok.mpr ⟨_, _, probeIf_run.mpr ⟨out₂, rfl, rfl⟩, ?_⟩
      refine run_bind_ok.mpr ⟨_, _, probeValue_run.mpr ⟨out₃, rfl, rfl⟩, ?_⟩
      refine run_bind_ok.mpr ⟨_, _, probeValue_run.mpr ⟨out₄, rfl, rfl⟩, ?_⟩
      exact run_pure_ok.mpr ⟨rfl, by simp [Outcomes.events]⟩
    | false =>
      cases hv₁
      cases hv₂
      refine run_bind_ok.mpr ⟨_, _, probeIf_run.mpr ⟨rfl, rfl⟩, ?_⟩
      refine run_bind_ok.mpr ⟨_, _, probeIf_run.mpr ⟨rfl, rfl⟩, ?_⟩
      refine run_bind_ok.mpr ⟨_, _, probeValue_run.mpr ⟨out₃, rfl, rfl⟩, ?_⟩
      refine run_bind_ok.mpr ⟨_, _, probeValue_run.mpr ⟨out₄, rfl, rfl⟩, ?_⟩
      exact run_pure_ok.mpr ⟨rfl, by simp [Outcomes.events]⟩

/-! ## Blank disks -/

/-- A probe is taken for a blank disk where there is no partition 1 and the probes of the
whole disk have no value. -/
theorem found_blank_iff {o : Outcomes} {id uuid : String} {p : DiskProbe}
    (h : o.found id = some p) :
    classify p uuid = .blank ↔ o.present = false ∧
      (∃ out, o.diskPttype = .ok out ∧ probed out = none) ∧
      ∃ out, o.diskFstype = .ok out ∧ probed out = none := by
  have value : ∀ {r : Except String Output} {v : Option String}, r.toOption.map probed = some v →
      (v = none ↔ ∃ out, r = .ok out ∧ probed out = none) := by
    rintro (e | out) v h
    · cases h
    · rw [← Option.some.inj h]
      simp
  obtain ⟨v₁, v₂, v₃, v₄, -, -, hv₃, hv₄, rfl⟩ := Outcomes.found_some.mp h
  rw [← value hv₃, ← value hv₄]
  unfold classify
  cases o.present with
  | true =>
    simp only [if_true, Bool.true_eq_false, false_and, iff_false]
    split <;> [skip; split] <;> exact DiskClass.noConfusion
  | false => simp

/-- Without partition 1, and with both probes of the whole disk run, a probe has a result. -/
theorem found_of_absent {o : Outcomes} (id : String) (hp : o.present = false) {out₃ out₄ : Output}
    (h₃ : o.diskPttype = .ok out₃) (h₄ : o.diskFstype = .ok out₄) : ∃ p, o.found id = some p := by
  refine ⟨_, Outcomes.found_some.mpr ⟨none, none, probed out₃, probed out₄, ?_, ?_, ?_, ?_, rfl⟩⟩
  · simp [Outcomes.partValue, hp]
  · simp [Outcomes.partValue, hp]
  · rw [h₃]
    rfl
  · rw [h₄]
    rfl

theorem not_heard {r : Except String Output} (h : ¬ Heard r) : ∃ out, r = .ok out ∧ probed out = none := by
  unfold Heard at h
  push Not at h
  exact h

/-- On these outcomes, a disk that a probe finds blank was found empty. -/
def BlankOnProof (id uuid : String) (o : Outcomes) : Prop :=
  ∀ x y p, Run observed (probe id) x (some (.ok p)) y → y.2 = x.2 ++ o.events id →
    classify p uuid = .blank → o.FoundNothing

/-- The history of a probe tells how its commands ended, as far as they were run. -/
theorem events_inj {o o' : Outcomes} {id : String} (h : o.events id = o'.events id) :
    o.present = o'.present ∧ o.diskPttype = o'.diskPttype ∧ o.diskFstype = o'.diskFstype := by
  obtain ⟨p, a, b, c, d⟩ := o
  obtain ⟨p', a', b', c', d'⟩ := o'
  cases p <;> cases p' <;> simp_all [Outcomes.events]

theorem blankOnProof_iff (id uuid : String) (o : Outcomes) : BlankOnProof id uuid o ↔ o.Conclusive := by
  constructor
  · intro h
    by_contra hno
    obtain ⟨hp, h₃, h₄, hcode⟩ : o.present ≠ true ∧ ¬ Heard o.diskPttype ∧ ¬ Heard o.diskFstype ∧
        ¬ (NothingFound o.diskPttype ∧ NothingFound o.diskFstype) := by
      unfold Outcomes.Conclusive at hno
      push Not at hno
      exact ⟨hno.1, hno.2.1, hno.2.2.1, fun hc => hno.2.2.2 hc.1 hc.2⟩
    have hp := Bool.eq_false_iff.mpr hp
    obtain ⟨out₃, h₃, hv₃⟩ := not_heard h₃
    obtain ⟨out₄, h₄, hv₄⟩ := not_heard h₄
    obtain ⟨p, hfound⟩ := found_of_absent id hp h₃ h₄
    have hblank : classify p uuid = .blank :=
      (found_blank_iff hfound).mpr ⟨hp, ⟨out₃, h₃, hv₃⟩, ⟨out₄, h₄, hv₄⟩⟩
    exact hcode (h ({}, []) _ p (probe_run.mpr ⟨o, hfound, rfl⟩) rfl hblank).2
  · intro h x y p hrun hy hblank
    obtain ⟨o', hfound, rfl⟩ := probe_run.mp hrun
    obtain ⟨hp, h₃, h₄⟩ := events_inj (List.append_cancel_left hy).symm
    obtain ⟨hp', ⟨out₃, h₃', hv₃⟩, ⟨out₄, h₄', hv₄⟩⟩ := (found_blank_iff hfound).mp hblank
    rw [← hp] at hp'
    rw [← h₃] at h₃'
    rw [← h₄] at h₄'
    rcases h with h | h | h | h
    · rw [hp'] at h
      cases h
    · exact (h out₃ h₃' hv₃).elim
    · exact (h out₄ h₄' hv₄).elim
    · exact ⟨hp', h⟩

/-! ## The plan -/

theorem state_run {phase message : String} {u : Unit}
    (h : Run observed (Ui.state phase message) x (some (.ok u)) y) : y.2 = x.2 := by
  obtain ⟨_, z, h₁, h⟩ := run_bind_ok.mp h
  obtain ⟨-, h₁⟩ := run_perform_ok.mp h₁
  obtain ⟨-, h₂⟩ := run_perform_ok.mp h
  have hnone : ∀ s : Snapshot, recordMutate s { s with phase, message } = none := fun s => by
    simp [recordMutate]
  rw [h₂, h₁]
  simp [record, hnone]

/-- What classifying the volumes sees and makes of them. -/
theorem classifyAll_run {cfg : Cfg} {ids : List String} {infos : List DiskInfo}
    (h : Run observed (classifyAll cfg ids) x (some (.ok infos)) y) :
    ∃ probes : List (String × Outcomes), probes.map Prod.fst = ids ∧
      y.2 = x.2 ++ probes.flatMap (fun d => d.2.events d.1) ∧
      ∀ i ∈ infos, ∃ d ∈ probes, ∃ p, d.1 = i.id ∧ d.2.found d.1 = some p ∧
        i.diskClass = classify p cfg.id.luksPartuuid := by
  induction ids generalizing x y infos with
  | nil =>
    obtain ⟨rfl, rfl⟩ := run_pure_ok.mp h
    exact ⟨[], rfl, by simp, by simp⟩
  | cons id ids ih =>
    obtain ⟨p, z, h₁, h⟩ := run_bind_ok.mp h
    obtain ⟨o, hfound, rfl⟩ := probe_run.mp h₁
    -- the message on a foreign disk leaves no event
    obtain ⟨v, hv, h⟩ : ∃ v : World × List Event, v.2 = x.2 ++ o.events id ∧
        Run observed ((classifyAll cfg ids).bind fun infos => Prog.pure
          ({ id, diskClass := classify p cfg.id.luksPartuuid, detail := detail p } :: infos))
          v (some (.ok infos)) y := by
      dsimp only at h
      split at h
      · obtain ⟨_, v, h₂, h⟩ := run_bind_ok.mp h
        exact ⟨v, state_run h₂, h⟩
      · exact ⟨_, rfl, h⟩
    obtain ⟨infos', _, h₂, h⟩ := run_bind_ok.mp h
    obtain ⟨rfl, rfl⟩ := run_pure_ok.mp h
    obtain ⟨probes, hids, hlog, hinfos⟩ := ih h₂
    refine ⟨(id, o) :: probes, by rw [List.map_cons, hids], ?_, fun i hi => ?_⟩
    · rw [hlog, hv, List.flatMap_cons, List.append_assoc]
    · rcases List.mem_cons.mp hi with rfl | hi
      · exact ⟨_, List.mem_cons_self, p, rfl, hfound, rfl⟩
      · obtain ⟨d, hd, hp⟩ := hinfos i hi
        exact ⟨d, List.mem_cons_of_mem _ hd, hp⟩

/-- For each volume and each way its probe commands end: the disk is taken for blank on
proof of emptiness only, exactly if partition 1 exists, or one of the probes of the whole
disk could not be started or succeeded and named something, or both ended with exit code 2.
Where this holds of all volumes, a plan names a disk as blank only if it was found empty. -/
theorem blank_only_on_proof_iff (cfg : Cfg) :
    (∀ id o, BlankOnProof id cfg.id.luksPartuuid o ↔ o.Conclusive) ∧
    ∀ ids x infos y, Run observed (classifyAll cfg ids) x (some (.ok infos)) y →
      ∃ probes : List (String × Outcomes), probes.map Prod.fst = ids ∧
        y.2 = x.2 ++ probes.flatMap (fun d => d.2.events d.1) ∧
        ((∀ d ∈ probes, d.2.Conclusive) →
          ∀ id, (plan (classesOf infos)).blankDisk = some id →
            ∃ o, (id, o) ∈ probes ∧ o.FoundNothing) := by
  refine ⟨fun id o => blankOnProof_iff id _ o, fun ids x infos y h => ?_⟩
  obtain ⟨probes, hids, hlog, hinfos⟩ := classifyAll_run h
  refine ⟨probes, hids, hlog, fun hall id hplan => ?_⟩
  obtain ⟨i, hi, he⟩ := List.mem_map.mp (plan_blankDisk hplan)
  obtain ⟨rfl, hclass⟩ := Prod.mk.inj he
  obtain ⟨⟨_, o⟩, hd, p, rfl, hfound, hp⟩ := hinfos i hi
  refine ⟨o, hd, (blankOnProof_iff i.id cfg.id.luksPartuuid o).mpr (hall _ hd) ({}, []) _ p
    (probe_run.mpr ⟨o, hfound, rfl⟩) rfl (hp ▸ hclass)⟩

/-! ## Concrete probes -/

def sampleCfg : Cfg where
  byIdDir := "/dev/disk/by-id"
  pre := "scsi-0HC_Volume_"
  id := { luksPartuuid := "cab17794-a0a1-4908-8dd2-3f205a938611", fsLabel := "var", mapper := "var" }
  minPassphraseLen := 12

def nothingFound : Output := { status := ⟨some 2, "exit status: 2"⟩ }

def killed : Output := { status := ⟨none, "signal: 9 (SIGKILL)"⟩ }

/-- The probes of a disk without partitions, of which the second one ends as given. -/
def wholeDisk (fstype : Output) : Outcomes :=
  ⟨false, .error "", .error "", .ok nothingFound, .ok fstype⟩

theorem wholeDisk_nothingFound : (wholeDisk nothingFound).Conclusive :=
  Or.inr (Or.inr (Or.inr ⟨⟨_, rfl, rfl⟩, ⟨_, rfl, rfl⟩⟩))

theorem blank_only_on_proof_iff_sample :
    BlankOnProof "scsi-0HC_Volume_1" sampleCfg.id.luksPartuuid (wholeDisk nothingFound) :=
  ((blank_only_on_proof_iff sampleCfg).1 "scsi-0HC_Volume_1" _).mpr wholeDisk_nothingFound

/-- A disk whose `TYPE` probe was killed is taken for blank. -/
theorem killed_probe_is_blank :
    ¬ ∀ (id uuid : String) (o : Outcomes), BlankOnProof id uuid o := by
  intro h
  have hfound : (wholeDisk killed).found "scsi-0HC_Volume_1" = some { id := "scsi-0HC_Volume_1" } := by
    decide
  obtain ⟨-, -, out, hout, hcode⟩ := h "scsi-0HC_Volume_1" sampleCfg.id.luksPartuuid (wholeDisk killed)
    ({}, []) _ _ (probe_run.mpr ⟨_, hfound, rfl⟩) rfl (by decide)
  cases hout
  cases hcode

end Foundrix.VarDisk

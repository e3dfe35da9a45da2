import Foundrix.VarDisk.Confined

/-!
# Boots after a cut

The two disks of a migration over any number of boots. Each boot is a run of the daemon on
the disks that are attached, and is cut wherever it likes; what it leaves on the disks is
what the next one finds.

* `Shelf`, `Boot`, `Boots`: the disks, one boot, and a chain of boots.
* `Boot.LegacyKept`, `Boot.Justified`: what is to be shown of each boot.
* `migration_crash_consistent`: what holds of every boot of a chain.
* `released_after_migration`: what holds of the boots after a migration that was cut.
-/

namespace Foundrix.VarDisk

open Effect Text

variable {D : Type} {cfg : Cfg}

/-- The ids of the two disks of a migration. -/
structure Pair where
  legacy : String
  blank : String
  apart : legacy ≠ blank

/-- What the two disks hold. -/
structure Shelf (D : Type) where
  legacy : Disk D
  blank : Disk D
deriving DecidableEq, Repr

/-- The machine as it boots, with the disks that are attached. -/
def Shelf.machine (ids : Pair) (s : Shelf D) (withLegacy withBlank : Bool) : Machine D where
  disks id :=
    if id = ids.legacy then (if withLegacy then some s.legacy else none)
    else if id = ids.blank then (if withBlank then some s.blank else none)
    else none

/-- What the disks hold after a run on a machine. -/
def Shelf.after (ids : Pair) (s : Shelf D) (m : Machine D) : Shelf D where
  legacy := (m.disks ids.legacy).getD s.legacy
  blank := (m.disks ids.blank).getD s.blank

/-- The disk that the main system mounts `/var` from. -/
def Plan.bootDisk : Plan → Option String
  | .unlock id | .provision id | .bootLegacy id => some id
  | _ => none

/-- One boot: which disks are attached, what they hold, and how far the run of the daemon got. -/
structure Boot (D : Type) where
  withLegacy : Bool
  withBlank : Bool
  shelf : Shelf D
  outcome : Option (Except Error Unit)
  world : World
  events : List Event
  machine : Machine D

namespace Boot

variable (ids : Pair) (b : Boot D)

def start : Machine D := b.shelf.machine ids b.withLegacy b.withBlank

def plan : Plan := b.world.plan

/-- What the disks hold where the run was cut or has ended. -/
def left : Shelf D := b.shelf.after ids b.machine

def Released : Prop := b.outcome = some (.ok ())

end Boot

/-- What the main system may make of the disk that it mounts `/var` from. -/
inductive Disk.Used : Disk D → Disk D → Prop where
  | idle (disk : Disk D) : Used disk disk
  | plain (part1 : Bool) (fs : Btrfs D) (tree : Tree D) :
    Used ⟨part1, .plain (.btrfs fs)⟩ ⟨part1, .plain (.btrfs { fs with var := some tree })⟩
  | luks (part1 : Bool) (fs : Btrfs D) (tree : Tree D) :
    Used ⟨part1, .luks (.btrfs fs)⟩ ⟨part1, .luks (.btrfs { fs with var := some tree })⟩

/-- The disk `id` holds what the boot has left on it, or what the system has made of that if the
boot was released from it. -/
def Boot.LeavesDisk (b : Boot D) (id : String) (disk disk' : Disk D) : Prop :=
  disk' = disk ∨ b.Released ∧ b.plan.bootDisk = some id ∧ disk.Used disk'

/-- The chains of boots from what the disks hold at first, with what they hold in the end. -/
inductive Boots (cfg : Cfg) (cli : Cli) (ids : Pair) (s₀ : Shelf D) :
    List (Boot D) → Shelf D → Prop where
  | off : Boots cfg cli ids s₀ [] s₀
  | boot {bs : List (Boot D)} {b : Boot D} {s : Shelf D} (earlier : Boots cfg cli ids s₀ bs b.shelf)
    (ran : Run (onMachine cfg) (run cli) (({}, []), b.start ids) b.outcome
      ((b.world, b.events), b.machine))
    (legacy : b.LeavesDisk ids.legacy (b.left ids).legacy s.legacy)
    (blank : b.LeavesDisk ids.blank (b.left ids).blank s.blank) : Boots cfg cli ids s₀ (bs ++ [b]) s

/-! ## What is so of the two disks -/

section Told

variable {ids : Pair} {b : Boot D} {id : String} {fs : Btrfs D}

theorem start_legacy : (b.start ids).disks ids.legacy =
    if b.withLegacy then some b.shelf.legacy else none := if_pos rfl

theorem start_blank : (b.start ids).disks ids.blank =
    if b.withBlank then some b.shelf.blank else none := by
  show (if ids.blank = ids.legacy then _ else _) = _
  rw [if_neg ids.apart.symm, if_pos rfl]

theorem start_other (hlegacy : id ≠ ids.legacy) (hblank : id ≠ ids.blank) :
    (b.start ids).disks id = none := by
  show (if id = ids.legacy then _ else _) = _
  rw [if_neg hlegacy, if_neg hblank]

theorem start_booted : (b.start ids).Booted := ⟨rfl, fun _ => rfl, rfl⟩

theorem luks_told (hlegacy : b.shelf.legacy = ⟨true, .plain (.btrfs fs)⟩)
    (h : ClassTold (b.start ids) id .luks) : id = ids.blank := by
  obtain ⟨c, hc⟩ := luks_volume h
  by_contra hblank
  by_cases hid : id = ids.legacy
  · rw [Machine.volume, hid, start_legacy, hlegacy] at hc
    split at hc <;> cases hc
  · rw [Machine.volume, start_other hid hblank] at hc
    cases hc

theorem legacy_told (h : ClassTold (b.start ids) id .legacy) :
    id = ids.legacy ∧ b.withLegacy = true ∨
      id = ids.blank ∧ ∃ fs, b.shelf.blank = ⟨true, .plain (.btrfs fs)⟩ := by
  obtain ⟨fs, hdisk⟩ := legacy_disk h
  by_cases hid : id = ids.legacy
  · refine Or.inl ⟨hid, ?_⟩
    by_contra hno
    rw [hid, start_legacy, if_neg hno] at hdisk
    cases hdisk
  by_cases hblank : id = ids.blank
  · refine Or.inr ⟨hblank, fs, ?_⟩
    rw [hblank, start_blank] at hdisk
    split at hdisk
    · exact Option.some.inj hdisk
    · cases hdisk
  · rw [start_other hid hblank] at hdisk
    cases hdisk

theorem table_of_disks {d : String} {m : Machine D} {disk : Disk D} (h : m.disks d = some disk) :
    m.table d = some disk.part1 := by
  rw [Machine.table, h, Option.map_some]

/-- Another disk that is taken for blank is not attached. -/
theorem blank_told_absent (hlegacy : b.shelf.legacy = ⟨true, .plain (.btrfs fs)⟩)
    (h : ClassTold (b.start ids) id .blank) (hne : id ≠ ids.blank) :
    (b.start ids).table id = none := by
  have hnone := blank_told start_booted h
  by_cases hid : id = ids.legacy
  · subst hid
    by_cases hattached : b.withLegacy = true
    · have hdisk : (b.start ids).disks ids.legacy = some ⟨true, .plain (.btrfs fs)⟩ := by
        rw [start_legacy, if_pos hattached, hlegacy]
      exact absurd (table_of_disks hdisk) hnone
    · rw [Machine.table, start_legacy, if_neg hattached]
      rfl
  · rw [Machine.table, start_other hid hne]
    rfl

end Told

/-! ## The legacy disk -/

section Legacy

variable {cli : Cli} {ids : Pair} {b : Boot D} {fs : Btrfs D}

/-- The subvolume `var` of the legacy disk is what it was, wherever the run was cut. -/
theorem legacy_kept (hcfg : cli.cfg = some cfg)
    (hlegacy : b.shelf.legacy = ⟨true, .plain (.btrfs fs)⟩)
    (h : Run (onMachine cfg) (run cli) (({}, []), b.start ids) b.outcome
      ((b.world, b.events), b.machine)) :
    ∃ fs', (b.left ids).legacy = ⟨true, .plain (.btrfs fs')⟩ ∧ fs'.var = fs.var := by
  show ∃ fs', (b.machine.disks ids.legacy).getD b.shelf.legacy = _ ∧ _
  cases hend : b.machine.disks ids.legacy with
  | none => exact ⟨fs, hlegacy, rfl⟩
  | some disk =>
    have hattached : b.withLegacy = true := by
      by_contra hno
      have hkept : (b.machine.table ids.legacy).isSome = ((b.start ids).table ids.legacy).isSome :=
        run_attached hcfg h
      rw [table_of_disks hend, Machine.table, start_legacy, if_neg hno] at hkept
      cases hkept
    have hdisk : (b.start ids).disks ids.legacy = some ⟨true, .plain (.btrfs fs)⟩ := by
      rw [start_legacy, if_pos hattached, hlegacy]
    have hchanged : Changed b.plan b.events ids.legacy ⟨true, .plain (.btrfs fs)⟩ disk := by
      rcases run_carryOut cli hcfg h with ⟨hsame, -⟩ | ⟨y, hy, hI, hready, htold, hrun⟩
      · rw [show b.machine = _ from hsame, hdisk] at hend
        exact Or.inl (Option.some.inj hend).symm
      · exact carryOut_changes start_booted htold hy hI hready hrun.toCut hdisk hend
    rcases hchanged with rfl | ⟨-, ⟨c, hluks⟩, -⟩ | ⟨-, fs₀, fs', hold, hnew, hvar⟩ | ⟨-, hpart⟩
    · exact ⟨fs, rfl, rfl⟩
    · cases hluks
    · cases hold
      exact ⟨fs', hnew, hvar⟩
    · cases hpart

end Legacy

/-! ## The new disk -/

/-- The subvolume `var` of the encrypted volume of a disk is one of the copies. -/
def Complete (copies : Tree D → Prop) (id : String) (m : Machine D) : Prop :=
  ∃ fs tree, m.volume id = some (.luks (.btrfs fs)) ∧ fs.var = some tree ∧ copies tree

section Blank

variable {cli : Cli} {ids : Pair} {b : Boot D} {fs : Btrfs D} {copies : Tree D → Prop}
  {v₀ : Volume D}

theorem start_stage (h : Stage copies v₀ b.shelf.blank) (disk : Disk D)
    (hdisk : (b.start ids).disks ids.blank = some disk) : Stage copies v₀ disk := by
  rw [start_blank] at hdisk
  split at hdisk
  · exact Option.some.inj hdisk ▸ h
  · cases hdisk

theorem start_staged (h : Stage copies v₀ b.shelf.blank) :
    Staged copies v₀ ids.blank (b.start ids) :=
  ⟨start_stage h, nofun⟩

theorem left_stage (h : Stage copies v₀ b.shelf.blank)
    (hleft : ∀ disk, b.machine.disks ids.blank = some disk → Stage copies v₀ disk) :
    Stage copies v₀ (b.left ids).blank := by
  show Stage copies v₀ ((b.machine.disks ids.blank).getD b.shelf.blank)
  cases hdisk : b.machine.disks ids.blank with
  | none => exact h
  | some disk => exact hleft disk hdisk

/-- A disk whose volume is what it was, and that has lost no partition, is at its stage. -/
theorem Stage.held {disk₀ disk : Disk D} (h : Stage copies v₀ disk₀)
    (hvolume : disk.volume = disk₀.volume) (hpart : disk₀.part1 = true → disk.part1 = true) :
    Stage copies v₀ disk := by
  obtain ⟨part1, v⟩ := disk
  obtain rfl : v = disk₀.volume := hvolume
  cases h with
  | untouched h => exact .untouched h
  | encrypted =>
    obtain rfl : part1 = true := hpart rfl
    exact .encrypted
  | formatted hvar =>
    obtain rfl : part1 = true := hpart rfl
    exact .formatted hvar

/-- Where nobody has said yes and the disk was not provisioned, it is at one of its stages. -/
theorem blank_stage (hcfg : cli.cfg = some cfg)
    (hlegacy : b.shelf.legacy = ⟨true, .plain (.btrfs fs)⟩) (hstage : Stage copies v₀ b.shelf.blank)
    (hsource : b.plan = .migrate ids.legacy ids.blank → ∀ tree, fs.var = some tree → copies tree)
    (h : Run (onMachine cfg) (run cli) (({}, []), b.start ids) b.outcome
      ((b.world, b.events), b.machine)) :
    Agreed b.events ∨ b.plan = .provision ids.blank ∨ Stage copies v₀ (b.left ids).blank := by
  have hstart : Staged copies v₀ ids.blank (b.start ids) := start_staged hstage
  have staged : Staged copies v₀ ids.blank b.machine → Agreed b.events ∨
      b.plan = .provision ids.blank ∨ Stage copies v₀ (b.left ids).blank :=
    fun hstaged => Or.inr (Or.inr (left_stage hstage hstaged.stage))
  rcases run_carryOut cli hcfg h with ⟨hsame, -⟩ | ⟨y, hy, hI, hready, htold, hrun⟩
  · exact staged (by rw [show b.machine = _ from hsame]; exact hstart)
  have hcut := hrun.toCut
  have hstaged : Staged copies v₀ ids.blank y.2 := hy ▸ hstart
  have hplan : (((b.world, b.events), b.machine) : Site D).1.1.plan = b.plan := rfl
  rw [hplan] at htold hcut
  cases hp : b.plan with
  | unlock id =>
    rw [hp] at htold hcut
    have holds : (b.start ids).Holds y.2 := hy ▸ Machine.Holds.refl _
    rcases (unlock_kept id hI hready holds).1 _ hcut with hagreed | hkept
    · exact Or.inl hagreed
    · refine Or.inr (Or.inr (left_stage hstage fun disk hdisk => ?_))
      obtain ⟨disk₀, hdisk₀, hvolume, hpart⟩ := hkept ids.blank disk hdisk
      exact (start_stage hstage disk₀ hdisk₀).held hvolume hpart
  | bootLegacy id =>
    rw [hp] at hcut
    refine hp ▸ staged ((staged_spec (ensureLabel_within id) ?_ hstaged).1 _ hcut)
    simp [labelCmds, Cmd.SparesVar]
  | migrate legacy blank =>
    rw [hp] at htold hcut
    have hold : ClassTold (b.start ids) legacy .legacy := htold _ List.mem_cons_self
    have hnew : ClassTold (b.start ids) blank .blank :=
      htold _ (List.mem_cons_of_mem _ (List.mem_singleton_self _))
    by_cases hblank : blank = ids.blank
    · subst hblank
      obtain ⟨rfl, hattached⟩ : legacy = ids.legacy ∧ b.withLegacy = true := by
        rcases legacy_told hold with h | ⟨hsame, -⟩
        · exact h
        · exact (told_apart start_booted hold hnew hsame).elim
      have hdisk : (b.start ids).disks ids.legacy = some ⟨true, .plain (.btrfs fs)⟩ := by
        rw [start_legacy, if_pos hattached, hlegacy]
      have hhalf : Halfway copies v₀ ids.legacy ids.blank fs.var y.2 :=
        ⟨hstaged, hy ▸ start_booted.intact hdisk⟩
      have hnone : y.2.table ids.blank ≠ some true := hy ▸ blank_told start_booted hnew
      have hspec : wpOk (onMachine cfg) (fun y => Halfway copies v₀ ids.legacy ids.blank fs.var y.2)
          (carryOut cfg (.migrate ids.legacy ids.blank)) (fun _ _ => True) y :=
        wpOk_seq (migrate_halfway ids.apart (hsource hp) hhalf hnone) fun never => never.elim
      exact hp ▸ staged (hspec.1 _ hcut).staged
    · have habsent := blank_told_absent hlegacy hnew hblank
      have hspec : wpOk (onMachine cfg) (fun y => Staged copies v₀ ids.blank y.2)
          (carryOut cfg (.migrate legacy blank)) (fun _ _ => True) y :=
        wpOk_seq (migrate_absent legacy hblank (hy ▸ habsent) hstaged) fun never => never.elim
      exact hp ▸ staged (hspec.1 _ hcut)
  | provision id =>
    rw [hp] at htold hcut
    by_cases hblank : id = ids.blank
    · exact Or.inr (Or.inl (by rw [hblank]))
    · have habsent := blank_told_absent hlegacy (htold _ (List.mem_singleton_self _)) hblank
      exact hp ▸ staged ((provision_absent hblank (hy ▸ habsent) hstaged).1 _ hcut)
  | block reason =>
    rw [hp] at hcut
    exact hp ▸ staged ((staged_spec (never_within (blockForever_within reason))
      (List.forall_mem_nil _) hstaged).1 _ hcut)
  | noDisks =>
    rw [hp] at hcut
    obtain ⟨hsame, -⟩ := run_fail.mp hcut
    exact hp ▸ staged (by rw [show b.machine = y.2 from congrArg Prod.snd hsame]; exact hstaged)

/-- Where a boot is released with the disk and without the legacy one and nobody has said yes,
its `var` is a copy, or it still held what it held at first. -/
theorem blank_released (hcfg : cli.cfg = some cfg)
    (hlegacy : b.shelf.legacy = ⟨true, .plain (.btrfs fs)⟩) (hstage : Stage copies v₀ b.shelf.blank)
    (hattached : b.withBlank = true) (hdetached : b.withLegacy = false) (hreleased : b.Released)
    (h : Run (onMachine cfg) (run cli) (({}, []), b.start ids) b.outcome
      ((b.world, b.events), b.machine)) :
    Agreed b.events ∨ Complete copies ids.blank b.machine ∨ Was v₀ b.shelf.blank.volume := by
  rcases run_carryOut cli hcfg h with ⟨-, hno⟩ | ⟨y, hy, hI, hready, htold, hrun⟩
  · exact (hno () hreleased).elim
  have hplan : (((b.world, b.events), b.machine) : Site D).1.1.plan = b.plan := rfl
  rw [hplan] at htold hrun
  rw [show b.outcome = some (.ok ()) from hreleased] at hrun
  have hdisk : (b.start ids).disks ids.blank = some b.shelf.blank := by
    rw [start_blank, if_pos hattached]
  cases hp : b.plan with
  | unlock id =>
    rw [hp] at htold hrun
    obtain rfl : id = ids.blank := luks_told hlegacy (htold _ (List.mem_singleton_self _))
    have holds : (b.start ids).Holds y.2 := hy ▸ Machine.Holds.refl _
    rcases (unlock_kept ids.blank hI hready holds).1 _ hrun.toCut with hagreed | hkept
    · exact Or.inl hagreed
    obtain ⟨-, hmapper, c, fs', -, hfs', -, hvar⟩ := (unlock_ends ids.blank).2 _ _ hrun () rfl
    have hvolume := volume_of_mapper hmapper (Machine.fs_eq_some.mp hfs')
    obtain ⟨disk, hleft, hluks⟩ := Option.map_eq_some_iff.mp hvolume
    obtain ⟨disk₀, hdisk₀, hsame, -⟩ := hkept ids.blank disk hleft
    obtain rfl : disk₀ = b.shelf.blank := Option.some.inj (hdisk₀.symm.trans hdisk)
    have hshelf : b.shelf.blank.volume = .luks (.btrfs fs') := hsame.symm.trans hluks
    generalize b.shelf.blank = disk₀ at hstage hshelf ⊢
    cases hstage with
    | untouched hwas => exact Or.inr (Or.inr hwas)
    | encrypted => cases hshelf
    | formatted hcopy =>
      cases hshelf
      obtain ⟨tree, htree⟩ := Option.isSome_iff_exists.mp hvar
      exact Or.inr (Or.inl ⟨fs', tree, hvolume, htree, hcopy tree htree⟩)
  | bootLegacy id =>
    rw [hp] at htold
    rcases legacy_told (htold _ (List.mem_singleton_self _)) with ⟨-, hattached⟩ | ⟨-, fs', hshelf⟩
    · rw [hdetached] at hattached
      cases hattached
    · rw [hshelf] at hstage ⊢
      cases hstage with
      | untouched hwas => exact Or.inr (Or.inr hwas)
  | migrate legacy blank =>
    rw [hp] at hrun
    obtain ⟨never, -⟩ := run_bind_ok.mp hrun
    exact never.elim
  | provision id =>
    rw [hp] at htold hrun
    have hnew : ClassTold (b.start ids) id .blank := htold _ (List.mem_singleton_self _)
    by_cases hblank : id = ids.blank
    · subst hblank
      have hpart : b.shelf.blank.part1 = false := by
        have htable := blank_told start_booted hnew
        rw [table_of_disks hdisk] at htable
        simpa using htable
      exact Or.inr (Or.inr (hstage.was hpart))
    · have habsent := blank_told_absent hlegacy hnew hblank
      have hstaged : Staged copies v₀ ids.blank y.2 := hy ▸ start_staged hstage
      exact ((provision_absent hblank (hy ▸ habsent) hstaged).2 _ _ hrun () rfl).elim
  | block reason =>
    rw [hp] at hrun
    obtain ⟨never, -⟩ := run_bind_ok.mp hrun
    exact never.elim
  | noDisks =>
    rw [hp] at hrun
    obtain ⟨-, h | h⟩ := run_fail.mp hrun <;> cases h

end Blank

/-! ## Chains of boots -/

namespace Boot

variable (ids : Pair)

/-- The subvolume `var` of the legacy disk is what it was when the boot began. -/
def LegacyKept (b : Boot D) : Prop :=
  ∃ fs fs', b.shelf.legacy = ⟨true, .plain (.btrfs fs)⟩ ∧
    (b.left ids).legacy = ⟨true, .plain (.btrfs fs')⟩ ∧ fs'.var = fs.var

/-- The boot takes the new disk into use: an operator said yes, or the disk was changed to
provision it, or the main system was released from it. -/
def TakesBlank (b : Boot D) : Prop :=
  Agreed b.events ∨ b.plan = .provision ids.blank ∧ (b.left ids).blank ≠ b.shelf.blank ∨
    b.Released ∧ b.plan.bootDisk = some ids.blank

end Boot

/-- The trees that a migration was to copy: the subvolume `var` of the legacy disk, as it was
in one of the boots in which a migration was planned. -/
def Sources (ids : Pair) (bs : List (Boot D)) (tree : Tree D) : Prop :=
  ∃ c ∈ bs, c.plan = .migrate ids.legacy ids.blank ∧
    ∃ fs, c.shelf.legacy.volume = .plain (.btrfs fs) ∧ fs.var = some tree

/-- Why a boot from the new disk may be released: an operator has said yes, the disk was taken
into use before, its `var` is a complete copy of a source, or the disk still held what it held
at first. -/
def Boot.Justified (ids : Pair) (s₀ : Shelf D) (earlier : List (Boot D)) (b : Boot D) : Prop :=
  Agreed b.events ∨ (∃ c ∈ earlier, c.TakesBlank ids) ∨
    Complete (Sources ids earlier) ids.blank b.machine ∨
    Was s₀.blank.volume b.shelf.blank.volume

/-- What holds of the disks after some boots. -/
structure Settled (ids : Pair) (s₀ : Shelf D) (bs : List (Boot D)) (s : Shelf D) : Prop where
  legacy : ∃ fs, s.legacy = ⟨true, .plain (.btrfs fs)⟩
  blank : (∃ c ∈ bs, c.TakesBlank ids) ∨ Stage (Sources ids bs) s₀.blank.volume s.blank

section Chain

variable {cli : Cli} {ids : Pair} {s₀ s : Shelf D} {bs : List (Boot D)} {b : Boot D} {fs : Btrfs D}

theorem used_legacy {disk : Disk D} (h : Disk.Used ⟨true, .plain (.btrfs fs)⟩ disk) :
    ∃ fs', disk = ⟨true, .plain (.btrfs fs')⟩ := by
  cases h with
  | idle => exact ⟨fs, rfl⟩
  | plain part1 fs tree => exact ⟨_, rfl⟩

theorem Sources.mono {tree : Tree D} (h : Sources ids bs tree) : Sources ids (bs ++ [b]) tree := by
  obtain ⟨c, hc, h⟩ := h
  exact ⟨c, List.mem_append_left _ hc, h⟩

/-- One more boot. -/
theorem boot_settled (hcfg : cli.cfg = some cfg) (h : Settled ids s₀ bs b.shelf)
    (ran : Run (onMachine cfg) (run cli) (({}, []), b.start ids) b.outcome
      ((b.world, b.events), b.machine))
    (legacy : b.LeavesDisk ids.legacy (b.left ids).legacy s.legacy)
    (blank : b.LeavesDisk ids.blank (b.left ids).blank s.blank) :
    Settled ids s₀ (bs ++ [b]) s := by
  obtain ⟨fs, hlegacy⟩ := h.legacy
  obtain ⟨fs', hleft, -⟩ := legacy_kept hcfg hlegacy ran
  refine ⟨?_, ?_⟩
  · rcases legacy with hsame | ⟨-, -, hused⟩
    · exact ⟨fs', hsame.trans hleft⟩
    · rw [hleft] at hused
      exact used_legacy hused
  have last : b ∈ bs ++ [b] := List.mem_append_right _ (List.mem_singleton_self _)
  rcases h.blank with ⟨c, hc, htakes⟩ | hstage
  · exact Or.inl ⟨c, List.mem_append_left _ hc, htakes⟩
  rcases blank with hsame | ⟨hreleased, hdisk, -⟩
  · have hstage' : Stage (Sources ids (bs ++ [b])) s₀.blank.volume b.shelf.blank :=
      hstage.mono fun _ htree => htree.mono
    have hsource : b.plan = .migrate ids.legacy ids.blank →
        ∀ tree, fs.var = some tree → Sources ids (bs ++ [b]) tree := by
      intro hplan tree htree
      exact ⟨b, last, hplan, fs, by rw [hlegacy], htree⟩
    rw [hsame]
    rcases blank_stage hcfg hlegacy hstage' hsource ran with hagreed | hplan | hleft'
    · exact Or.inl ⟨b, last, Or.inl hagreed⟩
    · by_cases hblank : (b.left ids).blank = b.shelf.blank
      · exact Or.inr (hblank ▸ hstage')
      · exact Or.inl ⟨b, last, Or.inr (Or.inl ⟨hplan, hblank⟩)⟩
    · exact Or.inr hleft'
  · exact Or.inl ⟨b, last, Or.inr (Or.inr ⟨hreleased, hdisk⟩)⟩

theorem boots_settled (hcfg : cli.cfg = some cfg)
    (hlegacy : s₀.legacy = ⟨true, .plain (.btrfs fs)⟩) (h : Boots cfg cli ids s₀ bs s) :
    Settled ids s₀ bs s := by
  induction h with
  | off => exact ⟨⟨fs, hlegacy⟩, Or.inr (.untouched (Or.inl rfl))⟩
  | boot earlier ran legacy blank ih => exact boot_settled hcfg ih ran legacy blank

theorem boots_nil (h : Boots cfg cli ids s₀ [] s) : s = s₀ := by
  generalize hbs : ([] : List (Boot D)) = l at h
  cases h with
  | off => rfl
  | boot => simp at hbs

/-- The last boot of a chain, and the chain before it. -/
theorem boots_concat (h : Boots cfg cli ids s₀ (bs ++ [b]) s) :
    Boots cfg cli ids s₀ bs b.shelf ∧ Run (onMachine cfg) (run cli) (({}, []), b.start ids)
      b.outcome ((b.world, b.events), b.machine) := by
  generalize hbs : bs ++ [b] = l at h
  cases h with
  | off => simp at hbs
  | boot earlier ran _ _ =>
    obtain ⟨rfl, hb⟩ := List.append_inj' hbs rfl
    obtain rfl := List.singleton_injective hb
    exact ⟨earlier, ran⟩

/-- A part of a chain at its end is a chain. -/
theorem boots_split {later : List (Boot D)} (h : Boots cfg cli ids s₀ (bs ++ later) s) :
    ∃ m, Boots cfg cli ids s₀ bs m ∧ Boots cfg cli ids m later s := by
  generalize hall : bs ++ later = l at h
  induction h generalizing later with
  | off =>
    obtain ⟨rfl, rfl⟩ := List.append_eq_nil_iff.mp hall
    exact ⟨s₀, .off, .off⟩
  | @boot l b s earlier ran legacy blank ih =>
    rcases later.eq_nil_or_concat' with rfl | ⟨later, b', rfl⟩
    · rw [List.append_nil] at hall
      exact ⟨s, hall ▸ .boot earlier ran legacy blank, .off⟩
    · rw [← List.append_assoc] at hall
      obtain ⟨hearlier, hb⟩ := List.append_inj' hall rfl
      obtain rfl := List.singleton_injective hb
      obtain ⟨m, hm, hrest⟩ := ih hearlier
      exact ⟨m, hm, .boot hrest ran legacy blank⟩

/-- In all boots of a chain the subvolume `var` of the legacy disk is what it was. -/
theorem boots_legacy_kept (hcfg : cli.cfg = some cfg)
    (hlegacy : s₀.legacy = ⟨true, .plain (.btrfs fs)⟩) (h : Boots cfg cli ids s₀ bs s) :
    ∀ b ∈ bs, b.LegacyKept ids := by
  intro b hb
  obtain ⟨before, after, rfl⟩ := List.append_of_mem hb
  rw [List.append_cons] at h
  obtain ⟨m, hm, -⟩ := boots_split h
  obtain ⟨hearlier, ran⟩ := boots_concat hm
  obtain ⟨fs', hfs'⟩ := (boots_settled hcfg hlegacy hearlier).legacy
  obtain ⟨fs'', hleft, hvar⟩ := legacy_kept hcfg hfs' ran
  exact ⟨fs', fs'', hfs', hleft, hvar⟩

end Chain

/-! ## The result -/

/-- For every chain of boots with any of the two disks attached, of which each is cut wherever it
likes: the subvolume `var` of the legacy disk is what it was, and a boot with the new disk and
without the legacy one is released only where that is justified. -/
theorem migration_crash_consistent (cli : Cli) {cfg : Cfg} (hcfg : cli.cfg = some cfg) {ids : Pair}
    {s₀ s : Shelf D} {fs : Btrfs D} {bs : List (Boot D)}
    (hlegacy : s₀.legacy = ⟨true, .plain (.btrfs fs)⟩) (h : Boots cfg cli ids s₀ bs s) :
    (∀ b ∈ bs, b.LegacyKept ids) ∧
      Chronicle (fun earlier b => b.withBlank = true → b.withLegacy = false → b.Released →
        b.Justified ids s₀ earlier) bs := by
  refine ⟨boots_legacy_kept hcfg hlegacy h, ?_⟩
  induction h with
  | off => exact chronicle_nil _
  | @boot bs b s earlier ran legacy blank ih =>
    obtain ⟨⟨fs', hfs'⟩, hblank⟩ := boots_settled hcfg hlegacy earlier
    refine chronicle_concat.mpr ⟨ih, fun hattached hdetached hreleased => ?_⟩
    rcases hblank with htakes | hstage
    · exact Or.inr (Or.inl htakes)
    · exact (blank_released hcfg hfs' hstage hattached hdetached hreleased ran).imp_right Or.inr

/-- After the boot `c` with a migration to the new disk, which is cut wherever it likes, `b` is
released with the new disk and without the legacy one, and nobody has said yes since. -/
structure Boot.ReleasedAfter (ids : Pair) (b c : Boot D) (between : List (Boot D)) : Prop where
  migrates : c.plan = .migrate ids.legacy ids.blank
  attached : b.withBlank = true
  detached : b.withLegacy = false
  released : b.Released
  unasked : ∀ d ∈ c :: between ++ [b], ¬ Agreed d.events

/-- For every migration in a chain of boots, wherever it and the boots after it are cut: the
subvolume `var` of the legacy disk is what it was in all of them, and a boot from the new disk alone
that is released without a yes has the complete copy, unless a boot since then has provisioned the
disk or was released from it, or the disk still held what it held when the migration began. -/
theorem released_after_migration (cli : Cli) {cfg : Cfg} (hcfg : cli.cfg = some cfg) {ids : Pair}
    {s₀ s : Shelf D} {fs : Btrfs D} {bs : List (Boot D)}
    (hlegacy : s₀.legacy = ⟨true, .plain (.btrfs fs)⟩) (h : Boots cfg cli ids s₀ bs s) :
    (∀ b ∈ bs, b.LegacyKept ids) ∧
      ∀ before c between b after, bs = before ++ (c :: between ++ [b]) ++ after →
        b.ReleasedAfter ids c between →
        Complete (Sources ids (c :: between)) ids.blank b.machine ∨
          (∃ d ∈ between, d.plan = .provision ids.blank ∧ (d.left ids).blank ≠ d.shelf.blank ∨
            d.Released ∧ d.plan.bootDisk = some ids.blank) ∨
          Was c.shelf.blank.volume b.shelf.blank.volume := by
  refine ⟨boots_legacy_kept hcfg hlegacy h, ?_⟩
  rintro before c between b after rfl hb
  obtain ⟨m', hm', -⟩ := boots_split h
  obtain ⟨m, hm, hrest⟩ := boots_split hm'
  -- the chain from the migration on begins with the disks as they were then
  obtain rfl : c.shelf = m := by
    have hmigration : Boots cfg cli ids m ([c] ++ (between ++ [b])) m' := hrest
    obtain ⟨_, hfirst, -⟩ := boots_split hmigration
    have hfirst : Boots cfg cli ids m ([] ++ [c]) _ := hfirst
    exact boots_nil (boots_concat hfirst).1
  obtain ⟨fs', hfs'⟩ := (boots_settled hcfg hlegacy hm).legacy
  obtain ⟨hearlier, ran⟩ := boots_concat hrest
  obtain ⟨⟨fs'', hfs''⟩, hblank⟩ := boots_settled hcfg hfs' hearlier
  have hunasked : ∀ d ∈ c :: between, ¬ Agreed d.events :=
    fun d hd => hb.unasked d (List.mem_append_left _ hd)
  rcases hblank with ⟨d, hd, htakes⟩ | hstage
  · have htaken := htakes.resolve_left (hunasked d hd)
    rcases List.mem_cons.mp hd with rfl | hd
    · rw [hb.migrates] at htaken
      rcases htaken with ⟨hplan, -⟩ | ⟨-, hdisk⟩
      · cases hplan
      · cases hdisk
    · exact Or.inr (Or.inl ⟨d, hd, htaken⟩)
  · rcases blank_released hcfg hfs'' hstage hb.attached hb.detached hb.released ran with h | h
    · exact absurd h (hb.unasked b (List.mem_append_right _ (List.mem_singleton_self b)))
    · exact h.imp_right Or.inr

/-! ## Concrete chains -/

theorem thePair_apart : "scsi-0HC_Volume_1" ≠ "scsi-0HC_Volume_2" := by decide

def thePair : Pair := ⟨"scsi-0HC_Volume_1", "scsi-0HC_Volume_2", thePair_apart⟩

/-- The names of the disks that are attached. -/
def attachedNames (withLegacy withBlank : Bool) : List String :=
  (if withLegacy then [thePair.legacy] else []) ++ if withBlank then [thePair.blank] else []

theorem volumesOf_attached (withLegacy withBlank : Bool) :
    volumesOf sampleCfg (attachedNames withLegacy withBlank) = attachedNames withLegacy withBlank := by
  have hall : (attachedNames withLegacy withBlank).filter
      (fun n => startsWith n sampleCfg.pre && !contains n "-part") =
        attachedNames withLegacy withBlank := by
    cases withLegacy <;> cases withBlank <;> decide
  rw [volumesOf, hall]
  refine List.mergeSort_of_pairwise ?_
  cases withLegacy <;> cases withBlank <;> decide

def pairBench (withLegacy withBlank : Bool) : Bench where
  volumes := attachedNames withLegacy withBlank
  partuuid id := if id = thePair.legacy then varTypeGuid else sampleCli.luksPartuuid
  answer _ := "correct horse"

/-- A boot on the bench, which is cut when the fuel is out. -/
def benchBoot (fuel : Nat) (s : Shelf Nat) (withLegacy withBlank : Bool) : Boot Nat :=
  let r := (runOn sampleCfg (attachedNames withLegacy withBlank)).exec
    ((pairBench withLegacy withBlank).oracle sampleCfg) fuel
    (({}, []), s.machine thePair withLegacy withBlank)
  { withLegacy, withBlank, shelf := s, outcome := r.1, world := r.2.1.1, events := r.2.1.2
    machine := r.2.2 }

theorem benchBoot_run (fuel : Nat) (s : Shelf Nat) (withLegacy withBlank : Bool) :
    Run (onMachine sampleCfg) (run sampleCli)
      (({}, []), (benchBoot fuel s withLegacy withBlank).start thePair)
      (benchBoot fuel s withLegacy withBlank).outcome
      (((benchBoot fuel s withLegacy withBlank).world,
        (benchBoot fuel s withLegacy withBlank).events),
        (benchBoot fuel s withLegacy withBlank).machine) := by
  refine runOn_run rfl (attachedNames withLegacy withBlank) ?_
  rw [volumesOf_attached]
  exact bench_run _ _ _

/-- How a boot ends: its result, its plan, what it leaves and whether a `Confirm` was answered. -/
def Boot.ending (b : Boot Nat) : Option (Except Error Unit) × Plan × Shelf Nat × Bool :=
  (b.outcome, b.plan, b.left thePair, (answers b.events).any fun a => a.1.kind = .confirm)

/-- A chain goes on with a boot on the bench. -/
theorem Boots.bench {s₀ s s' : Shelf Nat} {bs : List (Boot Nat)} {b : Boot Nat} {fuel : Nat}
    {withLegacy withBlank : Bool} {o : Option (Except Error Unit)} {p : Plan}
    (h : Boots sampleCfg sampleCli thePair s₀ bs s)
    (hb : b = benchBoot fuel s withLegacy withBlank) (hend : b.ending = (o, p, s', false)) :
    Boots sampleCfg sampleCli thePair s₀ (bs ++ [b]) s' := by
  have hleft : b.left thePair = s' := congrArg (fun e => e.2.2.1) hend
  subst hb
  exact .boot h (benchBoot_run fuel s withLegacy withBlank) (Or.inl (by rw [hleft]))
    (Or.inl (by rw [hleft]))

/-- The disks with a legacy filesystem on the one and a volume at the place of partition 1 on the
other. -/
def shelfOf (part1 : Bool) (v : Volume Nat) : Shelf Nat where
  legacy := ⟨true, .plain (.btrfs { label := "var", var := some (.whole 1) })⟩
  blank := ⟨part1, v⟩

/-- An encrypted volume with a filesystem and a subvolume `var`. -/
def encryptedOf (tree : Tree Nat) : Volume Nat := .luks (.btrfs { label := "var", var := some tree })

/-- A migration that is not cut. -/
def wholeBoot : Boot Nat := benchBoot 150 (shelfOf false (.plain .blank)) true true

theorem wholeBoot_ending : wholeBoot.ending =
    (none, .migrate thePair.legacy thePair.blank, shelfOf true (encryptedOf (.whole 1)), false) := by
  decide +kernel

/-- A boot of the new disk alone, once it has a volume with such a subvolume. -/
def aloneBoot (files : Nat) : Boot Nat :=
  benchBoot 400 (shelfOf true (encryptedOf (.whole files))) false true

theorem aloneBoot_ending : ∀ files ∈ [1, 2, 3], (aloneBoot files).ending =
    (some (.ok ()), .unlock thePair.blank, shelfOf true (encryptedOf (.whole files)), false) := by
  decide +kernel

theorem migrated_chain : Boots sampleCfg sampleCli thePair (shelfOf false (.plain .blank))
    [wholeBoot, aloneBoot 1] (shelfOf true (encryptedOf (.whole 1))) :=
  (Boots.off.bench rfl wholeBoot_ending).bench rfl (aloneBoot_ending 1 (by decide))

/-- After a migration the new disk is booted without a question. -/
theorem migration_crash_consistent_sample : wholeBoot.LegacyKept thePair ∧
    (aloneBoot 1).Justified thePair (shelfOf false (.plain .blank)) [wholeBoot] := by
  have hresult := migration_crash_consistent sampleCli rfl rfl migrated_chain
  refine ⟨hresult.1 _ List.mem_cons_self, hresult.2 [wholeBoot] (aloneBoot 1) [] rfl rfl rfl ?_⟩
  exact congrArg Prod.fst (aloneBoot_ending 1 (by decide))

theorem not_agreed {b : Boot Nat} (h : b.ending.2.2.2 = false) : ¬ Agreed b.events := by
  rintro ⟨p, v, hkind, hanswered, -⟩
  exact List.any_eq_false.mp h _ hanswered.mem_answers (decide_eq_true hkind)

/-- A migration that is cut where it asks for a passphrase. -/
def askedBoot : Boot Nat := benchBoot 40 (shelfOf false (.plain .blank)) true true

theorem askedBoot_ending : askedBoot.ending =
    (none, .migrate thePair.legacy thePair.blank, shelfOf false (.plain .blank), false) := by
  decide +kernel

theorem again_chain : Boots sampleCfg sampleCli thePair (shelfOf false (.plain .blank))
    [askedBoot, wholeBoot, aloneBoot 1] (shelfOf true (encryptedOf (.whole 1))) :=
  ((Boots.off.bench rfl askedBoot_ending).bench rfl wholeBoot_ending).bench rfl
    (aloneBoot_ending 1 (by decide))

/-- A migration that was cut is begun again, and the new disk is booted with the copy. -/
theorem released_after_migration_sample : askedBoot.LegacyKept thePair ∧
    Complete (Sources thePair [askedBoot, wholeBoot]) thePair.blank (aloneBoot 1).machine := by
  obtain ⟨hkept, hfounded⟩ := released_after_migration sampleCli rfl rfl again_chain
  refine ⟨hkept _ List.mem_cons_self, ?_⟩
  have hwhole : wholeBoot.plan = .migrate thePair.legacy thePair.blank :=
    congrArg (fun e => e.2.1) wholeBoot_ending
  have hafter : (aloneBoot 1).ReleasedAfter thePair askedBoot [wholeBoot] := by
    refine ⟨congrArg (fun e => e.2.1) askedBoot_ending, rfl, rfl,
      congrArg Prod.fst (aloneBoot_ending 1 (by decide)), fun d hd => not_agreed ?_⟩
    revert d
    simp [askedBoot_ending, wholeBoot_ending, aloneBoot_ending 1 (by decide)]
  rcases hfounded [] askedBoot [wholeBoot] (aloneBoot 1) [] rfl hafter with h | ⟨d, hd, h⟩ | h
  · exact h
  · rw [List.mem_singleton.mp hd, hwhole] at h
    rcases h with ⟨hplan, -⟩ | ⟨-, hdisk⟩
    · cases hplan
    · cases hdisk
  · rcases h with h | ⟨fs₀, fs, ⟨h, -⟩ | ⟨h, -⟩, -⟩ <;> cases h

/-! ## Releases without a copy -/

/-- After a migration to the new disk was begun, the boot is released from that disk although
nobody has said yes so far and its `var` is no complete copy. -/
def Boot.Unfounded (ids : Pair) (earlier : List (Boot D)) (b : Boot D) : Prop :=
  b.withBlank = true ∧ b.withLegacy = false ∧ b.Released ∧
    (∃ c ∈ earlier, c.plan = .migrate ids.legacy ids.blank) ∧
    (∀ c ∈ earlier ++ [b], ¬ Agreed c.events) ∧
    ¬ Complete (Sources ids earlier) ids.blank b.machine

/-- A boot of the new disk that is released with another `var` than the legacy disk ever had. -/
theorem unfounded_of_ending {earlier : List (Boot Nat)} {b : Boot Nat} {p : Plan} {tree : Tree Nat}
    (hattached : b.withBlank = true ∧ b.withLegacy = false)
    (hend : b.ending = (some (.ok ()), p, shelfOf true (encryptedOf tree), false))
    (htree : tree ≠ .whole 1) (hmigrated : ∃ c ∈ earlier, c.plan = .migrate thePair.legacy thePair.blank)
    (hquiet : ∀ c ∈ earlier, c.ending.2.2.2 = false)
    (hlegacy : ∀ c ∈ earlier, c.shelf.legacy = (shelfOf true (encryptedOf tree)).legacy) :
    b.Unfounded thePair earlier := by
  refine ⟨hattached.1, hattached.2, congrArg Prod.fst hend, hmigrated, fun c hc => ?_, ?_⟩
  · rcases List.mem_append.mp hc with hc | hc
    · exact not_agreed (hquiet c hc)
    · obtain rfl := List.mem_singleton.mp hc
      exact not_agreed (by rw [hend])
  · rintro ⟨fs, copy, hvolume, hcopy, c, hc, -, source, hsource, hvar⟩
    obtain ⟨disk, hdisk, hdiskvolume⟩ := Option.map_eq_some_iff.mp hvolume
    have hleft : b.left thePair = shelfOf true (encryptedOf tree) := congrArg (fun e => e.2.2.1) hend
    have hblank : disk.volume = encryptedOf tree := by
      have hgot : (b.machine.disks thePair.blank).getD b.shelf.blank = ⟨true, encryptedOf tree⟩ :=
        congrArg Shelf.blank hleft
      rw [hdisk] at hgot
      exact congrArg Disk.volume hgot
    rw [hblank] at hdiskvolume
    cases hdiskvolume
    rw [hlegacy c hc] at hsource
    cases hsource
    exact htree (Option.some.inj (hcopy.trans hvar.symm))

/-- The new disk alone is then a blank disk of a fresh server. -/
def freshBoot : Boot Nat := benchBoot 400 (shelfOf false (.plain .blank)) false true

theorem freshBoot_ending : freshBoot.ending =
    (some (.ok ()), .provision thePair.blank, shelfOf true (encryptedOf .empty), false) := by
  decide +kernel

theorem provisioned_chain : Boots sampleCfg sampleCli thePair (shelfOf false (.plain .blank))
    [askedBoot, freshBoot] (shelfOf true (encryptedOf .empty)) :=
  (Boots.off.bench rfl askedBoot_ending).bench rfl freshBoot_ending

theorem freshBoot_unfounded : freshBoot.Unfounded thePair [askedBoot] := by
  have hplan : askedBoot.plan = .migrate thePair.legacy thePair.blank :=
    congrArg (fun e => e.2.1) askedBoot_ending
  refine unfounded_of_ending ⟨rfl, rfl⟩ freshBoot_ending nofun ⟨_, List.mem_cons_self, hplan⟩ ?_ ?_
  · intro c hc
    rw [List.mem_singleton.mp hc, askedBoot_ending]
  · intro c hc
    rw [List.mem_singleton.mp hc]
    rfl

/-- A migration that was cut before the format leaves a blank disk, which is provisioned where it
is attached alone: the boot is released although nobody has said yes and nothing was copied. -/
theorem migration_cut_then_provisioned :
    ¬ ∀ (ids : Pair) (s₀ s : Shelf Nat) (fs : Btrfs Nat) (bs : List (Boot Nat)),
      s₀.legacy = ⟨true, .plain (.btrfs fs)⟩ → Boots sampleCfg sampleCli ids s₀ bs s →
      Chronicle (fun earlier b => ¬ b.Unfounded ids earlier) bs := by
  intro h
  exact h thePair _ _ _ _ rfl provisioned_chain [askedBoot] freshBoot [] rfl freshBoot_unfounded

/-- A migration that is cut after the new partition table, on a disk with a former volume. -/
def tableBoot : Boot Nat := benchBoot 47 (shelfOf false (encryptedOf (.whole 3))) true true

theorem tableBoot_ending : tableBoot.ending =
    (none, .migrate thePair.legacy thePair.blank, shelfOf true (encryptedOf (.whole 3)), false) := by
  decide +kernel

theorem former_chain : Boots sampleCfg sampleCli thePair (shelfOf false (encryptedOf (.whole 3)))
    [tableBoot, aloneBoot 3] (shelfOf true (encryptedOf (.whole 3))) :=
  (Boots.off.bench rfl tableBoot_ending).bench rfl (aloneBoot_ending 3 (by decide))

/-- The main system has changed its files between two boots from the new disk. -/
theorem used_chain : Boots sampleCfg sampleCli thePair (shelfOf false (.plain .blank))
    [wholeBoot, aloneBoot 1, aloneBoot 2] (shelfOf true (encryptedOf (.whole 2))) := by
  have hend := aloneBoot_ending 1 (by decide)
  have hleft : (aloneBoot 1).left thePair = shelfOf true (encryptedOf (.whole 1)) :=
    congrArg (fun e => e.2.2.1) hend
  have hplan : (aloneBoot 1).plan = .unlock thePair.blank := congrArg (fun e => e.2.1) hend
  have hfirst : Boots sampleCfg sampleCli thePair (shelfOf false (.plain .blank))
      [wholeBoot] (aloneBoot 1).shelf := Boots.off.bench rfl wholeBoot_ending
  have hused : Boots sampleCfg sampleCli thePair (shelfOf false (.plain .blank))
      [wholeBoot, aloneBoot 1] (shelfOf true (encryptedOf (.whole 2))) := by
    refine .boot hfirst (benchBoot_run 400 _ false true) (Or.inl (by rw [hleft]; rfl)) ?_
    refine Or.inr ⟨congrArg Prod.fst hend, by rw [hplan]; rfl, ?_⟩
    rw [hleft]
    exact .luks true _ _
  exact hused.bench rfl (aloneBoot_ending 2 (by decide))

/-- So it is where the disk is in use since, and where a former volume has come to light. -/
theorem other_unfounded_boots :
    ((∃ s, Boots sampleCfg sampleCli thePair (shelfOf false (.plain .blank))
        [wholeBoot, aloneBoot 1, aloneBoot 2] s) ∧
      (aloneBoot 2).Unfounded thePair [wholeBoot, aloneBoot 1]) ∧
    (∃ s, Boots sampleCfg sampleCli thePair (shelfOf false (encryptedOf (.whole 3)))
        [tableBoot, aloneBoot 3] s) ∧
      (aloneBoot 3).Unfounded thePair [tableBoot] := by
  have hwhole : wholeBoot.plan = .migrate thePair.legacy thePair.blank :=
    congrArg (fun e => e.2.1) wholeBoot_ending
  have htable : tableBoot.plan = .migrate thePair.legacy thePair.blank :=
    congrArg (fun e => e.2.1) tableBoot_ending
  refine ⟨⟨⟨_, used_chain⟩, unfounded_of_ending ⟨rfl, rfl⟩ (aloneBoot_ending 2 (by decide))
    (by decide) ⟨_, List.mem_cons_self, hwhole⟩ ?_ ?_⟩, ⟨_, former_chain⟩,
    unfounded_of_ending ⟨rfl, rfl⟩ (aloneBoot_ending 3 (by decide)) (by decide)
      ⟨_, List.mem_cons_self, htable⟩ ?_ ?_⟩
  · simp only [List.forall_mem_cons, wholeBoot_ending, aloneBoot_ending 1 (by decide)]
    simp
  · simp only [List.forall_mem_cons]
    exact ⟨rfl, rfl, by simp⟩
  · simp only [List.forall_mem_cons, tableBoot_ending]
    simp
  · simp only [List.forall_mem_cons]
    exact ⟨rfl, by simp⟩

end Foundrix.VarDisk

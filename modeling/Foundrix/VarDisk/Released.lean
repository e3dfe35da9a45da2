import Foundrix.VarDisk.Bench

/-!
# Whether a released boot can mount /var

The boot mounts the filesystem that is labelled `fsLabel`, and of it the subvolume `var`.
A run that ends normally leaves that behind wherever it made the filesystem itself. Of one
that it found it checks half: the subvolume of an unlocked one, the label of a legacy one.

* `Mountable`, `Plan.Mounts`: what the boot needs of the disk of the plan.
* `Fit`: what a filesystem that was found must have had.
* `released_boot_mounts_iff`: the boot can mount `/var` exactly if it had.
-/

namespace Foundrix.VarDisk

open Effect Text

variable {D : Type} {cfg : Cfg} {x : Site D}

/-- A device holds the filesystem and the subvolume that the boot mounts. -/
def Mountable (fsLabel : String) (m : Machine D) (d : Device) : Prop :=
  ∃ fs, m.fs d = some fs ∧ fs.label = fsLabel ∧ fs.var.isSome

/-- The device that the plan selected can be mounted. -/
def Plan.Mounts (fsLabel : String) (m : Machine D) : Plan → Prop
  | .unlock id | .provision id => m.mapper = some id ∧ Mountable fsLabel m .mapper
  | .bootLegacy id => Mountable fsLabel m (.part1 id)
  | _ => False

/-- What a probe for a label shows of it. -/
def shownLabel (label : String) : Option String :=
  if trim label = "" then none else some (trim label)

/-- What the disk of the plan held at the start was fit to be mounted, or to be made so. A
legacy filesystem is labelled unless a probe shows the label that it should have. -/
def Fit (fsLabel : String) (m : Machine D) (es : List Event) : Plan → Prop
  | .unlock id => ∀ fs, m.inner id = some (.btrfs fs) → fs.label = fsLabel
  | .bootLegacy id => ∃ fs, m.fs (.part1 id) = some fs ∧ fs.var.isSome ∧
      (fs.label = fsLabel ∨ shownLabel fs.label ≠ some fsLabel ∨ ¬ LabelHeard id es)
  | _ => True

/-- Whatever always holds. -/
abbrev Any (D : Type) : Site D → Prop := fun _ => True

theorem any_stable : Stable (Any D) := fun _ _ _ => trivial

/-- A command with an effect, and what follows it. -/
theorem effect_seq {α : Type} {c : Cmd} {f : String → Daemon α} {Q : α → Site D → Prop}
    (hc : ∀ d, c ≠ .blkid .label d)
    (hf : ∀ out y, Later x y → c.effect cfg x.2 = some y.2 → wpOk (onMachine cfg) (Any D) (f out) Q y) :
    wpOk (onMachine cfg) (Any D) ((runOk cfg c).bind f) Q x :=
  wpOk_seq (runOk_effect hc trivial fun _ _ _ => trivial) fun out y _ h => hf out y h.1 h.2

theorem never_ends {α : Type} {p : Daemon Empty} {f : Empty → Daemon α} {Q : α → Site D → Prop} :
    wpOk (onMachine cfg) (Any D) (p.bind f) Q x :=
  wpOk_seq (R := fun _ _ => False) ⟨fun _ _ => trivial, fun _ _ _ never _ => never.elim⟩ nofun

theorem mount_some {d : Device} {dir : Dir} {m m' : Machine D}
    (h : (Cmd.mount d dir).effect cfg m = some m') :
    m' = { m with mounts := Function.update m.mounts dir (some d) } := by
  obtain ⟨fs, -, h⟩ := Option.map_eq_some_iff.mp h
  exact h.symm

theorem umount_some {dir : Dir} {m m' : Machine D} (h : (Cmd.umount dir).effect cfg m = some m') :
    m' = { m with mounts := Function.update m.mounts dir none } := by
  obtain ⟨d, -, h⟩ := Option.map_eq_some_iff.mp h
  exact h.symm

/-- A new subvolume on the mounted filesystem of the mapper. -/
theorem createVar_some {m m' : Machine D} (fs : Btrfs D) (hfs : m.fs .mapper = some fs)
    (hmount : m.mounts .newVarFs = some .mapper)
    (h : (Cmd.subvolCreate .newVarFs .var).effect cfg m = some m') :
    m'.mapper = m.mapper ∧ m'.fs .mapper = some { fs with var := some .empty } := by
  obtain ⟨d, fs', hd, hfs', -, hw⟩ := Machine.addSubvol_some h
  obtain rfl : d = .mapper := by
    rw [hmount] at hd
    exact (Option.some.inj hd).symm
  obtain rfl : fs' = fs := by
    rw [hfs] at hfs'
    exact (Option.some.inj hfs').symm
  exact ⟨hw.mapper, hw.fs⟩

/-- The filesystem of the mapper gets a subvolume `var`. -/
theorem createVarSubvol_ends {fs : Btrfs D} (hfs : x.2.fs .mapper = some fs) :
    wpOk (onMachine cfg) (Any D) (createVarSubvol cfg) (fun _ y => Later x y ∧
      y.2.mapper = x.2.mapper ∧ y.2.fs .mapper = some { fs with var := some .empty }) x := by
  refine aside_seq (Prog.only_perform trivial) any_stable trivial fun r y _ h₁ hy => ?_
  refine aside_seq (question_only r) any_stable trivial fun _ z _ h₂ hz => ?_
  refine effect_seq (fun _ => nofun) fun _ u h₃ hmount => ?_
  refine effect_seq (fun _ => nofun) fun _ v h₄ hcreate => ?_
  refine effect_seq (fun _ => nofun) fun _ w h₅ humount => ?_
  have hu := mount_some hmount
  have hw := umount_some humount
  obtain ⟨hmapper, hvar⟩ := createVar_some fs (by rw [hu, hz, hy]; simpa using hfs)
    (by rw [hu]; simp) hcreate
  refine wpOk_pure trivial ⟨(((h₁.trans h₂).trans h₃).trans h₄).trans h₅, ?_, ?_⟩
  · rw [hw]
    show v.2.mapper = x.2.mapper
    rw [hmapper, hu, hz, hy]
  · rw [hw, Machine.fs_mounts]
    exact hvar

/-! ## Unlock -/

/-- The volume is left as it is where it has a subvolume `var`, else it gets one. -/
theorem unlockBtrfs_ends {luksId : String} (fs : Btrfs D) (hfs : x.2.fs .mapper = some fs) :
    wpOk (onMachine cfg) (Any D) (unlockBtrfs cfg luksId) (fun _ y => Later x y ∧
      y.2.mapper = x.2.mapper ∧ ∃ fs', y.2.fs .mapper = some fs' ∧ fs'.label = fs.label ∧
        fs'.var.isSome) x := by
  refine aside_seq (Prog.only_perform trivial) any_stable trivial fun r y _ h₁ hy => ?_
  refine aside_seq (question_only r) any_stable trivial fun _ z _ h₂ hz => ?_
  refine effect_seq (fun _ => nofun) fun _ u h₃ hmount => ?_
  refine aside_seq (runOk_only cfg trivial) any_stable trivial fun _ v _ h₄ hv => ?_
  refine wpOk_seq (subvolExists_spec any_stable trivial) fun found w _ ⟨h₅, hw, hfound⟩ => ?_
  have hlater : Later x w := (((h₁.trans h₂).trans h₃).trans h₄).trans h₅
  have hmounted : w.2 = { x.2 with mounts := Function.update x.2.mounts .newVarFs (some .mapper) } := by
    rw [hw, hv, mount_some hmount, hz, hy]
  have hfs' : w.2.fs .mapper = some fs := by
    rw [hmounted, Machine.fs_mounts]
    exact hfs
  cases found with
  | true =>
    have hvar : fs.var.isSome := by
      have hshown := hfound rfl
      rw [← hw, hmounted] at hshown
      simpa [Machine.subvol, hfs, Btrfs.get] using hshown
    refine effect_seq (fun _ => nofun) fun _ t h₆ humount => ?_
    refine wpOk_pure trivial ⟨hlater.trans h₆, ?_, fs, ?_, rfl, hvar⟩
    · rw [umount_some humount, hmounted]
    · rw [umount_some humount, Machine.fs_mounts]
      exact hfs'
  | false =>
    refine aside_seq (askConfirm_aside _) any_stable trivial fun yes s _ h₆ hs => ?_
    cases yes with
    | true =>
      refine effect_seq (fun _ => nofun) fun _ t h₇ hcreate => ?_
      refine effect_seq (fun _ => nofun) fun _ r h₈ humount => ?_
      obtain ⟨hmapper, hvar⟩ := createVar_some fs (by rw [hs]; exact hfs')
        (by rw [hs, hmounted]; simp) hcreate
      refine wpOk_pure trivial ⟨((hlater.trans h₆).trans h₇).trans h₈, ?_,
        { fs with var := some .empty }, ?_, rfl, rfl⟩
      · rw [umount_some humount]
        show t.2.mapper = x.2.mapper
        rw [hmapper, hs, hmounted]
      · rw [umount_some humount, Machine.fs_mounts]
        exact hvar
    | false => exact effect_seq (fun _ => nofun) fun _ t _ _ => never_ends

theorem mkfs_some {m m' : Machine D} {d : Device} (h : (Cmd.mkfs d).effect cfg m = some m') :
    m.Wrote d (.btrfs { label := cfg.id.fsLabel }) m' := by
  obtain ⟨c, hc, h⟩ := Option.bind_eq_some_iff.mp h
  exact Machine.write_wrote h (by rw [hc]; rfl)

/-- An empty volume gets a filesystem and a subvolume `var`. -/
theorem unlockEmpty_ends {luksId : String} :
    wpOk (onMachine cfg) (Any D) (unlockEmpty cfg luksId) (fun _ y => Later x y ∧
      y.2.mapper = x.2.mapper ∧ Mountable cfg.id.fsLabel y.2 .mapper) x := by
  refine aside_seq (askConfirm_aside _) any_stable trivial fun yes y _ h₁ hy => ?_
  cases yes with
  | true =>
    refine aside_seq (state_aside _ _) any_stable trivial fun _ z _ h₂ hz => ?_
    refine effect_seq (fun _ => nofun) fun _ u h₃ hmkfs => ?_
    have hw := mkfs_some hmkfs
    refine aside_seq (looking_aside settle_looking) any_stable trivial fun _ v _ h₄ hv => ?_
    refine wpOk_mono (createVarSubvol_ends (by rw [hv]; exact hw.fs)) ?_
    rintro _ w - ⟨h₅, hmapper, hvar⟩
    refine ⟨(((h₁.trans h₂).trans h₃).trans h₄).trans h₅, ?_, _, hvar, rfl, rfl⟩
    rw [hmapper, hv, hw.mapper, hz, hy]
  | false => exact never_ends

/-- The label that the filesystem of a volume has once it was checked. -/
def Content.checkedLabel (fsLabel : String) : Content D → String
  | .btrfs fs => fs.label
  | _ => fsLabel

/-- What the check of the opened volume leaves is a filesystem with a subvolume `var`, under the
label that it had. -/
theorem checkContent_ends {luksId : String} {c : Content D} (hc : x.2.content .mapper = some c) :
    wpOk (onMachine cfg) (Any D) (checkContent cfg luksId) (fun _ y => Later x y ∧
      y.2.mapper = x.2.mapper ∧ ∃ fs, y.2.fs .mapper = some fs ∧
        fs.label = c.checkedLabel cfg.id.fsLabel ∧ fs.var.isSome) x := by
  refine wpOk_step trivial fun r y hs => ?_
  obtain ⟨h₁, hended, -⟩ := command_later (c := .blkid .type .mapper) (fun _ => nofun) hs
  have hy : y.2 = x.2 := Ended.inert (c := .blkid .type .mapper) nofun hended
  cases hfound : mapperFs r with
  | btrfs =>
    obtain ⟨out, rfl, hcode, hout⟩ := mapperFs_btrfs hfound
    obtain ⟨fs, hfs⟩ := Option.isSome_iff_exists.mp (hended.1.1 hcode hout)
    refine wpOk_mono (unlockBtrfs_ends fs (by rw [hy]; exact hfs)) ?_
    rintro _ z - ⟨h₂, hmapper, fs', hfs', hlabel, hvar⟩
    obtain rfl : c = .btrfs fs := Option.some.inj (hc.symm.trans (Machine.fs_eq_some.mp hfs))
    exact ⟨h₁.trans h₂, hmapper.trans (by rw [hy]), fs', hfs', hlabel, hvar⟩
  | empty =>
    obtain ⟨out, rfl, hcode⟩ := mapperFs_empty hfound
    obtain rfl : c = .blank := hended.1.2 hcode c hc
    refine wpOk_mono unlockEmpty_ends ?_
    rintro _ z - ⟨h₂, hmapper, hmount⟩
    exact ⟨h₁.trans h₂, hmapper.trans (by rw [hy]), hmount⟩
  | other fstype => exact never_ends
  | unknown => exact never_ends

/-- A larger partition holds the same volume. -/
theorem maybeGrowPartition_ends (luksId : String) :
    wpOk (onMachine cfg) (Any D) (maybeGrowPartition cfg luksId) (fun _ y => Later x y ∧
      y.2.mapper = x.2.mapper ∧ y.2.inner = x.2.inner) x := by
  refine aside_seq (looking_aside (blockdevBytes_looking cfg _)) any_stable trivial
    fun diskBytes y _ h₁ hy => ?_
  refine aside_seq (looking_aside (blockdevBytes_looking cfg _)) any_stable trivial
    fun partBytes z _ h₂ hz => ?_
  split
  · refine wpOk_pure trivial ⟨h₁.trans h₂, ?_, ?_⟩ <;> rw [hz, hy]
  · refine aside_seq (state_aside _ _) any_stable trivial fun _ u _ h₃ hu => ?_
    refine aside_seq (runOk_only cfg trivial) any_stable trivial fun _ v _ h₄ hv => ?_
    refine effect_seq (fun _ => nofun) fun _ w h₅ hregrow => ?_
    refine aside_seq (looking_aside settle_looking) any_stable trivial fun _ t _ h₆ ht => ?_
    refine wpOk_pure trivial ⟨((((h₁.trans h₂).trans h₃).trans h₄).trans h₅).trans h₆, ?_⟩
    obtain ⟨volume, -, hpart⟩ := Option.bind_eq_some_iff.mp hregrow
    obtain ⟨disk, hdisk, hw⟩ := Machine.setPart1_some hpart
    have hsame : v.2 = x.2 := by rw [hv, hu, hz, hy]
    rw [ht, hw, hsame]
    refine ⟨rfl, funext fun id => ?_⟩
    rw [hsame] at hdisk
    show ((x.2.setDisk luksId _).disks id).bind _ = (x.2.disks id).bind _
    rw [Machine.setDisk_disks]
    by_cases hid : id = luksId
    · rw [if_pos hid, hid, hdisk]
      rfl
    · rw [if_neg hid]

theorem luksOpen_some {persistent : Bool} {id : String} {m m' : Machine D}
    (h : (Cmd.luksOpen persistent (.part1 id)).effect cfg m = some m') :
    m.mapper = none ∧ (m.inner id).isSome ∧ m' = { m with mapper := some id } := by
  simp only [Cmd.effect] at h
  split at h
  · rename_i hnone hpart
    refine ⟨hnone, ?_, (Option.some.inj h).symm⟩
    obtain ⟨disk, hdisk, hvolume⟩ := Option.bind_eq_some_iff.mp hpart
    split at hvolume
    · simp [Machine.inner, hdisk, Option.some.inj hvolume]
    · cases hvolume
  · cases h

/-- The volume is open, and nothing else has changed. -/
theorem openVolume_ends (luksId : String) :
    wpOk (onMachine cfg) (Any D) (openVolume cfg luksId) (fun _ y => Later x y ∧
      (x.2.inner luksId).isSome ∧ y.2 = { x.2 with mapper := some luksId }) x := by
  -- an attempt that was given up may have opened it all the same
  refine wpOk_iterate (fun _ y => Later x y ∧
    (y.2 = x.2 ∨ y.2 = { x.2 with mapper := some luksId })) ⟨.refl x, Or.inl rfl⟩ ?_
  rintro _ y ⟨h₀, hstate⟩
  refine aside_seq (ask_aside _ _) any_stable trivial fun pw z _ h₁ hz => ?_
  refine aside_seq (state_aside _ _) any_stable trivial fun _ u _ h₂ hu => ?_
  refine wpOk_seq (wpOk_attempt (Q := fun r v => Later u v ∧
    ((Cmd.luksOpen false (.part1 luksId)).effect cfg u.2 = some v.2 ∨ v.2 = u.2) ∧
    (r = .ok () → (Cmd.luksOpen false (.part1 luksId)).effect cfg u.2 = some v.2))
    (runWithStdin_effect trivial fun _ _ _ => trivial)) fun r v _ ⟨h₃, hor, hok⟩ => ?_
  have hlater : Later x v := ((h₀.trans h₁).trans h₂).trans h₃
  have hstate' : u.2 = x.2 ∨ u.2 = { x.2 with mapper := some luksId } := by rw [hu, hz]; exact hstate
  have opened : (Cmd.luksOpen false (.part1 luksId)).effect cfg u.2 = some v.2 →
      (x.2.inner luksId).isSome ∧ v.2 = { x.2 with mapper := some luksId } := by
    intro heffect
    obtain ⟨hnone, hinner, hv⟩ := luksOpen_some heffect
    rcases hstate' with he | he
    · rw [he] at hinner hv
      exact ⟨hinner, hv⟩
    · rw [he] at hnone
      cases hnone
  cases r with
  | ok _ =>
    obtain ⟨hinner, hv⟩ := opened (hok rfl)
    exact wpOk_pure trivial ⟨hlater, hinner, hv⟩
  | error e =>
    refine aside_seq (state_aside _ _) any_stable trivial fun _ w _ h₄ hw => ?_
    refine wpOk_pure trivial ⟨hlater.trans h₄, ?_⟩
    rw [hw]
    rcases hor with heffect | hv
    · exact Or.inr (opened heffect).2
    · rw [hv]
      exact hstate'

/-- An unlocked volume is open, and has a filesystem with a subvolume `var`. -/
theorem unlock_ends (luksId : String) :
    wpOk (onMachine cfg) (Any D) (unlock cfg luksId) (fun _ y => Later x y ∧
      y.2.mapper = some luksId ∧ ∃ c fs, x.2.inner luksId = some c ∧ y.2.fs .mapper = some fs ∧
        fs.label = c.checkedLabel cfg.id.fsLabel ∧ fs.var.isSome) x := by
  refine wpOk_seq (maybeGrowPartition_ends luksId) fun grew y _ ⟨h₁, _, hinner⟩ => ?_
  refine wpOk_seq (openVolume_ends luksId) fun pw z _ ⟨h₂, hsome, hz⟩ => ?_
  refine aside_seq (looking_aside settle_looking) any_stable trivial fun _ u _ h₃ hu => ?_
  refine aside_seq (looking_aside (needsResize_looking cfg luksId grew)) any_stable trivial
    fun resize v _ h₄ hv => ?_
  have hlater : Later x v := ((h₁.trans h₂).trans h₃).trans h₄
  have hopen : v.2 = { y.2 with mapper := some luksId } := by rw [hv, hu, hz]
  obtain ⟨c, hc⟩ := Option.isSome_iff_exists.mp hsome
  have check : ∀ w : Site D, Later x w → w.2 = v.2 → wpOk (onMachine cfg) (Any D)
      ((checkContent cfg luksId).bind fun _ => Ui.state "unlock" "unlocked; boot continuing")
      (fun _ y => Later x y ∧ y.2.mapper = some luksId ∧ ∃ c fs, x.2.inner luksId = some c ∧
        y.2.fs .mapper = some fs ∧ fs.label = c.checkedLabel cfg.id.fsLabel ∧ fs.var.isSome) w := by
    intro w h₅ hw
    have hcontent : w.2.content .mapper = some c := by
      rw [hw, hopen]
      exact hc
    refine wpOk_seq (checkContent_ends hcontent) fun _ t _ ⟨h₆, hmapper, fs, hfs, hend⟩ => ?_
    refine wpOk_mono (aside_spec (state_aside _ _) any_stable trivial) ?_
    rintro _ s - ⟨h₇, hs⟩
    refine ⟨(h₅.trans h₆).trans h₇, ?_, c, fs, hinner ▸ hc, hs ▸ hfs, hend⟩
    rw [hs, hmapper, hw, hopen]
  cases resize with
  | false => exact check v hlater rfl
  | true =>
    refine aside_seq (state_aside _ _) any_stable trivial fun _ w _ h₅ hw => ?_
    refine aside_seq (runWithStdin_only cfg trivial) any_stable trivial fun _ t _ h₆ ht => ?_
    refine aside_seq (looking_aside settle_looking) any_stable trivial fun _ s _ h₇ hs => ?_
    exact check s (((hlater.trans h₅).trans h₆).trans h₇) (by rw [hs, ht, hw])

/-- An unlocked volume can be mounted unless it held a filesystem with another label. -/
theorem unlock_mounts {fsLabel id : String} {es : List Event} {m m' : Machine D} {c : Content D}
    {fs : Btrfs D} (hmapper : m'.mapper = some id) (hc : m.inner id = some c)
    (hfs : m'.fs .mapper = some fs) (hlabel : fs.label = c.checkedLabel fsLabel)
    (hvar : fs.var.isSome) :
    (Plan.unlock id).Mounts fsLabel m' ↔ Fit fsLabel m es (.unlock id) := by
  constructor
  · rintro ⟨-, fs₁, hfs₁, hlabel₁, -⟩ fs₀ hfs₀
    obtain rfl : c = .btrfs fs₀ := Option.some.inj (hc.symm.trans hfs₀)
    obtain rfl : fs₁ = fs := Option.some.inj (hfs₁.symm.trans hfs)
    exact hlabel.symm.trans hlabel₁
  · intro hfit
    refine ⟨hmapper, fs, hfs, hlabel.trans ?_, hvar⟩
    cases c with
    | btrfs fs₀ => exact hfit fs₀ hc
    | blank => rfl
    | other => rfl

/-! ## The other plans -/

theorem setLabel_some {d : Device} {m m' : Machine D} (fs : Btrfs D) (hfs : m.fs d = some fs)
    (h : (Cmd.setLabel d).effect cfg m = some m') :
    m'.fs d = some { fs with label := cfg.id.fsLabel } := by
  obtain ⟨fs₀, fs', hfs₀, hf, hw⟩ := Machine.setFs_some h
  obtain rfl : fs₀ = fs := Option.some.inj (hfs₀.symm.trans hfs)
  cases hf
  exact hw.fs

theorem probeValue_ends {c : Cmd} :
    wpOk (onMachine cfg) (Any D) (probeValue c) (fun v y => ∃ out, v = probed out ∧
      (onMachine cfg).step (.output c) x (.ok out) y) x := by
  refine wpOk_step (show Any D x from trivial) fun r y hs => ?_
  cases r with
  | error e => exact wpOk_fail trivial
  | ok out => exact wpOk_pure trivial ⟨out, rfl, hs⟩

/-- A legacy filesystem can be mounted if it has the subvolume, and either the label or one
that is seen to be another. -/
theorem ensureLabel_ends {id : String} {fs : Btrfs D} (hfs : x.2.fs (.part1 id) = some fs)
    (hfirst : ¬ LabelHeard id x.1.2) :
    wpOk (onMachine cfg) (Any D) (ensureLabel cfg id) (fun _ y =>
      y.1.1.snapshot.disks = x.1.1.snapshot.disks ∧
      ((Plan.bootLegacy id).Mounts cfg.id.fsLabel y.2 ↔
        Fit cfg.id.fsLabel x.2 y.1.2 (.bootLegacy id))) x := by
  refine wpOk_seq probeValue_ends fun label y _ hseen => ?_
  obtain ⟨out, rfl, hs⟩ := hseen
  have hworld : y.1.1 = x.1.1 := hs.1.1
  have hlog : y.1.2 = x.1.2 ++ [.ran (.blkid .label (.part1 id)) (.ok out)] := hs.1.2
  have hy : y.2 = x.2 := by
    have hended : Ended cfg (.blkid .label (.part1 id)) x.2 y.2 (.ok out) := hs.2
    rcases hended.effect_or with h | h
    · exact (Option.some.inj h).symm
    · exact h
  have hheard : LabelHeard id y.1.2 ↔ out.status.success = true := by
    constructor
    · rintro ⟨out', hmem, hout⟩
      rw [hlog] at hmem
      rcases List.mem_append.mp hmem with hmem | hmem
      · exact (hfirst ⟨out', hmem, hout⟩).elim
      · cases List.mem_singleton.mp hmem
        exact hout
    · intro hout
      exact ⟨out, by simp [hlog], hout⟩
  have hshown : out.status.success = true → probed out = shownLabel fs.label := by
    intro hout
    have htrim : trim out.stdout = trim fs.label :=
      hs.2.1 (by simpa [Status.success] using hout) fs hfs
    by_cases hblank : trim fs.label = "" <;> simp [probed, shownLabel, hout, htrim, hblank]
  have hfs' : y.2.fs (.part1 id) = some fs := by rw [hy]; exact hfs
  show wpOk (onMachine cfg) (Any D) (if probed out ≠ some cfg.id.fsLabel then _ else _) _ y
  split
  · rename_i hother
    refine aside_seq (state_aside _ _) any_stable trivial fun _ z _ h₂ hz => ?_
    refine effect_seq (fun _ hc => by cases hc) fun _ u h₃ hlabel => ?_
    refine aside_seq (Prog.only_perform trivial) any_stable trivial fun _ v _ h₄ hv => ?_
    refine wpOk_mono (aside_spec (state_aside _ _) any_stable trivial) ?_
    rintro _ w - ⟨h₅, hw⟩
    have hlater : Later y w := ((h₂.trans h₃).trans h₄).trans h₅
    have hset := setLabel_some fs (by rw [hz]; exact hfs') hlabel
    rw [← hv, ← hw] at hset
    have hseen : shownLabel fs.label ≠ some cfg.id.fsLabel ∨ ¬ LabelHeard id w.1.2 := by
      by_cases hout : out.status.success = true
      · exact Or.inl (hshown hout ▸ hother)
      · exact Or.inr fun h => hout (hheard.mp ((hlater.labelHeard id).mp h))
    refine ⟨hlater.disks.trans (by rw [hworld]), ?_, ?_⟩
    · rintro ⟨fs', hfs'', -, hvar⟩
      obtain rfl : fs' = _ := Option.some.inj (hfs''.symm.trans hset)
      exact ⟨fs, hfs, hvar, Or.inr hseen⟩
    · rintro ⟨fs', hfs'', hvar, -⟩
      obtain rfl : fs' = fs := Option.some.inj (hfs''.symm.trans hfs)
      exact ⟨_, hset, rfl, hvar⟩
  · rename_i hsame
    refine wpOk_mono (aside_spec (state_aside _ _) any_stable trivial) ?_
    rintro _ w - ⟨hlater, hw⟩
    refine ⟨hlater.disks.trans (by rw [hworld]), ?_, ?_⟩
    · rintro ⟨fs', hfs'', hlabel, hvar⟩
      obtain rfl : fs' = fs := Option.some.inj (hfs''.symm.trans (by rw [hw]; exact hfs'))
      exact ⟨fs', hfs, hvar, Or.inl hlabel⟩
    · rintro ⟨fs', hfs'', hvar, hlabel⟩
      obtain rfl : fs' = fs := Option.some.inj (hfs''.symm.trans hfs)
      have hprobed : probed out = some cfg.id.fsLabel := not_not.mp hsame
      have hout : out.status.success = true := by
        have := (probed_some hprobed).1
        simpa [Status.success] using this
      refine ⟨fs', by rw [hw]; exact hfs', ?_, hvar⟩
      rcases hlabel with hlabel | hlabel | hlabel
      · exact hlabel
      · exact (hlabel (hshown hout ▸ hprobed)).elim
      · exact (hlabel ((hlater.labelHeard id).mpr (hheard.mpr hout))).elim

/-- A new filesystem on a new encrypted volume, which is open. -/
theorem formatEncrypted_ends {blank pw : String} :
    wpOk (onMachine cfg) (Any D) (formatEncrypted cfg blank pw) (fun _ y => Later x y ∧
      y.2.mapper = some blank ∧ y.2.fs .mapper = some { label := cfg.id.fsLabel }) x := by
  have format : ∀ {c : Cmd} {secret : String} {z : Site D}, wpOk (onMachine cfg) (Any D)
      (runWithStdin cfg c secret) (fun _ y => Later z y ∧ c.effect cfg z.2 = some y.2) z :=
    runWithStdin_ok trivial fun _ _ _ => trivial
  refine aside_seq (state_aside _ _) any_stable trivial fun _ _ _ h₁ _ => ?_
  refine effect_seq (fun _ => nofun) fun _ _ h₂ _ => ?_
  refine effect_seq (fun _ => nofun) fun _ _ h₃ _ => ?_
  refine aside_seq (looking_aside settle_looking) any_stable trivial fun _ _ _ h₄ _ => ?_
  refine aside_seq (awaitDevice_only trivial trivial 60) any_stable trivial fun _ _ _ h₅ _ => ?_
  refine aside_seq (Prog.only_perform trivial) any_stable trivial fun present y _ h₆ _ => ?_
  have hlater : Later x y := ((((h₁.trans h₂).trans h₃).trans h₄).trans h₅).trans h₆
  split
  · exact wpOk_fail trivial
  · refine aside_seq (state_aside _ _) any_stable trivial fun _ _ _ h₇ _ => ?_
    refine wpOk_seq format fun _ _ _ ⟨h₈, _⟩ => ?_
    refine wpOk_seq format fun _ z _ ⟨h₉, hopen⟩ => ?_
    refine aside_seq (state_aside _ _) any_stable trivial fun _ u _ h₁₀ hu => ?_
    refine effect_seq (fun _ => nofun) fun _ v h₁₁ hmkfs => ?_
    refine aside_seq (looking_aside settle_looking) any_stable trivial fun _ w _ h₁₂ hw => ?_
    obtain ⟨-, -, hz⟩ := luksOpen_some hopen
    have hwrote := mkfs_some hmkfs
    refine wpOk_pure trivial ⟨?_, ?_, ?_⟩
    · exact (((((hlater.trans h₇).trans h₈).trans h₉).trans h₁₀).trans h₁₁).trans h₁₂
    · rw [hw, hwrote.mapper, hu, hz]
    · rw [hw]
      exact hwrote.fs

/-- A provisioned disk can be mounted. -/
theorem provision_ends {blank : String} :
    wpOk (onMachine cfg) (Any D) (provision cfg blank) (fun _ y => Later x y ∧
      (Plan.provision blank).Mounts cfg.id.fsLabel y.2) x := by
  refine aside_seq (state_aside _ _) any_stable trivial fun _ _ _ h₁ _ => ?_
  refine aside_seq (askNewPassphrase_aside cfg) any_stable trivial fun pw _ _ h₂ _ => ?_
  refine wpOk_seq formatEncrypted_ends fun _ z _ ⟨h₃, hmapper, hfs⟩ => ?_
  refine wpOk_seq (createVarSubvol_ends hfs) fun _ u _ ⟨h₄, hmapper', hvar⟩ => ?_
  refine wpOk_mono (aside_spec (state_aside _ _) any_stable trivial) ?_
  rintro _ w - ⟨h₅, hw⟩
  refine ⟨(((h₁.trans h₂).trans h₃).trans h₄).trans h₅, ?_, ?_⟩
  · rw [hw, hmapper', hmapper]
  · exact ⟨_, by rw [hw]; exact hvar, rfl, rfl⟩

/-- The plan is carried out: nothing but the plans to unlock, to boot or to provision a disk
ever end. -/
theorem carryOut_ends {p : Plan} (htold : ∀ id, p = .bootLegacy id → (x.2.fs (.part1 id)).isSome)
    (hfirst : ∀ id, ¬ LabelHeard id x.1.2) :
    wpOk (onMachine cfg) (Any D) (carryOut cfg p) (fun _ y =>
      y.1.1.snapshot.disks = x.1.1.snapshot.disks ∧
      (p.Mounts cfg.id.fsLabel y.2 ↔ Fit cfg.id.fsLabel x.2 y.1.2 p)) x := by
  cases p with
  | unlock id =>
    refine wpOk_mono (unlock_ends id) fun _ y _ h => ?_
    obtain ⟨hlater, hmapper, c, fs, hc, hfs, hlabel, hvar⟩ := h
    exact ⟨hlater.disks, unlock_mounts hmapper hc hfs hlabel hvar⟩
  | bootLegacy id =>
    obtain ⟨fs, hfs⟩ := Option.isSome_iff_exists.mp (htold id rfl)
    exact ensureLabel_ends hfs (hfirst id)
  | migrate legacy blank => exact never_ends
  | provision blank =>
    exact wpOk_mono provision_ends fun _ _ _ h => ⟨h.1.disks, iff_of_true h.2 trivial⟩
  | block reason => exact never_ends
  | noDisks => exact wpOk_fail trivial

/-! ## The result -/

/-- What is planned for the disks as they were published. -/
def World.plan (w : World) : Plan := VarDisk.plan (classesOf w.snapshot.disks)

theorem run_ends (cli : Cli) {cfg : Cfg} (hcfg : cli.cfg = some cfg) (m : Machine D) :
    wpOk (onMachine cfg) (Any D) (run cli) (fun _ y =>
      y.1.1.plan.Mounts cfg.id.fsLabel y.2 ↔ Fit cfg.id.fsLabel m y.1.2 y.1.1.plan)
      (({}, []), m) := by
  unfold run
  rw [hcfg]
  refine wpOk_seq (survey_spec any_stable trivial ⟨by simp, by simp⟩)
    fun infos y _ ⟨h₁, hy, htold⟩ => ?_
  refine wpOk_step (show Any D y from trivial) fun _ z hs => ?_
  have hz : z.2 = m := hs.2.trans hy
  have hdisks : z.1.1.snapshot.disks = infos := by
    rw [show z.1.1 = y.1.1.mutate _ from hs.1.1]
    rfl
  have hfirst : ∀ id, ¬ LabelHeard id z.1.2 := by
    rintro id ⟨out, hmem, hout⟩
    rw [hs.1.2] at hmem
    rcases List.mem_append.mp hmem with hmem | hmem
    · obtain ⟨out', hmem', -⟩ := h₁.heard id ⟨out, hmem, hout⟩
      cases hmem'
    · simp only [record, recordMutate] at hmem
      split_ifs at hmem <;> simp at hmem
  have hlegacy : ∀ id, plan (classesOf infos) = .bootLegacy id → (z.2.fs (.part1 id)).isSome := by
    intro id hplan
    have hnamed : (id, DiskClass.legacy) ∈ classesOf infos :=
      plan_named (by rw [hplan]; exact List.mem_singleton_self _)
    obtain ⟨i, hi, he⟩ := List.mem_map.mp hnamed
    obtain ⟨rfl, hclass⟩ := Prod.mk.inj he
    have hi := htold i hi
    rw [hclass] at hi
    rw [hz]
    exact hi
  refine wpOk_mono (carryOut_ends hlegacy hfirst) fun _ u _ hu => ?_
  rw [World.plan, hu.1, hdisks, ← hz]
  exact hu.2

/-- At the normal end of every run, the boot can mount `/var` from the device that the plan
selected exactly if what that disk held at the start was fit for it. -/
theorem released_boot_mounts_iff (cli : Cli) {cfg : Cfg} (hcfg : cli.cfg = some cfg)
    {m m' : Machine D} {w : World} {es : List Event}
    (h : Run (onMachine cfg) (run cli) (({}, []), m) (some (.ok ())) ((w, es), m')) :
    w.plan.Mounts cfg.id.fsLabel m' ↔ Fit cfg.id.fsLabel m es w.plan :=
  (run_ends cli hcfg m).2 _ _ h _ rfl

/-! ## Concrete boots -/

def theBench : Bench where
  volumes := ["scsi-0HC_Volume_1"]
  partuuid _ := "cab17794-a0a1-4908-8dd2-3f205a938611"
  answer _ := "correct horse"

/-- A machine with one encrypted disk, on which `var` is on a filesystem of that label. -/
def labelled (label : String) : Machine Nat where
  disks id := if id = "scsi-0HC_Volume_1" then
      some ⟨true, .luks (.btrfs { label, var := some (.whole 1) })⟩
    else none

/-- The boot of that machine. -/
def unlocked (label : String) : Option (Except Error Unit) × Site Nat :=
  (run sampleCli).exec (theBench.oracle sampleCfg) 400 (({}, []), labelled label)

theorem unlocked_run (label : String) :
    Run (onMachine sampleCfg) (run sampleCli) (({}, []), labelled label) (unlocked label).1
      (unlocked label).2 := bench_run _ _ _

/-- How that boot ends: its result, its plan and the filesystem of the mapper. -/
def unlockedEnd (label : String) : Option (Except Error Unit) × Plan × Option (Btrfs Nat) :=
  let r := unlocked label
  (r.1, r.2.1.1.plan, r.2.2.fs .mapper)

theorem unlockedEnd_other : unlockedEnd "data" = (some (.ok ()), .unlock "scsi-0HC_Volume_1",
    some { label := "data", var := some (.whole 1) }) := by decide +kernel

theorem unlockedEnd_var : unlockedEnd "var" = (some (.ok ()), .unlock "scsi-0HC_Volume_1",
    some { label := "var", var := some (.whole 1) }) := by decide +kernel

theorem released_boot_mounts_iff_sample :
    (unlocked "var").2.1.1.plan.Mounts "var" (unlocked "var").2.2 := by
  obtain ⟨hend, hplan, -⟩ := by simpa [unlockedEnd] using unlockedEnd_var
  have hrun := unlocked_run "var"
  rw [hend] at hrun
  refine (released_boot_mounts_iff sampleCli rfl hrun).mpr ?_
  rw [hplan]
  intro fs hfs
  cases hfs
  rfl

/-- A volume whose filesystem has another label is unlocked, and the boot is released. -/
theorem other_label_released :
    ¬ ∀ (m m' : Machine Nat) (w : World) (es : List Event),
      Run (onMachine sampleCfg) (run sampleCli) (({}, []), m) (some (.ok ())) ((w, es), m') →
      w.plan.Mounts "var" m' := by
  intro h
  obtain ⟨hend, hplan, hfs⟩ := by simpa [unlockedEnd] using unlockedEnd_other
  have hrun := unlocked_run "data"
  rw [hend] at hrun
  have hmounts := h _ _ _ _ hrun
  rw [hplan] at hmounts
  obtain ⟨-, fs, hfs', hlabel, -⟩ := hmounts
  obtain rfl := Option.some.inj (hfs'.symm.trans hfs)
  exact absurd hlabel (by decide)

end Foundrix.VarDisk

import Foundrix.VarDisk.Safety
import Foundrix.VarDisk.Stages

/-!
# A migration that is cut

A migration keeps the new disk within its stages, and the subvolume `var` of the legacy disk
as it is, at every one of its steps: the one subvolume `var` that it makes is a snapshot of
what was received to the end.

* `copyWithProgress_spec`: what was received is what was sent.
* `copyVar_halfway`, `migrate_halfway`: the migration.
* `formatEncrypted_absent`: a disk that is not attached is not formatted.
-/

namespace Foundrix.VarDisk

open Effect Text

variable {D : Type} {cfg : Cfg} {m m' : Machine D} {id : String} {x : Site D} {α β : Type}
  {cs : List Cmd}

/-! ## Mounts -/

/-- The commands that mount nothing and unmount nothing. -/
def Cmd.KeepsMounts : Cmd → Prop
  | .mount _ _ | .umount _ => False
  | _ => True

theorem effect_mounts {c : Cmd} (hc : c.KeepsMounts) (h : c.effect cfg m = some m') :
    m'.mounts = m.mounts := by
  rcases effect_cases h with ⟨d, old, fs, -, -, hw⟩ | ⟨j, present, -, hset⟩ | ⟨j, -, -, hset⟩ |
    ⟨mapper, mounts, hs, rfl⟩
  · exact hw.mounts
  · obtain ⟨disk, -, rfl⟩ := Machine.setPart1_some hset
    rfl
  · obtain ⟨disk, -, rfl⟩ := Machine.setVolume_some hset
    rfl
  · cases c with
    | luksOpen persistent d =>
      obtain ⟨j, -, -, -, hmounts⟩ := hs
      exact hmounts
    | mount d dir => exact hc.elim
    | umount dir => exact hc.elim
    | _ => exact hs.2

/-- What was received is where it was sent to, and nothing else has changed. -/
theorem setReceived_subvol {dir : Dir} {tree : Option (Tree D)}
    (h : m.setReceived dir tree = some m') : m'.subvol dir .migrateSrc = tree ∧
      m'.mounts = m.mounts ∧ m'.stream = m.stream := by
  obtain ⟨d, fs, hd, -, hw⟩ := Machine.setReceived_some h
  refine ⟨?_, hw.mounts, hw.stream⟩
  show (m'.mounts dir).bind (fun d => (m'.fs d).bind fun fs => fs.get .migrateSrc) = tree
  rw [hw.mounts, hd, Option.bind_some, hw.fs, Option.bind_some]
  rfl

theorem mounts_spec {p : Daemon α} (hp : p.Only (Within cs)) (hcs : ∀ c ∈ cs, c.KeepsMounts) :
    wpOk (onMachine cfg) (Any D) p (fun _ y => y.2.mounts = x.2.mounts) x := by
  refine wp_mono (wp_always_mono (wp_only (J := fun y => y.2.mounts = x.2.mounts) hp
    (fun e y b z he hy hs => ?_) rfl) fun _ _ => trivial) fun _ _ _ h _ _ => h
  rcases within_step he hs with hsame | ⟨c, hc, heffect⟩ | ⟨dir, tree, -, hset⟩ | ⟨stream, hsame⟩
  · rw [hsame]
    exact hy
  · exact (effect_mounts (hcs c hc) heffect).trans hy
  · exact (setReceived_subvol hset).2.1.trans hy
  · rw [hsame]
    exact hy

/-! ## The copy -/

/-- Where both ends of the copy have succeeded, what was received is what was sent. -/
theorem reapCopy_spec (total : Nat) (r : Except Error Unit) :
    wpOk (onMachine cfg) (Any D) (reapCopy total r)
      (fun _ y => y.2.subvol .new .migrateSrc = x.2.stream.source) x := by
  refine wpOk_step trivial fun s y hs => ?_
  have hsent : y.2.stream.source = x.2.stream.source ∧
      ∀ status, s = .ok status → status.success = true → y.2.stream.sent = true := by
    have hm : MachineStep cfg (.wait (.send .old .migrateSrc)) x.2 s y.2 := hs.2
    rcases hm with ⟨-, hm⟩ | ⟨hno, hm⟩
    · rw [hm]
      exact ⟨rfl, fun _ _ _ => rfl⟩
    · rw [hm]
      exact ⟨rfl, fun status hstatus hok => (hno ⟨status, hstatus, hok⟩).elim⟩
  cases s with
  | error e => exact wpOk_fail trivial
  | ok sendStatus =>
    refine wpOk_step trivial fun t z ht => ?_
    have hm : MachineStep cfg (.wait (.receive .new)) y.2 t z.2 := ht.2
    cases t with
    | error e => exact wpOk_fail trivial
    | ok recvStatus =>
      have hreceived : sendStatus.success = true → recvStatus.success = true →
          z.2.subvol .new .migrateSrc = x.2.stream.source := by
        intro hsend hrecv
        have hset := hm.2 ⟨recvStatus, rfl, hrecv⟩ (hsent.2 sendStatus rfl hsend)
        rw [hsent.1] at hset
        exact (setReceived_subvol hset).1
      change wpOk _ _ ((Prog.perform (Op.stderrOf (.send .old .migrateSrc))).bind _) _ _
      refine aside_seq (Prog.only_perform trivial) any_stable trivial fun _ u _ _ hu => ?_
      refine aside_seq (Prog.only_perform trivial) any_stable trivial fun _ v _ _ hv => ?_
      cases r with
      | error e => exact wpOk_fail trivial
      | ok _ =>
        dsimp only
        split
        · exact wpOk_fail trivial
        · rename_i hsend
          split
          · exact wpOk_fail trivial
          · rename_i hrecv
            have shown : (Ui.progress total total).Only Aside := Prog.only_perform fun _ => rfl
            refine wpOk_mono (aside_spec shown any_stable trivial) fun _ w _ hw => ?_
            rw [hw.2, hv, hu]
            exact hreceived (by simpa using hsend) (by simpa using hrecv)

theorem copyWithProgress_spec (total : Nat) :
    wpOk (onMachine cfg) (Any D) (copyWithProgress total)
      (fun _ y => y.2.subvol .new .migrateSrc = x.2.subvol .old .migrateSrc) x := by
  refine wpOk_step trivial fun r y hs => ?_
  have hm : MachineStep cfg (.spawn (.send .old .migrateSrc)) x.2 r y.2 := hs.2
  cases r with
  | error e => exact wpOk_fail trivial
  | ok _ =>
    have hsource : y.2.stream.source = x.2.subvol .old .migrateSrc := by rw [show y.2 = _ from hm]
    refine wpOk_step trivial fun r z hs => ?_
    have hm : MachineStep cfg (.spawn (.receive .new)) y.2 r z.2 := hs.2
    have hz : z.2.stream = y.2.stream := by
      rcases hm with hm | ⟨-, tree, hset⟩
      · rw [hm]
      · exact (setReceived_subvol hset).2.2
    refine aside_seq (inContext_only _ r) any_stable trivial fun _ u _ _ hu => ?_
    refine aside_seq (Prog.only_attempt (pump_aside total)) any_stable trivial
      fun pumpResult v _ _ hv => ?_
    refine aside_seq (Prog.only_perform trivial) any_stable trivial fun _ w _ _ hw => ?_
    have reap : ∀ t : Site D, t.2 = w.2 → wpOk (onMachine cfg) (Any D) (reapCopy total pumpResult)
        (fun _ y => y.2.subvol .new .migrateSrc = x.2.subvol .old .migrateSrc) t := by
      intro t ht
      refine wpOk_mono (reapCopy_spec total pumpResult) fun _ s _ hs => ?_
      rw [hs, ht, hw, hv, hu, hz, hsource]
    dsimp only
    split
    · refine aside_seq (Prog.only_perform trivial) any_stable trivial fun _ s _ _ hs => ?_
      refine aside_seq (Prog.only_perform trivial) any_stable trivial fun _ t _ _ ht => ?_
      exact reap t (ht.trans hs)
    · exact reap w rfl

/-! ## The source -/

/-- A program of which nothing is known, and what follows it. -/
theorem any_seq {p : Daemon α} {f : α → Daemon β} {Q : β → Site D → Prop}
    (hf : ∀ a y, wpOk (onMachine cfg) (Any D) (f a) Q y) :
    wpOk (onMachine cfg) (Any D) (p.bind f) Q x :=
  wpOk_seq (R := fun _ _ => True) ⟨fun _ _ => trivial, fun _ _ _ _ _ => trivial⟩
    fun a y _ _ => hf a y

/-- Where the target is admitted, nothing was changed for it. -/
theorem admitTarget_same (blank usage : String) :
    wpOk (onMachine cfg) (Any D) (admitTarget cfg blank usage) (fun _ y => y.2 = x.2) x := by
  unfold admitTarget
  cases parseBtrfsUsed usage with
  | none => exact any_seq fun _ _ => never_ends
  | some used =>
    refine aside_seq (runOk_only cfg trivial) any_stable trivial fun sizeOut y _ _ hy => ?_
    refine aside_seq (inContext_only _ _) any_stable trivial fun target z _ _ hz => ?_
    unfold admitSize
    dsimp only
    split
    · exact any_seq fun _ _ => never_ends
    · exact wpOk_pure trivial (hz.trans hy)

/-- After its inspection the source is mounted. -/
theorem inspectSource_mounts (legacy blank : String) :
    wpOk (onMachine cfg) (Any D) (inspectSource cfg legacy blank)
      (fun _ y => y.2.mounts .old = some (.part1 legacy)) x := by
  have admitted : ∀ y : Site D, y.2.mounts .old = some (.part1 legacy) →
      wpOk (onMachine cfg) (Any D) ((runOk cfg (.usage .old)).bind (admitTarget cfg blank))
        (fun _ z => z.2.mounts .old = some (.part1 legacy)) y := by
    intro y hy
    refine aside_seq (runOk_only cfg trivial) any_stable trivial fun usage z _ _ hz => ?_
    refine wpOk_mono (admitTarget_same blank usage) fun _ u _ hu => ?_
    rw [hu, hz]
    exact hy
  refine aside_seq (Prog.only_perform trivial) any_stable trivial fun r _ _ _ _ => ?_
  refine aside_seq (question_only r) any_stable trivial fun _ _ _ _ _ => ?_
  refine aside_seq (Prog.only_perform trivial) any_stable trivial fun r _ _ _ _ => ?_
  refine aside_seq (question_only r) any_stable trivial fun _ _ _ _ _ => ?_
  refine aside_seq (state_aside _ _) any_stable trivial fun _ _ _ _ _ => ?_
  refine effect_seq (fun _ => nofun) fun _ y _ hmount => ?_
  have hy : y.2.mounts .old = some (.part1 legacy) := by
    rw [mount_some hmount]
    simp
  refine wpOk_seq (subvolExists_spec any_stable trivial) fun torn z _ ⟨_, hz, _⟩ => ?_
  dsimp only
  split
  · refine effect_seq (fun _ => nofun) fun _ u _ hdelete => ?_
    refine aside_seq (runOk_only cfg trivial) any_stable trivial fun _ v _ _ hv => ?_
    refine admitted v ?_
    have hmounts : u.2.mounts = z.2.mounts :=
      effect_mounts (show (Cmd.subvolDelete .old .migrateSrc).KeepsMounts from trivial) hdelete
    rw [hv, hmounts, hz]
    exact hy
  · exact admitted z (hz ▸ hy)

/-! ## The new partition table -/

section Format

variable {copies : Tree D → Prop} {v₀ : Volume D} {other : String}

theorem staged_stable : Stable fun y : Site D => Staged copies v₀ id y.2 := by
  intro y z h _ hsame
  exact hsame ▸ h

/-- The format of a disk without partitions keeps it within its stages. -/
theorem formatEncrypted_staged (pw : String) (hx : Staged copies v₀ id x.2)
    (hnone : x.2.table id ≠ some true) :
    wpOk (onMachine cfg) (fun y => Staged copies v₀ id y.2) (formatEncrypted cfg id pw)
      (fun _ _ => True) x := by
  rw [formatEncrypted_eq]
  refine aside_seq (state_aside _ _) staged_stable hx fun _ y hy _ hsame => ?_
  refine wpOk_seq (runOk_effect (fun _ => nofun) hy fun z hlater h => ?_) fun _ z hz _ => ?_
  · rcases h with hzap | hsame'
    · exact hy.zapped (hsame ▸ hnone) hzap
    · exact staged_stable hy hlater hsame'
  · refine wp_mono (staged_spec (formatRest_within id pw) ?_ hz) fun _ _ _ _ _ _ => trivial
    simp [formatCmds, Cmd.SparesVar]

/-- A disk that is not attached is not formatted. -/
theorem formatEncrypted_absent {pw : String} (hx : x.2.table id = none) :
    wpOk (onMachine cfg) (Any D) (formatEncrypted cfg id pw) (fun _ _ => False) x := by
  refine aside_seq (state_aside _ _) any_stable trivial fun _ y _ _ hy => ?_
  refine effect_seq (fun _ => nofun) fun _ z _ hzap => ?_
  obtain ⟨disk, hdisk, -⟩ := Machine.setPart1_some hzap
  rw [hy] at hdisk
  rw [Machine.table, hdisk] at hx
  cases hx

/-- Where the disk to format is not attached, every other one stays at its stage. -/
theorem staged_absent {α : Type} {pw : String} {f : Unit → Daemon α} {Q : α → Site D → Prop}
    (hne : other ≠ id) (habsent : x.2.table other = none) (hx : Staged copies v₀ id x.2) :
    wpOk (onMachine cfg) (fun y => Staged copies v₀ id y.2)
      ((formatEncrypted cfg other pw).bind f) Q x := by
  refine wpOk_seq_kept (staged_spec (formatEncrypted_within other pw)
    (by simp [formatCmds, Cmd.SparesVar, hne]) hx) (formatEncrypted_absent habsent) ?_
  exact fun _ _ _ never => never.elim

theorem migrate_absent (legacy : String) (hne : other ≠ id) (habsent : x.2.table other = none)
    (hx : Staged copies v₀ id x.2) :
    wpOk (onMachine cfg) (fun y => Staged copies v₀ id y.2) (migrate cfg legacy other)
      (fun _ _ => False) x := by
  refine wpOk_seq_kept (staged_spec (inspectSource_within legacy other)
    (by simp [inspectCmds, Cmd.SparesVar]) hx)
    (table_spec (inspectSource_within legacy other) (fun h => by cases h) habsent)
    fun used y hy habsent' => ?_
  refine aside_seq (askNewPassphrase_aside cfg) staged_stable hy fun pw z hz _ hsame => ?_
  exact staged_absent hne (hsame ▸ habsent') hz

theorem provision_absent (hne : other ≠ id) (habsent : x.2.table other = none)
    (hx : Staged copies v₀ id x.2) :
    wpOk (onMachine cfg) (fun y => Staged copies v₀ id y.2) (provision cfg other)
      (fun _ _ => False) x := by
  refine aside_seq (state_aside _ _) staged_stable hx fun _ y hy _ hsame => ?_
  refine aside_seq (askNewPassphrase_aside cfg) staged_stable hy fun pw z hz _ hsame' => ?_
  exact staged_absent hne (by rw [hsame', hsame]; exact habsent) hz

end Format

/-! ## Halfway -/

section Halfway

variable {copies : Tree D → Prop} {v₀ : Volume D} {legacy blank : String} {var : Option (Tree D)}

/-- Wherever a migration is cut: the new disk is at one of its stages, and the subvolume `var`
of the legacy disk is what it was. -/
structure Halfway (copies : Tree D → Prop) (v₀ : Volume D) (legacy blank : String)
    (var : Option (Tree D)) (m : Machine D) : Prop where
  staged : Staged copies v₀ blank m
  intact : Intact legacy var m

theorem halfway_stable : Stable fun y => Halfway copies v₀ legacy blank var y.2 := by
  intro x y h _ hsame
  exact hsame ▸ h

theorem halfway_spec {p : Daemon α} (hp : p.Only (Within cs)) (hspares : ∀ c ∈ cs, c.SparesVar blank)
    (hleaves : ∀ c ∈ cs, c.LeavesVar legacy) (hx : Halfway copies v₀ legacy blank var x.2) :
    wp (onMachine cfg) (fun y => Halfway copies v₀ legacy blank var y.2) p
      (fun _ y => Halfway copies v₀ legacy blank var y.2) x := by
  refine wp_mono (wp_always_mono (wp_conj (staged_spec hp hspares hx.staged)
    (intact_spec hp hleaves hx.intact)) fun y h => ?_) fun _ y _ h => ?_
  · exact ⟨h.1, h.2⟩
  · exact ⟨h.1, h.2⟩

theorem halfway_runOk {c : Cmd} (hc : ∀ d, c ≠ .blkid .label d) (hspares : c.SparesVar blank)
    (hleaves : c.LeavesVar legacy) (hx : Halfway copies v₀ legacy blank var x.2) :
    wpOk (onMachine cfg) (fun y => Halfway copies v₀ legacy blank var y.2) (runOk cfg c)
      (fun _ y => c.effect cfg x.2 = some y.2) x := by
  refine wpOk_mono (runOk_effect hc hx fun y hlater h => ?_) fun _ _ _ h => h.2
  rcases h with heffect | hsame
  · exact ⟨hx.staged.effect hspares heffect, hx.intact.effect hleaves heffect⟩
  · exact halfway_stable hx hlater hsame

/-- The snapshot of the source is of the `var` that the legacy disk has. -/
theorem snapshot_source {tree : Option (Tree D)} (h : Intact legacy tree m)
    (hold : m.mounts .old = some (.part1 legacy))
    (heffect : (Cmd.subvolSnapshot true .old .var .old .migrateSrc).effect cfg m = some m') :
    m'.subvol .old .migrateSrc = tree ∧ tree.isSome := by
  obtain ⟨t, ht, hadd⟩ := Option.bind_eq_some_iff.mp heffect
  obtain ⟨d, fs, hd, hfs, -, hw⟩ := Machine.addSubvol_some hadd
  obtain ⟨fs₀, hfs₀, rfl⟩ := h.legacy
  have hvar : fs₀.var = some t := by
    have hsub : (m.mounts .old).bind (fun d => (m.fs d).bind fun fs => fs.get .var) = some t := ht
    rw [hold, Option.bind_some, hfs₀, Option.bind_some] at hsub
    exact hsub
  refine ⟨?_, by rw [hvar]; rfl⟩
  show (m'.mounts .old).bind (fun d => (m'.fs d).bind fun fs => fs.get .migrateSrc) = fs₀.var
  rw [hw.mounts, hd, Option.bind_some, hw.fs, Option.bind_some, hvar]
  rfl

/-- The new `var` is a snapshot of a complete copy. -/
theorem Halfway.copied (h : Halfway copies v₀ legacy blank var m)
    (hnew : m.mounts .new = some .mapper)
    (hcopy : ∀ tree, m.subvol .new .migrateSrc = some tree → copies tree)
    (heffect : (Cmd.subvolSnapshot false .new .migrateSrc .new .var).effect cfg m = some m') :
    Halfway copies v₀ legacy blank var m' := by
  have hleaves : (Cmd.subvolSnapshot false .new .migrateSrc .new .var).LeavesVar legacy :=
    Or.inl nofun
  refine ⟨⟨fun disk hdisk => ?_, fun hopen => ?_⟩, h.intact.effect hleaves heffect⟩
  · obtain ⟨tree, htree, hadd⟩ := Option.bind_eq_some_iff.mp heffect
    obtain ⟨d, fs, hd, hfs, -, hwrote⟩ := Machine.addSubvol_some hadd
    obtain rfl : d = .mapper := Option.some.inj (hd.symm.trans hnew)
    rcases hwrote.disk (Machine.fs_eq_some.mp hfs) blank with hsame | ⟨hno, -⟩ |
      ⟨-, hmapper, part1, hwas, his⟩
    · exact h.staged.stage disk (hsame ▸ hdisk)
    · cases hno
    · obtain rfl := Option.some.inj (his.symm.trans hdisk)
      have hpart : part1 = true := by
        simpa [Machine.table, hwas] using partition_isSome.mp (h.staged.opened hmapper)
      subst hpart
      refine .formatted fun t ht => ?_
      obtain rfl : tree = t := Option.some.inj ht
      exact hcopy tree htree
  · obtain ⟨tree, -, hadd⟩ := Option.bind_eq_some_iff.mp heffect
    obtain ⟨d, fs, -, -, -, hwrote⟩ := Machine.addSubvol_some hadd
    rw [partition_isSome, show m'.table blank = m.table blank from hwrote.tables blank,
      ← partition_isSome]
    exact h.staged.opened (hwrote.mapper ▸ hopen)

theorem copyVar_halfway (used : Nat) (hvar : ∀ tree, var = some tree → copies tree)
    (hx : Halfway copies v₀ legacy blank var x.2) (hold : x.2.mounts .old = some (.part1 legacy)) :
    wpOk (onMachine cfg) (fun y => Halfway copies v₀ legacy blank var y.2) (copyVar cfg used)
      (fun _ _ => True) x := by
  refine aside_seq (state_aside _ _) halfway_stable hx fun _ y hy _ hsame => ?_
  refine wpOk_seq (halfway_runOk (fun _ h => by cases h) rfl (Or.inr rfl) hy) fun _ z hz heffect => ?_
  obtain ⟨hsource, -⟩ := snapshot_source hy.intact (hsame ▸ hold) heffect
  refine aside_seq (runOk_only cfg trivial) halfway_stable hz fun _ u hu _ hsame' => ?_
  refine wpOk_seq (halfway_runOk (fun _ h => by cases h) trivial (Or.inl rfl) hu) fun _ v hv hmount => ?_
  have hmounted := mount_some hmount
  have hsource' : v.2.subvol .old .migrateSrc = var := by
    rw [← hsource, hmounted, hsame']
    simp [Machine.subvol]
  refine wpOk_seq_kept (halfway_spec (copyWithProgress_within used)
    (by simp [streamCmds, Cmd.SparesVar]) (by simp [streamCmds, Cmd.LeavesVar]) hv)
    (wpOk_conj (copyWithProgress_spec used)
      (mounts_spec (copyWithProgress_within used) (by simp [streamCmds, Cmd.KeepsMounts])))
    fun _ w hw hboth => ?_
  obtain ⟨hcopied, hmounts⟩ := hboth
  have hnew : w.2.mounts .new = some .mapper := by
    rw [hmounts, hmounted]
    simp
  have hcopy : ∀ tree, w.2.subvol .new .migrateSrc = some tree → copies tree := by
    intro tree htree
    exact hvar tree (by rw [← hsource', ← hcopied, htree])
  have made : wpOk (onMachine cfg) (fun y => Halfway copies v₀ legacy blank var y.2)
      (runOk cfg (.subvolSnapshot false .new .migrateSrc .new .var)) (fun _ _ => True) w := by
    refine wpOk_mono (runOk_effect (fun _ h => by cases h) hw fun t hlater h => ?_) fun _ _ _ _ => trivial
    rcases h with heffect | hsame
    · exact hw.copied hnew hcopy heffect
    · exact halfway_stable hw hlater hsame
  refine wpOk_seq made fun _ t ht _ => ?_
  refine wpOk_seq (halfway_runOk (fun _ h => by cases h) rfl (Or.inl fun h => by cases h) ht) fun _ s hs _ => ?_
  exact wpOk_pure hs trivial

theorem formatEncrypted_halfway (pw : String) (hne : legacy ≠ blank)
    (hx : Halfway copies v₀ legacy blank var x.2) (hnone : x.2.table blank ≠ some true) :
    wpOk (onMachine cfg) (fun y => Halfway copies v₀ legacy blank var y.2)
      (formatEncrypted cfg blank pw) (fun _ y => y.2.mounts = x.2.mounts) x := by
  refine wp_mono (wp_always_mono (wp_conj (formatEncrypted_staged pw hx.staged hnone)
    (wp_conj (intact_spec (formatEncrypted_within blank pw) ?_ hx.intact)
      (mounts_spec (formatEncrypted_within blank pw) ?_))) fun _ h => ⟨h.1, h.2.1⟩)
    fun _ _ _ h => h.2.2
  · simp [formatCmds, Cmd.LeavesVar, hne.symm]
  · simp [formatCmds, Cmd.KeepsMounts]

theorem migrate_halfway (hne : legacy ≠ blank) (hvar : ∀ tree, var = some tree → copies tree)
    (hx : Halfway copies v₀ legacy blank var x.2) (hnone : x.2.table blank ≠ some true) :
    wpOk (onMachine cfg) (fun y => Halfway copies v₀ legacy blank var y.2)
      (migrate cfg legacy blank) (fun _ _ => True) x := by
  have tables : wpOk (onMachine cfg) (fun y => y.2.table blank = x.2.table blank)
      (inspectSource cfg legacy blank) (fun _ y => y.2.table blank = x.2.table blank) x :=
    table_spec (inspectSource_within legacy blank)
      (fun _ => by simp [inspectCmds, Cmd.Tables]) rfl
  refine wpOk_seq_kept (halfway_spec (inspectSource_within legacy blank)
    (by simp [inspectCmds, Cmd.SparesVar]) (by simp [inspectCmds, Cmd.LeavesVar]) hx)
    (wpOk_conj (inspectSource_mounts legacy blank) tables) fun used y hy hboth => ?_
  obtain ⟨hold, htable⟩ := hboth
  refine aside_seq (askNewPassphrase_aside cfg) halfway_stable hy fun pw z hz _ hsame => ?_
  have hnone' : z.2.table blank ≠ some true := by rw [hsame, htable]; exact hnone
  refine wpOk_seq (formatEncrypted_halfway pw hne hz hnone') fun _ u hu hmounts => ?_
  have hold' : u.2.mounts .old = some (.part1 legacy) := by rw [hmounts, hsame, hold]
  refine wpOk_seq (copyVar_halfway used hvar hu hold') fun _ v hv _ => ?_
  refine wp_mono (halfway_spec (Prog.only_bind cleanUp_within fun _ => blockForever_within _)
    ?_ ?_ hv) fun _ _ _ _ _ _ => trivial
  · simp [cleanCmds, Cmd.SparesVar]
  · simp [cleanCmds, Cmd.LeavesVar]

end Halfway

end Foundrix.VarDisk

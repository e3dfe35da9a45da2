import Foundrix.VarDisk.Conduct
import Foundrix.VarDisk.Scripted

/-!
# Destructive commands are interlocked

The plans of var-disk-managerd, one after the other, and from them what stands before every
destructive command in every run of the daemon.

* `checkContent_spec`: the opened volume, and the one place where its mapper is formatted.
* `carryOut_spec`, `main_spec`: the plans, and the whole process.
* `destructive_commands_interlocked`: the result.
-/

namespace Foundrix.VarDisk

open Effect

variable {minLen : Nat} {cfg : Cfg} {x y : World × List Event}

/-- Nothing has been overwritten and nothing refused. -/
structure Ready (x : World × List Event) : Prop where
  noneDestructive : NoneDestructive x.2
  unrefused : Unrefused x.2

theorem Calm.ready (h : Calm x y) (hx : Ready x) : Ready y :=
  ⟨h.noneDestructive hx.noneDestructive, h.unrefused hx.unrefused⟩

/-- A program of quiet operations, where it is all that is left. -/
theorem quiet_rest {α : Type} {p : Daemon α} (hp : p.Only Quiet) (hI : Inv minLen x) :
    wpOk observed (Inv minLen) p (fun _ _ => True) x :=
  wpOk_mono (quiet_spec hp hI) fun _ _ _ _ => trivial

/-- Quiet operations, and what follows them. -/
theorem quiet_seq {α β : Type} {p : Daemon α} {f : α → Daemon β} {Q : β → World × List Event → Prop}
    (hp : p.Only Quiet) (hI : Inv minLen x)
    (hf : ∀ a y, Inv minLen y → Follows x y → wpOk observed (Inv minLen) (f a) Q y) :
    wpOk observed (Inv minLen) (p.bind f) Q x :=
  wpOk_seq (quiet_spec hp hI) hf

/-- A command that keeps the invariant, run for its output. -/
theorem runOk_spec {c : Cmd} (hI : Inv minLen x)
    (h : ∀ b y, observed.step (.output c) x b y → Inv minLen y) :
    wpOk observed (Inv minLen) (runOk cfg c) (fun _ _ => True) x := by
  refine wpOk_step hI fun b y hs => ?_
  have hy := h b y hs
  cases b with
  | error e => exact wpOk_fail hy
  | ok out =>
    change wpOk observed (Inv minLen) (if out.status.success then .pure out.stdout
      else bail (failed cfg c out)) _ y
    split
    · exact wpOk_pure hy trivial
    · exact wpOk_fail hy

/-! ## Unlock -/

theorem openVolume_spec (luksId : String) (hI : Inv minLen x) (hnone : NoneDestructive x.2) :
    wpOk observed (Inv minLen) (openVolume cfg luksId) (fun _ y => Calm x y) x := by
  refine wpOk_iterate (fun _ y => Inv minLen y ∧ Calm x y) ⟨hI, .refl x⟩ ?_
  rintro _ y ⟨hy, hcalm⟩
  refine wpOk_seq (ask_spec _ _ hy (hcalm.noneDestructive hnone))
    fun pw z hz ⟨p, ex, hex, hkind, hlog, _⟩ => ?_
  have hcalm₁ : Calm x z := hcalm.trans (hex.calm hlog fun h => by simp [hkind] at h)
  have quiet : (runWithStdin cfg (.luksOpen false (.part1 luksId)) pw).attempt.Only Quiet :=
    Prog.only_attempt (runWithStdin_only cfg ⟨id, nofun⟩)
  refine wpOk_seq (silent_spec (state_silent _ _) hz) fun _ u hu hsame => ?_
  refine wpOk_seq (quiet_spec quiet hu) fun r v hv hfollows => ?_
  have hcalm₂ : Calm x v := hcalm₁.trans ((Calm.of_eq hsame).trans hfollows.calm)
  cases r with
  | ok _ => exact wpOk_pure hv hcalm₂
  | error e =>
    refine wpOk_seq (silent_spec (state_silent _ _) hv) fun _ t ht hsame => ?_
    exact wpOk_pure ht ⟨ht, hcalm₂.trans (.of_eq hsame)⟩

/-- The opened volume has a btrfs filesystem: nothing is overwritten. -/
theorem unlockBtrfs_spec (luksId : String) (hI : Inv minLen x) (hnone : NoneDestructive x.2) :
    wpOk observed (Inv minLen) (unlockBtrfs cfg luksId) (fun _ _ => True) x := by
  have umount : (runOk cfg (.umount .newVarFs)).Only Quiet := runOk_quiet cfg id nofun
  refine quiet_seq (Prog.only_perform trivial) hI fun r y hy h₁ => ?_
  refine quiet_seq (question_only r) hy fun _ z hz h₂ => ?_
  refine quiet_seq (runOk_quiet cfg id nofun) hz fun _ u hu h₃ => ?_
  refine quiet_seq (runOk_quiet cfg id nofun) hu fun _ v hv h₄ => ?_
  refine quiet_seq (subvolExists_quiet _ _) hv fun found w hw h₅ => ?_
  have hfollows : Follows x w := (((h₁.trans h₂).trans h₃).trans h₄).trans h₅
  cases found with
  | true => exact quiet_rest (Prog.only_bind umount fun _ => trivial) hw
  | false =>
    refine wpOk_seq (askConfirm_spec _ hw (hfollows.noneDestructive hnone)) fun yes t ht _ => ?_
    refine quiet_rest ?_ ht
    cases yes with
    | true =>
      exact Prog.only_bind (runOk_quiet cfg id nofun) fun _ =>
        Prog.only_bind umount fun _ => trivial
    | false =>
      exact Prog.only_bind umount fun _ => Prog.only_bind (blockForever_quiet _) nofun

/-- The format of the mapper of a volume whose emptiness was proven and confirmed. -/
theorem mkfs_step {b : Except String Output} (hI : Inv minLen x) {luks : String}
    (hplan : planned x.2 = .unlock luks) (hyes : Confirmed x.2) (hu : Unrefused x.2)
    (hs : observed.step (.output (.mkfs .mapper)) x b y) : Inv minLen y := by
  obtain ⟨w, es⟩ := x
  obtain ⟨w', es'⟩ := y
  obtain rfl : w' = w := hs.1
  obtain rfl : es' = es ++ [.ran (.mkfs .mapper) b] := hs.2
  have hlock : Interlocked minLen es none (.mkfs .mapper) := ⟨rfl, Or.inr ⟨⟨luks, hplan⟩, hyes⟩⟩
  exact hI.add ⟨nofun, fun _ => ⟨hlock, hu⟩⟩ (fun _ => Event.noConfusion)
    fun _ => Event.noConfusion

/-- The opened volume has no filesystem: it gets one after a yes. -/
theorem unlockEmpty_spec {luksId luks : String} {before between : List Event} {out : Output}
    (hI : Inv minLen x) (hready : Ready x) (hplan : planned x.2 = .unlock luks)
    (hlog : x.2 = before ++ .ran (.blkid .type .mapper) (.ok out) :: between)
    (hcode : out.status.code = some 2) :
    wpOk observed (Inv minLen) (unlockEmpty cfg luksId) (fun _ _ => True) x := by
  refine wpOk_seq (askConfirm_spec _ hI hready.noneDestructive)
    fun yes y hy ⟨chat, ex, p, v, hlog', hex, hkind, hparse, _, hcalm⟩ => ?_
  cases yes with
  | false => exact quiet_rest (Prog.only_bind (blockForever_quiet _) nofun) hy
  | true =>
    have hcalm := hcalm rfl
    have hyes : Confirmed y.2 :=
      ⟨before, out, between ++ chat, ex, [], p, v, by simp [hlog', hlog], hcode, hex, hkind, hparse⟩
    have hplan' : planned y.2 = .unlock luks := hcalm.planned.trans hplan
    refine wpOk_seq (silent_spec (state_silent _ _) hy) fun _ z hz hsame => ?_
    have mkfs : wpOk observed (Inv minLen) (runOk cfg (.mkfs .mapper)) (fun _ _ => True) z :=
      runOk_spec hz fun b u hs => mkfs_step hz (hsame ▸ hplan') (hsame ▸ hyes)
        (hsame ▸ hcalm.unrefused hready.unrefused) hs
    refine wpOk_seq mkfs fun _ u hu _ => ?_
    exact quiet_rest (Prog.only_bind settle_quiet fun _ => createVarSubvol_quiet cfg) hu

/-- The probe of the mapper is one event. -/
theorem mapperProbe_step {r : Except String Output} (hI : Inv minLen x) (hready : Ready x)
    (hs : observed.step (.output (.blkid .type .mapper)) x r y) :
    Inv minLen y ∧ y.2 = x.2 ++ [.ran (.blkid .type .mapper) r] ∧ NoneDestructive y.2 ∧
      planned y.2 = planned x.2 ∧ (mapperFs r = .empty → Unrefused y.2) := by
  obtain ⟨w, es⟩ := x
  obtain ⟨w', es'⟩ := y
  obtain rfl : w' = w := hs.1
  obtain rfl : es' = es ++ [.ran (.blkid .type .mapper) r] := hs.2
  refine ⟨?_, rfl, ?_, planned_command es rfl, fun hempty => ⟨fun out hm => ?_, fun a ha => ?_⟩⟩
  · exact hI.add ⟨fun _ => hready.noneDestructive, nofun⟩ (fun _ => Event.noConfusion)
      fun _ => Event.noConfusion
  · refine hready.noneDestructive.append fun e he c hc => ?_
    obtain rfl := List.mem_singleton.mp he
    cases hc
    exact id
  · rcases List.mem_append.mp hm with hm | hm
    · exact hready.unrefused.probes out hm
    · obtain rfl : out = r := by simpa using hm
      exact hempty
  · have hsame : answers (es ++ [.ran (.blkid .type .mapper) r]) = answers es := by
      unfold answers
      rw [List.foldl_append]
      rfl
    exact hready.unrefused.answers a (hsame ▸ ha)

/-- Only a volume that was found empty is formatted. -/
theorem checkContent_spec {luksId luks : String} (hI : Inv minLen x) (hready : Ready x)
    (hplan : planned x.2 = .unlock luks) :
    wpOk observed (Inv minLen) (checkContent cfg luksId) (fun _ _ => True) x := by
  refine wpOk_step hI fun r y hs => ?_
  obtain ⟨hy, hlog, hnone, hsame, hempty⟩ := mapperProbe_step hI hready hs
  cases hfs : mapperFs r with
  | btrfs => exact unlockBtrfs_spec luksId hy hnone
  | empty =>
    obtain ⟨out, rfl, hcode⟩ := mapperFs_empty hfs
    exact unlockEmpty_spec hy ⟨hnone, hempty hfs⟩ (hsame.trans hplan) hlog hcode
  | other fstype => exact quiet_rest (Prog.only_bind (blockForever_quiet _) nofun) hy
  | unknown => exact quiet_rest (Prog.only_bind (blockForever_quiet _) nofun) hy

theorem unlock_spec {luksId luks : String} (hI : Inv minLen x) (hready : Ready x)
    (hplan : planned x.2 = .unlock luks) :
    wpOk observed (Inv minLen) (unlock cfg luksId) (fun _ _ => True) x := by
  have check : ∀ {z}, Inv minLen z → Calm x z → wpOk observed (Inv minLen)
      ((checkContent cfg luksId).bind fun _ => Ui.state "unlock" "unlocked; boot continuing")
      (fun _ _ => True) z := by
    intro z hz hcalm
    refine wpOk_seq (checkContent_spec hz (hcalm.ready hready) (hcalm.planned.trans hplan))
      fun _ u hu _ => ?_
    exact quiet_rest (state_quiet _ _) hu
  refine quiet_seq (maybeGrowPartition_quiet cfg luksId) hI fun grew y hy h₁ => ?_
  have hnone : NoneDestructive y.2 := h₁.noneDestructive hready.noneDestructive
  refine wpOk_seq (openVolume_spec luksId hy hnone) fun pw z hz h₂ => ?_
  refine quiet_seq settle_quiet hz fun _ u hu h₃ => ?_
  refine quiet_seq (needsResize_quiet cfg luksId grew) hu fun resize v hv h₄ => ?_
  have hcalm : Calm x v := ((h₁.calm.trans h₂).trans h₃.calm).trans h₄.calm
  cases resize with
  | false => exact check hv hcalm
  | true =>
    refine quiet_seq (state_quiet _ _) hv fun _ w hw h₅ => ?_
    refine quiet_seq (runWithStdin_only cfg ⟨id, nofun⟩) hw fun _ s hs h₆ => ?_
    refine quiet_seq settle_quiet hs fun _ t ht h₇ => ?_
    exact check ht (hcalm.trans ((h₅.trans h₆).trans h₇).calm)

/-! ## The plans -/

/-- A new passphrase, the format of the blank disk, and what follows it. -/
theorem newVolume_spec {α : Type} {blank : String} {rest : Daemon α} (hrest : rest.Only Quiet)
    (hI : Inv cfg.minPassphraseLen x) (hready : Ready x)
    (hplan : (planned x.2).blankDisk = some blank) :
    wpOk observed (Inv cfg.minPassphraseLen)
      ((askNewPassphrase cfg).bind fun pw => (formatEncrypted cfg blank pw).bind fun _ => rest)
      (fun _ _ => True) x := by
  refine wpOk_seq (askNewPassphrase_spec hI hready.noneDestructive)
    fun pw y hy ⟨hcalm, htwice⟩ => ?_
  have harmed : Armed cfg.minPassphraseLen blank pw y.2 :=
    ⟨hcalm.planned.symm ▸ hplan, htwice, hcalm.unrefused hready.unrefused⟩
  exact wpOk_seq (formatEncrypted_spec hy harmed) fun _ z hz _ => quiet_rest hrest hz

theorem migrate_spec {legacy blank : String} (hI : Inv cfg.minPassphraseLen x) (hready : Ready x)
    (hplan : planned x.2 = .migrate legacy blank) :
    wpOk observed (Inv cfg.minPassphraseLen) (migrate cfg legacy blank) (fun _ _ => True) x := by
  refine quiet_seq (inspectSource_quiet cfg legacy blank) hI fun used y hy hfollows => ?_
  have hblank : (planned y.2).blankDisk = some blank := by
    rw [hfollows.planned, hplan]
    rfl
  refine newVolume_spec ?_ hy (hfollows.calm.ready hready) hblank
  refine Prog.only_bind (copyVar_quiet cfg used) fun _ => ?_
  exact Prog.only_bind (cleanUp_quiet cfg) fun _ => blockForever_quiet _

theorem provision_spec {blank : String} (hI : Inv cfg.minPassphraseLen x) (hready : Ready x)
    (hplan : planned x.2 = .provision blank) :
    wpOk observed (Inv cfg.minPassphraseLen) (provision cfg blank) (fun _ _ => True) x := by
  refine quiet_seq (state_quiet _ _) hI fun _ y hy hfollows => ?_
  have hblank : (planned y.2).blankDisk = some blank := by
    rw [hfollows.planned, hplan]
    rfl
  refine newVolume_spec ?_ hy (hfollows.calm.ready hready) hblank
  exact Prog.only_bind (createVarSubvol_quiet cfg) fun _ => state_quiet _ _

theorem carryOut_spec {p : Plan} (hI : Inv cfg.minPassphraseLen x) (hready : Ready x)
    (hplan : planned x.2 = p) :
    wpOk observed (Inv cfg.minPassphraseLen) (carryOut cfg p) (fun _ _ => True) x := by
  cases p with
  | unlock luks => exact unlock_spec hI hready hplan
  | bootLegacy legacy => exact quiet_rest (ensureLabel_quiet cfg legacy) hI
  | migrate legacy blank => exact wpOk_seq (migrate_spec hI hready hplan) nofun
  | provision blank => exact provision_spec hI hready hplan
  | block reason => exact quiet_rest (Prog.only_bind (blockForever_quiet reason) nofun) hI
  | noDisks => exact wpOk_fail hI

/-! ## The whole process -/

/-- Publishing the disks is one event, or none where nothing was found. -/
theorem listed_step {infos : List DiskInfo} {u : Unit} (hI : Inv minLen x) (hready : Ready x)
    (hs : observed.step (.mutate fun s => { s with disks := infos }) x u y) :
    Inv minLen y ∧ Ready y ∧ planned y.2 = plan (classesOf infos) := by
  obtain ⟨w, es⟩ := x
  obtain ⟨w', es'⟩ := y
  obtain rfl : w' = w.mutate fun s => { s with disks := infos } := hs.1
  have hlog : es' = es ++ (recordMutate w.snapshot { w.snapshot with disks := infos }).toList := hs.2
  by_cases hsame : infos = w.snapshot.disks
  · obtain rfl : es' = es := by simpa [recordMutate, hsame] using hlog
    have hdisks : infos = disksListed es' := hsame.trans hI.disks
    exact ⟨⟨hI.sound, hI.bound, hI.current, hdisks⟩, ⟨hready.1, hready.2⟩, by rw [planned, hdisks]⟩
  · obtain rfl : es' = es ++ [.listed infos] := by simpa [recordMutate, hsame] using hlog
    have hdisks : disksListed (es ++ [.listed infos]) = infos := by
      simp [disksListed, List.filterMap_append, Event.disks]
    refine ⟨⟨?_, fun p hp => ?_, fun p hp => ?_, hdisks.symm⟩, ⟨?_, fun out hm => ?_, ?_⟩,
      by rw [planned, hdisks]⟩
    · exact chronicle_concat.mpr ⟨hI.sound, hready.noneDestructive⟩
    · exact hI.bound p (by simpa using hp)
    · exact List.mem_append_left _ (hI.current p hp)
    · exact hready.noneDestructive.append (by simp [NoneDestructive, Event.command])
    · exact hready.unrefused.probes out (by simpa using hm)
    · have hanswers : answers (es ++ [.listed infos]) = answers es := by
        unfold answers
        rw [List.foldl_append]
        rfl
      exact hanswers ▸ hready.unrefused.answers

theorem ready_initial : Ready (({}, []) : World × List Event) :=
  ⟨by simp [NoneDestructive], by simp, by simp [answers]⟩

theorem run_spec (cli : Cli) :
    wpOk observed (Inv cli.minPassphraseLen) (run cli) (fun _ _ => True) ({}, []) := by
  have hI := inv_initial cli.minPassphraseLen
  unfold run
  cases hcfg : cli.cfg with
  | none => exact wpOk_fail hI
  | some cfg =>
    have hmin : cli.minPassphraseLen = cfg.minPassphraseLen := by
      unfold Cli.cfg at hcfg
      cases hglob : splitPrefixGlob cli.volumeGlob with
      | none => simp [hglob] at hcfg
      | some g => simp only [hglob, Option.map_some, Option.some.injEq] at hcfg; rw [← hcfg]
    refine quiet_seq ((survey_looking cfg).mono Looking.quiet) hI fun infos y hy hfollows => ?_
    refine wpOk_step hy fun _ z hs => ?_
    obtain ⟨hz, hready, hplan⟩ := listed_step hy (hfollows.calm.ready ready_initial) hs
    rw [hmin] at hz ⊢
    exact carryOut_spec hz hready hplan

theorem main_spec (cli : Cli) :
    wpOk observed (Inv cli.minPassphraseLen) (main cli) (fun _ _ => True) ({}, []) := by
  have hrun : wp observed (Inv cli.minPassphraseLen) (run cli) (fun _ _ => True) ({}, []) :=
    wp_mono (run_spec cli) fun _ _ _ _ => trivial
  refine wpOk_seq (wpOk_attempt hrun) fun r y hy _ => ?_
  cases r with
  | ok _ => exact wpOk_pure hy trivial
  | error e =>
    refine quiet_rest ?_ hy
    refine Prog.only_bind (Prog.only_perform trivial) fun _ => ?_
    exact Prog.only_bind (Prog.only_perform trivial) fun _ => trivial

/-! ## The result -/

/-- The plans that touch no disk. -/
def Plan.Idle : Plan → Prop
  | .bootLegacy _ | .block _ | .noDisks => True
  | _ => False

/-- The secret that a command was given. -/
def Event.secret : Event → Option String
  | .fed _ secret _ => some secret
  | _ => none

/-- The history has an event that stands for leaving the disks alone: a plan that touches
none, a probe of the mapper that found something else or proved nothing, or a no. -/
def LeftAlone (es : List Event) : Prop :=
  (planned es).Idle ∨
  (∃ out, .ran (.blkid .type .mapper) out ∈ es ∧
    (mapperFs out = .unknown ∨ ∃ fstype, mapperFs out = .other fstype)) ∨
  ∃ p v, p.kind = .confirm ∧ Answered p v es ∧ parseConfirm v = some false

/-- An event that may come after a destructive command. -/
def Event.Late : Event → Prop
  | .asked _ | .received _ | .listed _ => False
  | .ran c _ => c ≠ .blkid .type .mapper
  | _ => True

theorem Sound.late {before : List Event} {e : Event} (h : Sound minLen before e)
    (hnone : ¬ NoneDestructive before) : e.Late := by
  cases e with
  | asked => exact hnone h
  | received => exact hnone h
  | listed => exact hnone h
  | ran c out => exact fun hc => hnone (h.1 hc)
  | existed => trivial
  | fed => trivial

/-- What a destructive command has before it, and what can come after it. -/
theorem sound_destructive {before after : List Event} {e : Event} {c : Cmd}
    (h : Chronicle (Sound minLen) (before ++ e :: after)) (hc : e.command = some c)
    (hd : c.Destructive) :
    Interlocked minLen before e.secret c ∧ Unrefused before ∧ ∀ f ∈ e :: after, f.Late := by
  have he := h before e after rfl
  have hsound : Interlocked minLen before e.secret c ∧ Unrefused before := by
    cases e with
    | ran => cases hc; exact he.2 hd
    | fed => cases hc; exact he hd
    | _ => cases hc
  refine ⟨hsound.1, hsound.2, fun f hf => ?_⟩
  rcases List.mem_cons.mp hf with rfl | hf
  · cases f with
    | ran => cases hc; exact fun hp => by simp [hp, Cmd.Destructive] at hd
    | fed => trivial
    | _ => cases hc
  · obtain ⟨mid, rest, rfl⟩ := List.append_of_mem hf
    refine (h (before ++ e :: mid) f rest (by simp)).late fun hnone => ?_
    exact hnone e (by simp) c hc hd

theorem answers_late {before after : List Event} (h : ∀ e ∈ after, e.Late) :
    answers (before ++ after) = answers before := by
  unfold answers
  rw [List.foldl_append]
  generalize before.foldl listen {} = s
  induction after with
  | nil => rfl
  | cons e es ih =>
    have he := h e List.mem_cons_self
    have hstep : listen s e = s := by
      cases e with
      | asked => exact he.elim
      | received => exact he.elim
      | _ => rfl
    rw [List.foldl_cons, hstep]
    exact ih fun e he => h e (List.mem_cons_of_mem _ he)

/-- Nothing is destructive in a history that leaves the disks alone. -/
theorem LeftAlone.noneDestructive {es : List Event} (h : LeftAlone es)
    (hsound : Chronicle (Sound minLen) es) : NoneDestructive es := by
  intro e he c hc hd
  obtain ⟨before, after, rfl⟩ := List.append_of_mem he
  obtain ⟨hlock, hunrefused, hlate⟩ := sound_destructive hsound hc hd
  rcases h with hidle | ⟨out, hm, hfs⟩ | ⟨p, v, hkind, hanswered, hparse⟩
  · have hplan : planned (before ++ e :: after) = planned before :=
      planned_append fun infos hm => hlate _ hm
    rw [hplan] at hidle
    have idle : ∀ {blank}, (planned before).blankDisk ≠ some blank := by
      intro blank hb
      cases hp : planned before <;> simp [hp, Plan.Idle, Plan.blankDisk] at hidle hb
    cases c with
    | sgdiskZap => exact idle hlock.choose_spec.choose_spec.1
    | luksFormat => exact idle hlock.choose_spec.choose_spec.1
    | mkfs =>
      rcases hlock.2 with ⟨blank, pw, hb, -⟩ | ⟨⟨luks, hl⟩, -⟩
      · exact idle hb
      · simp [hl, Plan.Idle] at hidle
    | _ => exact hd
  · have hbefore : .ran (.blkid .type .mapper) out ∈ before := by
      rcases List.mem_append.mp hm with hm | hm
      · exact hm
      · exact (hlate _ hm rfl).elim
    have hempty := hunrefused.probes out hbefore
    rcases hfs with hfs | ⟨fstype, hfs⟩ <;> simp [hempty] at hfs
  · have hmem := hanswered.mem_answers
    rw [answers_late hlate] at hmem
    exact hunrefused.answers _ hmem hkind hparse

/-- In every run of the daemon each destructive command is interlocked, and where the plan, the
content of the volume or the operator says to leave the disks alone none is run. -/
theorem destructive_commands_interlocked (cli : Cli) {o : Option (Except Error Nat)}
    {w : World} {es : List Event} (h : Run observed (main cli) ({}, []) o (w, es)) :
    Chronicle (fun before e => ∀ c, e.command = some c → c.Destructive →
      Interlocked cli.minPassphraseLen before e.secret c) es ∧
    (LeftAlone es → NoneDestructive es) := by
  have hI : Inv cli.minPassphraseLen (w, es) := (main_spec cli).1 _ h.toCut
  refine ⟨?_, fun halone => halone.noneDestructive hI.sound⟩
  rintro before e after rfl c hc hd
  exact (sound_destructive hI.sound hc hd).1

/-- A fresh server is provisioned with three destructive commands, and an empty volume is formatted
after it was probed and the operator agreed; all of them are interlocked. -/
theorem destructive_commands_interlocked_sample :
    freshEnd.1 = some (.ok 0) ∧
    (freshEnd.2.2.filterMap Event.command).filter (fun c => c.Destructive) =
      [.sgdiskZap (.disk "scsi-0HC_Volume_1"), .luksFormat (.part1 "scsi-0HC_Volume_1"),
        .mkfs .mapper] ∧
    Chronicle (fun before e => ∀ c, e.command = some c → c.Destructive →
      Interlocked 12 before e.secret c) freshEnd.2.2 ∧
    unformattedEnd.1 = some (.ok 0) ∧
    (answers unformattedEnd.2.2).map (fun a => (a.1.kind, a.2)) =
      [(.unlockPassphrase, "correct horse"), (.confirm, "yes")] ∧
    (unformattedEnd.2.2.filterMap Event.command).filter (fun c => c.Destructive) =
      [.mkfs .mapper] ∧
    Chronicle (fun before e => ∀ c, e.command = some c → c.Destructive →
      Interlocked 12 before e.secret c) unformattedEnd.2.2 := by
  have h : Run observed (main sampleCli) ({}, []) freshEnd.1 freshEnd.2 := scripted_run _ _ _ _
  have h' : Run observed (main sampleCli) ({}, []) unformattedEnd.1 unformattedEnd.2 :=
    scripted_run _ _ _ _
  exact ⟨by decide +kernel, by decide +kernel, (destructive_commands_interlocked sampleCli h).1,
    by decide +kernel, by decide +kernel, by decide +kernel,
    (destructive_commands_interlocked sampleCli h').1⟩

end Foundrix.VarDisk

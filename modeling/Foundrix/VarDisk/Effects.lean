import Foundrix.VarDisk.Conduct
import Foundrix.VarDisk.Machine
import Foundrix.VarDisk.Probe

/-!
# What the functions do to the machine

Most of the daemon leaves the machine as it is: it shows something, asks something or looks
at something. The rest are the commands with an effect.

* `Later`, `Stable`: a history that goes on, and what it does not break.
* `Aside`, `aside_spec`: the programs that leave the machine as it is.
* `runOk_effect`, `runWithStdin_effect`: the commands with an effect.
* `classified_legacy`, `classified_luks`: what a class says of a disk.
-/

namespace Foundrix.VarDisk

open Effect Text

variable {D : Type} {cfg : Cfg}

/-- The daemon's world with its history, and the machine. -/
abbrev Site (D : Type) := (World × List Event) × Machine D

/-- The probe for the label of partition 1 succeeded. -/
def LabelHeard (id : String) (es : List Event) : Prop :=
  ∃ out, .ran (.blkid .label (.part1 id)) (.ok out) ∈ es ∧ out.status.success = true

/-- The history goes on without a probe for a label, and with the same list of disks. -/
structure Later (x y : Site D) : Prop where
  disks : y.1.1.snapshot.disks = x.1.1.snapshot.disks
  log : x.1.2 <+: y.1.2
  heard : ∀ id, LabelHeard id y.1.2 → LabelHeard id x.1.2

theorem Later.refl (x : Site D) : Later x x := ⟨rfl, List.prefix_rfl, fun _ h => h⟩

theorem Later.trans {x y z : Site D} (h : Later x y) (h' : Later y z) : Later x z :=
  ⟨h'.disks.trans h.disks, h.log.trans h'.log, fun id hz => h.heard id (h'.heard id hz)⟩

theorem Later.labelHeard {x y : Site D} (h : Later x y) (id : String) :
    LabelHeard id y.1.2 ↔ LabelHeard id x.1.2 :=
  ⟨h.heard id, fun ⟨out, hmem, hout⟩ => ⟨out, h.log.subset hmem, hout⟩⟩

/-- A condition that holds on while the machine stays as it is. -/
def Stable (I : Site D → Prop) : Prop := ∀ {x y}, I x → Later x y → y.2 = x.2 → I y

/-! ## Programs that leave the machine as it is -/

def Aside : {β : Type} → Op β → Prop
  | _, .mutate f => ∀ s, (f s).disks = s.disks
  | _, .output c | _, .feed c _ => c.Inert
  | _, .spawn _ | _, .wait _ => False
  | _, _ => True

variable {x y : Site D}

/-- One more event, which is no successful probe for a label. -/
theorem later_add {e : Option Event} (hdisks : y.1.1.snapshot.disks = x.1.1.snapshot.disks)
    (hlog : y.1.2 = x.1.2 ++ e.toList)
    (he : ∀ id out, e ≠ some (.ran (.blkid .label (.part1 id)) (.ok out))) : Later x y := by
  refine ⟨hdisks, hlog ▸ List.prefix_append _ _, fun id ⟨out, hmem, hout⟩ => ?_⟩
  rw [hlog] at hmem
  rcases List.mem_append.mp hmem with hmem | hmem
  · exact ⟨out, hmem, hout⟩
  · exact (he id out (Option.mem_toList.mp hmem)).elim

/-- A command other than the probe for a label goes on with the history. -/
theorem command_later {c : Cmd} {r : Except String Output} (hc : ∀ d, c ≠ .blkid .label d)
    (hs : (onMachine cfg).step (.output c) x r y) :
    Later x y ∧ Ended cfg c x.2 y.2 r ∧ y.1.1 = x.1.1 ∧ y.1.2 = x.1.2 ++ [.ran c r] := by
  obtain ⟨⟨hw, hlog⟩, hm⟩ := hs
  have hworld : y.1.1 = x.1.1 := hw
  refine ⟨later_add (e := some (.ran c r)) (by rw [hworld]) hlog fun id out he => ?_, hm, hworld, hlog⟩
  cases he
  exact hc _ rfl

theorem feed_later {c : Cmd} {secret : String} {r : Fed}
    (hs : (onMachine cfg).step (.feed c secret) x r y) : Later x y := by
  obtain ⟨⟨hw, hlog⟩, -⟩ := hs
  have hworld : y.1.1 = x.1.1 := hw
  exact later_add (e := some (.fed c secret r)) (by rw [hworld]) hlog nofun

/-- A command without an effect leaves the machine as it is. -/
theorem Ended.inert {c : Cmd} {m m' : Machine D} {r : Except String Output} (hc : c.Inert)
    (h : Ended cfg c m m' r) : m' = m := by
  cases r with
  | error e =>
    rcases h with h | h
    · rw [hc.effect] at h
      exact (Option.some.inj h).symm
    · exact h
  | ok out =>
    rcases h.2 with h | ⟨-, h⟩
    · rw [hc.effect] at h
      exact (Option.some.inj h).symm
    · exact h

theorem Cmd.Inert.notLabel {c : Cmd} (h : c.Inert) (d : Device) : c ≠ .blkid .label d := by
  rintro rfl
  exact h rfl

theorem aside_step {β : Type} {e : Op β} {b : β} (he : Aside e)
    (hs : (onMachine cfg).step e x b y) : Later x y ∧ y.2 = x.2 := by
  have quiet : ∀ {ev : Option Event}, record e x.1.1 b = ev →
      (∀ id out, ev ≠ some (.ran (.blkid .label (.part1 id)) (.ok out))) →
      y.1.1.snapshot.disks = x.1.1.snapshot.disks → y.2 = x.2 → Later x y ∧ y.2 = x.2 := by
    intro ev hev hno hdisks hm
    exact ⟨later_add hdisks (hev ▸ hs.1.2) hno, hm⟩
  cases e with
  | output c =>
    obtain ⟨hlater, hended, -⟩ := command_later (fun d => he.notLabel d) hs
    exact ⟨hlater, hended.inert he⟩
  | feed c secret =>
    refine ⟨feed_later hs, ?_⟩
    cases b with
    | notSpawned e => exact hs.2
    | ran written out => exact Ended.inert he hs.2
  | mutate f =>
    have hworld : y.1.1 = x.1.1.mutate f := hs.1.1
    refine quiet rfl (fun id out => ?_) ?_ hs.2
    · show recordMutate _ _ ≠ _
      unfold recordMutate
      split
      · cases (f x.1.1.snapshot).prompt <;> simp
      · split <;> simp
    · rw [hworld]
      exact he _
  | spawn => exact he.elim
  | wait => exact he.elim
  | «exists» d => exact quiet rfl nofun (by rw [show y.1.1 = x.1.1 from hs.1.1]) hs.2.1
  | tryRecv =>
    refine quiet rfl (fun id out => ?_) (by rw [show y.1.1 = x.1.1 from hs.1.1]) hs.2
    cases b <;> exact nofun
  | nextPromptId => exact quiet rfl nofun (by rw [hs.1.1.2]) hs.2
  | writeState line =>
    have hworld : y.1.1 = { x.1.1 with stateFile := x.1.1.stateFile ++ [line] } := hs.1.1
    exact quiet rfl nofun (by rw [hworld]) hs.2
  | _ => exact quiet rfl nofun (by rw [show y.1.1 = x.1.1 from hs.1.1]) hs.2

variable {I : Site D → Prop} {α : Type}

/-- A program that leaves the machine as it is. -/
theorem aside_spec {p : Daemon α} (hp : p.Only Aside) (hI : Stable I) (hx : I x) :
    wpOk (onMachine cfg) I p (fun _ y => Later x y ∧ y.2 = x.2) x := by
  refine wp_mono (wp_always_mono (wp_only (J := fun y => Later x y ∧ y.2 = x.2) hp
    (fun e y b z he hy hs => ?_) ⟨.refl x, rfl⟩) fun y hy => hI hx hy.1 hy.2) fun _ _ _ h _ _ => h
  obtain ⟨hlater, hm⟩ := aside_step he hs
  exact ⟨hy.1.trans hlater, hm.trans hy.2⟩

theorem Looking.aside {β : Type} (e : Op β) (he : Looking e) : Aside e := by
  cases e with
  | mutate f => exact fun s => (he s).2
  | output c => exact he.1
  | feed => exact he.elim
  | spawn => exact he.elim
  | wait => exact he.elim
  | _ => trivial

theorem looking_aside {p : Daemon α} (hp : p.Only Looking) : p.Only Aside := hp.mono Looking.aside

theorem state_aside (phase message : String) : (Ui.state phase message).Only Aside :=
  looking_aside (state_looking phase message)

theorem ask_aside (kind : PromptKind) (text : String) : (Ui.ask kind text).Only Aside := by
  refine Prog.only_bind (Prog.only_perform trivial) fun id => ?_
  refine Prog.only_bind (Prog.only_perform fun _ => rfl) fun _ => ?_
  have wait : (Ui.waitForAnswer id).Only Aside := by
    refine Prog.only_iterate fun _ => Prog.only_bind (Prog.only_perform trivial) fun m => ?_
    rcases m with _ | ⟨promptId, value⟩
    · exact Prog.only_bind (Prog.only_perform trivial) fun _ => trivial
    · dsimp only
      split <;> trivial
  refine Prog.only_bind wait fun value => ?_
  exact Prog.only_bind (Prog.only_perform fun _ => rfl) fun _ => trivial

theorem askConfirm_aside (text : String) : (Ui.askConfirm text).Only Aside := by
  refine Prog.only_iterate fun _ => Prog.only_bind (ask_aside _ _) fun answer => ?_
  cases parseConfirm answer with
  | some yes => trivial
  | none => exact Prog.only_bind (state_aside _ _) fun _ => trivial

theorem askNewPassphrase_aside (cfg : Cfg) : (askNewPassphrase cfg).Only Aside := by
  refine Prog.only_iterate fun _ => Prog.only_bind (ask_aside _ _) fun a => ?_
  split
  · exact Prog.only_bind (state_aside _ _) fun _ => trivial
  · refine Prog.only_bind (ask_aside _ _) fun b => ?_
    split
    · trivial
    · exact Prog.only_bind (state_aside _ _) fun _ => trivial

/-- A program that leaves the machine as it is, and what follows it. -/
theorem aside_seq {β : Type} {p : Daemon α} {f : α → Daemon β} {Q : β → Site D → Prop}
    (hp : p.Only Aside) (hI : Stable I) (hx : I x)
    (hf : ∀ a y, I y → Later x y → y.2 = x.2 → wpOk (onMachine cfg) I (f a) Q y) :
    wpOk (onMachine cfg) I (p.bind f) Q x :=
  wpOk_seq (aside_spec hp hI hx) fun a y hy h => hf a y hy h.1 h.2

/-! ## Commands with an effect -/

/-- A command ended with success: it was truthful and has taken full effect. -/
theorem Ended.success {c : Cmd} {m m' : Machine D} {out : Output}
    (h : Ended cfg c m m' (.ok out)) (hout : out.status.success = true) :
    Truthful m out c ∧ c.effect cfg m = some m' := by
  refine ⟨h.1, h.2.resolve_right fun hno => ?_⟩
  rw [hno.1] at hout
  cases hout

theorem Ended.effect_or {c : Cmd} {m m' : Machine D} {r : Except String Output}
    (h : Ended cfg c m m' r) : c.effect cfg m = some m' ∨ m' = m := by
  cases r with
  | error e => exact h
  | ok out => exact h.2.imp_right And.right

theorem runOk_effect {c : Cmd} (hc : ∀ d, c ≠ .blkid .label d) (hx : I x)
    (hI : ∀ y, Later x y → c.effect cfg x.2 = some y.2 ∨ y.2 = x.2 → I y) :
    wpOk (onMachine cfg) I (runOk cfg c) (fun _ y => Later x y ∧ c.effect cfg x.2 = some y.2) x := by
  refine wpOk_step hx fun r y hs => ?_
  obtain ⟨hlater, hended, -⟩ := command_later hc hs
  have hy : I y := hI y hlater hended.effect_or
  cases r with
  | error e => exact wpOk_fail hy
  | ok out =>
    show wpOk (onMachine cfg) I (if out.status.success then .pure out.stdout
      else bail (failed cfg c out)) _ y
    split
    · rename_i hout
      exact wpOk_pure hy ⟨hlater, (hended.success hout).2⟩
    · exact wpOk_fail hy

theorem fedResult_ok {c : Cmd} {r : Fed} {u : Unit} (h : fedResult cfg c r = .ok u) :
    ∃ written out, r = .ran written (.ok out) ∧ out.status.success = true := by
  rcases r with _ | ⟨written, _ | out⟩
  · cases h
  · cases h
  · by_cases hout : out.status.success = true
    · exact ⟨written, out, rfl, hout⟩
    · simp [fedResult, hout] at h

theorem runWithStdin_effect {c : Cmd} {secret : String} (hx : I x)
    (hI : ∀ y, Later x y → c.effect cfg x.2 = some y.2 ∨ y.2 = x.2 → I y) :
    wp (onMachine cfg) I (runWithStdin cfg c secret) (fun r y => Later x y ∧
      (c.effect cfg x.2 = some y.2 ∨ y.2 = x.2) ∧
      (r = .ok () → c.effect cfg x.2 = some y.2)) x := by
  refine wp_step hx fun r y hs => ?_
  have hlater : Later x y := feed_later hs
  have hor : c.effect cfg x.2 = some y.2 ∨ y.2 = x.2 := by
    cases r with
    | notSpawned e => exact Or.inr hs.2
    | ran written out => exact Ended.effect_or hs.2
  refine wp_orFail (hI y hlater hor) ⟨hlater, hor, fun hr => ?_⟩
  obtain ⟨written, out, rfl, hout⟩ := fedResult_ok hr
  exact (Ended.success hs.2 hout).2

theorem runWithStdin_ok {c : Cmd} {secret : String} (hx : I x)
    (hI : ∀ y, Later x y → c.effect cfg x.2 = some y.2 ∨ y.2 = x.2 → I y) :
    wpOk (onMachine cfg) I (runWithStdin cfg c secret)
      (fun _ y => Later x y ∧ c.effect cfg x.2 = some y.2) x :=
  wp_mono (runWithStdin_effect hx hI) fun _ _ _ h _ hr => ⟨h.1, h.2.2 hr⟩

/-- What the daemon is told of a subvolume is so. -/
theorem subvolExists_spec {dir : Dir} {s : Subvol} (hI : Stable I) (hx : I x) :
    wpOk (onMachine cfg) I (subvolExists dir s) (fun found y => Later x y ∧ y.2 = x.2 ∧
      (found = true → (x.2.subvol dir s).isSome)) x := by
  refine wpOk_step hx fun r y hs => ?_
  obtain ⟨hlater, hended, -⟩ := command_later (c := .subvolShow dir s) (fun _ => nofun) hs
  have hsame : y.2 = x.2 := Ended.inert (c := .subvolShow dir s) trivial hended
  have hy : I y := hI hx hlater hsame
  cases r with
  | error e => exact wpOk_pure hy ⟨hlater, hsame, nofun⟩
  | ok out => exact wpOk_pure hy ⟨hlater, hsame, fun hout => hended.1 (by simpa [Status.success] using hout)⟩

/-! ## What a class says of a disk -/

/-- Everything that the history says of commands and device nodes is so on the machine. -/
def Told (m : Machine D) (es : List Event) : Prop :=
  (∀ c out, .ran c (.ok out) ∈ es → Truthful m out c) ∧
  ∀ d present, .existed d present ∈ es → NodeShown m present d

theorem told_step {β : Type} {e : Op β} {b : β} (he : Looking e) (hx : Told x.2 x.1.2)
    (hs : (onMachine cfg).step e x b y) : y.2 = x.2 ∧ Told y.2 y.1.2 := by
  obtain ⟨-, hsame⟩ := aside_step he.aside hs
  have grown : ∀ ev : Option Event, y.1.2 = x.1.2 ++ ev.toList →
      (∀ c out, ev = some (.ran c (.ok out)) → Truthful x.2 out c) →
      (∀ d present, ev = some (.existed d present) → NodeShown x.2 present d) →
      Told y.2 y.1.2 := by
    intro ev hlog hran hshown
    rw [hsame, hlog]
    refine ⟨fun c out hm => ?_, fun d present hm => ?_⟩
    · rcases List.mem_append.mp hm with hm | hm
      · exact hx.1 c out hm
      · exact hran c out (Option.mem_toList.mp hm)
    · rcases List.mem_append.mp hm with hm | hm
      · exact hx.2 d present hm
      · exact hshown d present (Option.mem_toList.mp hm)
  refine ⟨hsame, grown (record e x.1.1 b) hs.1.2 (fun c out hev => ?_) fun d present hev => ?_⟩
  · cases e with
    | output c' =>
      obtain ⟨rfl, rfl⟩ := Event.ran.inj (Option.some.inj hev)
      exact hs.2.1
    | mutate f =>
      simp only [record, recordMutate] at hev
      split_ifs at hev <;> simp at hev
    | tryRecv => cases b <;> cases hev
    | _ => cases hev
  · cases e with
    | «exists» d' =>
      obtain ⟨rfl, rfl⟩ := Event.existed.inj (Option.some.inj hev)
      exact hs.2.2
    | mutate f =>
      simp only [record, recordMutate] at hev
      split_ifs at hev <;> simp at hev
    | tryRecv => cases b <;> cases hev
    | _ => cases hev

theorem probed_some {out : Output} {v : String} (h : probed out = some v) :
    out.status.code = some 0 ∧ trim out.stdout = v := by
  simp only [probed] at h
  split at h
  · rename_i hout
    exact ⟨by simpa [Status.success] using hout.1, Option.some.inj h⟩
  · cases h

/-- What the probe of a disk found is so. -/
theorem found_told {o : Outcomes} {id : String} {p : DiskProbe} {m : Machine D}
    (hfound : o.found id = some p) (htold : Told m (o.events id)) :
    (p.partFstype = some "btrfs" → (m.fs (.part1 id)).isSome) ∧
    (p.partFstype = some "crypto_LUKS" → (m.inner id).isSome) ∧
    NodeShown m p.hasPart1 (.part1 id) := by
  obtain ⟨v₁, v₂, v₃, v₄, hv₁, -, -, -, rfl⟩ := Outcomes.found_some.mp hfound
  have heard : ∀ v, v₁ = some v → ∃ out, Truthful m out (.blkid .type (.part1 id)) ∧
      out.status.code = some 0 ∧ trim out.stdout = v := by
    rintro v rfl
    cases hpresent : o.present with
    | false =>
      simp [Outcomes.partValue, hpresent] at hv₁
    | true =>
      simp only [Outcomes.partValue, hpresent, if_true] at hv₁
      obtain ⟨out, hout, hprobed⟩ := Option.map_eq_some_iff.mp hv₁
      have hran : o.partFstype = .ok out := by
        cases hr : o.partFstype with
        | error e => simp [hr, Except.toOption] at hout
        | ok out' =>
          rw [hr] at hout
          exact congrArg Except.ok (Option.some.inj hout)
      refine ⟨out, htold.1 _ out ?_, probed_some hprobed⟩
      simp [Outcomes.events, hpresent, hran]
  refine ⟨fun hv => ?_, fun hv => ?_, htold.2 _ _ ?_⟩
  · obtain ⟨out, htrue, hcode, hout⟩ := heard _ hv
    exact htrue.1 hcode hout
  · obtain ⟨out, htrue, hcode, hout⟩ := heard _ hv
    exact htrue.2 hcode hout
  · simp [Outcomes.events]

/-- What the class of a disk says of it. -/
def ClassTold (m : Machine D) (id : String) : DiskClass → Prop
  | .luks => (m.inner id).isSome
  | .legacy => (m.fs (.part1 id)).isSome
  | .blank => NodeShown m false (.part1 id)
  | .foreign => True

theorem classify_told {p : DiskProbe} {id uuid : String} {m : Machine D}
    (h : (p.partFstype = some "btrfs" → (m.fs (.part1 id)).isSome) ∧
      (p.partFstype = some "crypto_LUKS" → (m.inner id).isSome) ∧
      NodeShown m p.hasPart1 (.part1 id)) : ClassTold m id (classify p uuid) := by
  have named : ∀ v, v ≠ "" → p.partFstype.getD "" = v → p.partFstype = some v := by
    intro v hv hp
    cases hf : p.partFstype with
    | none => exact (hv (by simpa [hf] using hp.symm)).elim
    | some v' => rw [hf] at hp; exact congrArg some hp
  unfold classify
  split
  · dsimp only
    split
    · rename_i hluks
      exact h.2.1 (named _ (by decide) hluks.1)
    · split
      · rename_i hbtrfs
        exact h.1 (named _ (by decide) hbtrfs.1)
      · trivial
  · rename_i hpart
    split
    · have hshown := h.2.2
      rw [Bool.eq_false_iff.mpr hpart] at hshown
      exact hshown
    · trivial

theorem Told.subset {m : Machine D} {es fs : List Event} (h : Told m fs) (hsub : es ⊆ fs) :
    Told m es :=
  ⟨fun c out hm => h.1 c out (hsub hm), fun d present hm => h.2 d present (hsub hm)⟩

/-- The survey ends with the classification of the volumes. -/
theorem survey_run {x y : World × List Event} {infos : List DiskInfo}
    (h : Run observed (survey cfg) x (some (.ok infos)) y) :
    ∃ z ids, Run observed (classifyAll cfg ids) z (some (.ok infos)) y := by
  obtain ⟨_, _, -, h⟩ := run_bind_ok.mp h
  obtain ⟨_, _, -, h⟩ := run_bind_ok.mp h
  obtain ⟨_, _, -, h⟩ := run_bind_ok.mp h
  obtain ⟨_, _, -, h⟩ := run_bind_ok.mp h
  obtain ⟨_, _, -, h⟩ := run_bind_ok.mp h
  obtain ⟨_, _, -, h⟩ := run_bind_ok.mp h
  obtain ⟨_, _, -, h⟩ := run_bind_ok.mp h
  obtain ⟨_, _, -, h⟩ := run_bind_ok.mp h
  obtain ⟨_, _, -, h⟩ := run_bind_ok.mp h
  obtain ⟨_, _, -, h⟩ := run_bind_ok.mp h
  obtain ⟨ids, z, -, h⟩ := run_bind_ok.mp h
  exact ⟨z, ids, h⟩

/-- The classes that the survey ends with say of the disks what is so. -/
theorem survey_spec (hI : Stable I) (hx : I x) (htold : Told x.2 x.1.2) :
    wpOk (onMachine cfg) I (survey cfg) (fun infos y => Later x y ∧ y.2 = x.2 ∧
      ∀ i ∈ infos, ClassTold x.2 i.id i.diskClass) x := by
  have hlooking := survey_looking cfg
  refine wp_mono (wp_and_run (aside_spec (looking_aside hlooking) hI hx)
    (R := fun r y => ∀ infos, r = .ok infos → ∀ i ∈ infos, ClassTold x.2 i.id i.diskClass) ?_)
    fun r y _ h infos hr => ⟨(h.1 infos hr).1, (h.1 infos hr).2, h.2 infos hr⟩
  rintro _ y hrun infos rfl i hi
  -- everything that was told in the survey is so at its end
  have hend : y.2 = x.2 ∧ Told y.2 y.1.2 := by
    refine hrun.keepsOnly (J := fun z => z.2 = x.2 ∧ Told z.2 z.1.2) (fun e z b z' he hz hs => ?_)
      hlooking ⟨rfl, htold⟩
    obtain ⟨hsame, htold'⟩ := told_step he hz.2 hs
    exact ⟨hsame.trans hz.1, htold'⟩
  obtain ⟨z, ids, hclassify⟩ := survey_run hrun.ofBeside
  obtain ⟨probes, -, hlog, hinfos⟩ := classifyAll_run hclassify
  obtain ⟨d, hd, p, hid, hfound, hclass⟩ := hinfos i hi
  have hsub : d.2.events d.1 ⊆ y.1.2 := by
    intro e he
    rw [hlog]
    exact List.mem_append_right _ (List.mem_flatMap.mpr ⟨d, hd, he⟩)
  have htold' := hend.2.subset hsub
  rw [hend.1] at htold'
  rw [hclass, ← hid]
  exact classify_told (found_told hfound htold')

end Foundrix.VarDisk

import Foundrix.VarDisk.Migration

/-!
# Nothing is made on an unlocked volume without a yes

The plan to unlock a volume opens it, mounts it and looks into it. All that it makes there, a
filesystem or a subvolume `var`, comes after a yes to a `Confirm` prompt.

* `Agreed`: an operator said yes.
* `Machine.Holds`, `Kept`, `kept_seq`: until then every volume is what it was.
* `unlock_kept`: the plan to unlock a volume.
-/

namespace Foundrix.VarDisk

open Effect Text

variable {D : Type} {cfg : Cfg} {m m' m₀ : Machine D} {x y : Site D} {α β : Type} {cs : List Cmd}
  {minLen : Nat}

/-- A `Confirm` prompt was answered with a yes. -/
def Agreed (es : List Event) : Prop :=
  ∃ p v, p.kind = .confirm ∧ Answered p v es ∧ parseConfirm v = some true

theorem Agreed.mono {es fs : List Event} (h : Agreed es) (hle : es <+: fs) : Agreed fs := by
  obtain ⟨rest, rfl⟩ := hle
  obtain ⟨p, v, hkind, ⟨before, exchange, after, rfl, hex⟩, hparse⟩ := h
  exact ⟨p, v, hkind, ⟨before, exchange, after ++ rest, by simp, hex⟩, hparse⟩

/-! ## Volumes that are kept -/

/-- Every volume is what it was, and no partition was lost. -/
def Machine.Holds (m₀ m : Machine D) : Prop :=
  ∀ id disk, m.disks id = some disk → ∃ disk₀, m₀.disks id = some disk₀ ∧
    disk.volume = disk₀.volume ∧ (disk₀.part1 = true → disk.part1 = true)

theorem Machine.Holds.refl (m : Machine D) : m.Holds m :=
  fun _ disk hdisk => ⟨disk, hdisk, rfl, id⟩

theorem Machine.Holds.of_disks (h : m₀.Holds m) (hdisks : m'.disks = m.disks) : m₀.Holds m' :=
  fun id disk hdisk => h id disk (hdisks ▸ hdisk)

/-- The commands that change no volume and take no partition. -/
def Cmd.KeepsVolumes : Cmd → Prop
  | .sgdiskZap _ | .luksFormat _ | .mkfs _ | .setLabel _ | .receive _ => False
  | .subvolCreate _ _ | .subvolSnapshot _ _ _ _ _ | .subvolDelete _ _ => False
  | _ => True

theorem Machine.Holds.effect {c : Cmd} (h : m₀.Holds m) (hc : c.KeepsVolumes)
    (heffect : c.effect cfg m = some m') : m₀.Holds m' := by
  rcases effect_cases heffect with ⟨d, old, fs, -, hw, -⟩ | ⟨j, present, ht, hset⟩ | ⟨j, rfl, -⟩ |
    ⟨mapper, mounts, -, rfl⟩
  · cases c <;> first | exact hc.elim | exact hw.elim
  · have hpresent : present = true := by
      cases c <;> first | exact hc.elim | exact ht.elim | exact ht.2
    subst hpresent
    obtain ⟨disk, hdisk, rfl⟩ := Machine.setPart1_some hset
    intro id disk' hdisk'
    by_cases hid : id = j
    · subst hid
      obtain rfl := Option.some.inj (setDisk_self.symm.trans hdisk')
      obtain ⟨disk₀, hdisk₀, hvolume, -⟩ := h id disk hdisk
      exact ⟨disk₀, hdisk₀, hvolume, fun _ => rfl⟩
    · exact h id disk' ((setDisk_other hid).symm.trans hdisk')
  · exact hc.elim
  · exact h.of_disks rfl

theorem volumes_spec {p : Daemon α} (hp : p.Only (Within cs)) (hcs : ∀ c ∈ cs, c.KeepsVolumes)
    (hx : m₀.Holds x.2) :
    wpOk (onMachine cfg) (fun y => m₀.Holds y.2) p (fun _ _ => True) x := by
  refine wp_mono (wp_only hp (fun e y b z he hy hs => ?_) hx) fun _ _ _ _ _ _ => trivial
  rcases within_step he hs with hsame | ⟨c, hc, heffect⟩ | ⟨dir, tree, hc, -⟩ | ⟨stream, hsame⟩
  · rw [hsame]
    exact hy
  · exact hy.effect (hcs c hc) heffect
  · exact (hcs _ hc).elim
  · rw [hsame]
    exact hy.of_disks rfl

/-- An operator has said yes, or every volume is what it was. -/
def Kept (m₀ : Machine D) (x : Site D) : Prop := Agreed x.1.2 ∨ m₀.Holds x.2

/-- A program that keeps the volumes and of which it is known what it leaves in the history,
and what follows it. -/
theorem kept_seq {p : Daemon α} {f : α → Daemon β} {R : α → World × List Event → Prop}
    (hp : p.Only (Within cs)) (hcs : ∀ c ∈ cs, c.KeepsVolumes)
    (hseen : wpOk observed (Inv minLen) p R x.1) (hx : m₀.Holds x.2)
    (hf : ∀ a y, m₀.Holds y.2 → Inv minLen y.1 → R a y.1 →
      wpOk (onMachine cfg) (Kept m₀) (f a) (fun _ _ => True) y) :
    wpOk (onMachine cfg) (Kept m₀) (p.bind f) (fun _ _ => True) x := by
  have both : wpOk (onMachine cfg) (fun y => m₀.Holds y.2 ∧ Inv minLen y.1) p
      (fun a y => True ∧ R a y.1) x :=
    wpOk_conj (volumes_spec hp hcs hx) (wp_beside hseen)
  exact wpOk_seq_within both (fun _ h => Or.inr h.1) fun a y h ha => hf a y h.1 h.2 ha.2

/-- Such a program, where it is all that is left. -/
theorem kept_rest {p : Daemon α} (hp : p.Only (Within cs)) (hcs : ∀ c ∈ cs, c.KeepsVolumes)
    (hx : m₀.Holds x.2) :
    wpOk (onMachine cfg) (Kept m₀) p (fun _ _ => True) x :=
  wp_always_mono (volumes_spec hp hcs hx) fun _ h => Or.inr h

/-- After a yes anything may follow. -/
theorem agreed_rest {p : Daemon α} (hx : Agreed x.1.2) :
    wpOk (onMachine cfg) (Kept m₀) p (fun _ _ => True) x :=
  ⟨fun _ run => Or.inl (hx.mono run.ofBeside.log_prefix), fun _ _ _ _ _ => trivial⟩

/-- Quiet operations that keep the volumes, and what follows them. -/
theorem kept_quiet {p : Daemon α} {f : α → Daemon β} (hp : p.Only (Within cs))
    (hcs : ∀ c ∈ cs, c.KeepsVolumes) (hquiet : p.Only Quiet) (hI : Inv minLen x.1)
    (hx : m₀.Holds x.2)
    (hf : ∀ a y, m₀.Holds y.2 → Inv minLen y.1 → Follows x.1 y.1 →
      wpOk (onMachine cfg) (Kept m₀) (f a) (fun _ _ => True) y) :
    wpOk (onMachine cfg) (Kept m₀) (p.bind f) (fun _ _ => True) x :=
  kept_seq hp hcs (quiet_spec hquiet hI) hx hf

theorem kept_looking {p : Daemon α} {f : α → Daemon β} (hp : p.Only Looking)
    (hI : Inv minLen x.1) (hx : m₀.Holds x.2)
    (hf : ∀ a y, m₀.Holds y.2 → Inv minLen y.1 → Follows x.1 y.1 →
      wpOk (onMachine cfg) (Kept m₀) (f a) (fun _ _ => True) y) :
    wpOk (onMachine cfg) (Kept m₀) (p.bind f) (fun _ _ => True) x :=
  kept_quiet (looking_within hp) (List.forall_mem_nil _) (hp.mono Looking.quiet) hI hx hf

/-! ## Unlock -/

/-- The answer to a `Confirm` prompt, and what follows a yes or a no. -/
theorem askConfirm_kept {text : String} {f : Bool → Daemon α} (hI : Inv minLen x.1)
    (hnone : NoneDestructive x.1.2) (hx : m₀.Holds x.2)
    (hno : ∀ y : Site D, m₀.Holds y.2 →
      wpOk (onMachine cfg) (Kept m₀) (f false) (fun _ _ => True) y) :
    wpOk (onMachine cfg) (Kept m₀) ((Ui.askConfirm text).bind f) (fun _ _ => True) x := by
  refine kept_seq (aside_within (askConfirm_aside text)) (List.forall_mem_nil _)
    (askConfirm_spec text hI hnone) hx fun yes y hy _ hseen => ?_
  cases yes with
  | false => exact hno y hy
  | true =>
    obtain ⟨between, ex, p, v, hlog, hex, hkind, hparse, -⟩ := hseen
    exact agreed_rest ⟨p, v, hkind, ⟨x.1.2 ++ between, ex, [], by simp [hlog], hex⟩, hparse⟩

theorem unlockBtrfs_kept (luksId : String) (hI : Inv minLen x.1) (hnone : NoneDestructive x.1.2)
    (hx : m₀.Holds x.2) :
    wpOk (onMachine cfg) (Kept m₀) (unlockBtrfs cfg luksId) (fun _ _ => True) x := by
  have umount : (runOk cfg (.umount .newVarFs)).Only (Within [.umount .newVarFs]) :=
    runOk_within (List.mem_singleton_self _)
  have keeps : ∀ c ∈ [Cmd.umount .newVarFs], c.KeepsVolumes := by simp [Cmd.KeepsVolumes]
  refine kept_looking (Prog.only_perform trivial) hI hx fun r y hy hIy h₁ => ?_
  refine kept_looking (question_only r) hIy hy fun _ z hz hIz h₂ => ?_
  refine kept_quiet (runOk_within (List.mem_singleton_self _)) (by simp [Cmd.KeepsVolumes])
    (runOk_quiet cfg id nofun) hIz hz fun _ u hu hIu h₃ => ?_
  refine kept_looking (runOk_only cfg ⟨trivial, nofun⟩) hIu hu fun _ v hv hIv h₄ => ?_
  refine kept_looking (subvolExists_looking _ _) hIv hv fun found w hw hIw h₅ => ?_
  have hfollows : Follows x.1 w.1 := (((h₁.trans h₂).trans h₃).trans h₄).trans h₅
  cases found with
  | true => exact kept_rest (Prog.only_bind umount fun _ => trivial) keeps hw
  | false =>
    refine askConfirm_kept hIw (hfollows.noneDestructive hnone) hw fun t ht => ?_
    exact kept_rest (Prog.only_bind umount fun _ => never_within (blockForever_within _)) keeps ht

/-- Nothing is made by the check of an opened volume before a yes. -/
theorem checkContent_kept (luksId : String) (hI : Inv minLen x.1) (hready : Ready x.1)
    (hx : m₀.Holds x.2) :
    wpOk (onMachine cfg) (Kept m₀) (checkContent cfg luksId) (fun _ _ => True) x := by
  refine wpOk_step (Or.inr hx) fun r y hs => ?_
  obtain ⟨hIy, -, hnone, -⟩ := mapperProbe_step hI hready hs.1
  have hsame : y.2 = x.2 := Ended.inert (c := .blkid .type .mapper) (fun h => by cases h) hs.2
  have hy : m₀.Holds y.2 := hsame ▸ hx
  cases mapperFs r with
  | btrfs => exact unlockBtrfs_kept luksId hIy hnone hy
  | empty =>
    refine askConfirm_kept hIy hnone hy fun z hz => ?_
    exact kept_rest (never_within (blockForever_within _)) (List.forall_mem_nil _) hz
  | other fstype =>
    exact kept_rest (never_within (blockForever_within _)) (List.forall_mem_nil _) hy
  | unknown => exact kept_rest (never_within (blockForever_within _)) (List.forall_mem_nil _) hy

/-- The plan to unlock a volume keeps every volume, unless an operator says yes. -/
theorem unlock_kept (luksId : String) (hI : Inv minLen x.1) (hready : Ready x.1)
    (hx : m₀.Holds x.2) :
    wpOk (onMachine cfg) (Kept m₀) (unlock cfg luksId) (fun _ _ => True) x := by
  have keeps : ∀ c ∈ openCmds luksId, c.KeepsVolumes := by simp [openCmds, Cmd.KeepsVolumes]
  have check : ∀ {z : Site D}, m₀.Holds z.2 → Inv minLen z.1 → Calm x.1 z.1 →
      wpOk (onMachine cfg) (Kept m₀)
        ((checkContent cfg luksId).bind fun _ => Ui.state "unlock" "unlocked; boot continuing")
        (fun _ _ => True) z := by
    intro z hz hIz hcalm
    refine wpOk_seq (checkContent_kept luksId hIz (hcalm.ready hready) hz) fun _ u hu _ => ?_
    rcases hu with hagreed | hsame
    · exact agreed_rest hagreed
    · exact kept_rest (state_within _ _) (List.forall_mem_nil _) hsame
  refine kept_quiet (maybeGrowPartition_within luksId) keeps (maybeGrowPartition_quiet cfg luksId)
    hI hx fun grew y hy hIy h₁ => ?_
  have hnone : NoneDestructive y.1.2 := h₁.noneDestructive hready.noneDestructive
  refine kept_seq (openVolume_within luksId) keeps (openVolume_spec luksId hIy hnone) hy
    fun pw z hz hIz h₂ => ?_
  refine kept_looking settle_looking hIz hz fun _ u hu hIu h₃ => ?_
  refine kept_looking (needsResize_looking cfg luksId grew) hIu hu fun resize v hv hIv h₄ => ?_
  have hcalm : Calm x.1 v.1 := ((h₁.calm.trans h₂).trans h₃.calm).trans h₄.calm
  cases resize with
  | false => exact check hv hIv hcalm
  | true =>
    refine kept_looking (state_looking _ _) hIv hv fun _ w hw hIw h₅ => ?_
    refine kept_quiet (runWithStdin_within (List.mem_singleton_self _))
      (by simp [Cmd.KeepsVolumes]) (runWithStdin_only cfg ⟨id, fun h => by cases h⟩) hIw hw
      fun _ s hs hIs h₆ => ?_
    refine kept_looking settle_looking hIs hs fun _ t ht hIt h₇ => ?_
    exact check ht hIt (hcalm.trans ((h₅.trans h₆).trans h₇).calm)

end Foundrix.VarDisk

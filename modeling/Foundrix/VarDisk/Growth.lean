import Foundrix.Machine.Trace
import Foundrix.VarDisk.Effects
import Foundrix.VarDisk.Scripted

/-!
# Growing a volume

A volume grows in layers: the disk is enlarged from outside, and an unlock pulls partition 1,
the LUKS mapping and the filesystem up, one after the other. It may be cut between any two
commands, and the flag that the partition grew is lost then.

* `Layers`, `Resizes`: the sizes, and what a command that succeeds may make of them.
* `onLayers`: the runs of the daemon on the sizes.
* `maybeGrowPartition_spec`, `luksResize_spec`, `checkContent_heals`: one for each layer.
* `growth_heals`: an unlock closes every gap that any history has left, and touches nothing
  where there is none.
-/

namespace Foundrix.VarDisk

open Effect Text

/-! ## Sizes -/

/-- The sizes of a disk, of its partition 1, of the mapping as it is or was last open, and of
the filesystem on it. -/
structure Layers where
  disk : Nat
  partition : Nat
  mapping : Nat
  filesystem : Option Nat
  partition_le : partition ≤ disk
  mapping_le : mapping ≤ partition
  filesystem_le : ∀ n ∈ filesystem, n ≤ mapping
  /-- The kernel addresses a block device by a signed offset. -/
  disk_lt : disk < 2 ^ 63

namespace Layers

def size (luksId : String) (g : Layers) : Device → Option Nat
  | .disk id => if id = luksId then some g.disk else none
  | .part1 id => if id = luksId then some g.partition else none
  | .mapper => some g.mapping

/-- The partition fills the disk, and the mapping the partition. -/
def Grown (g : Layers) : Prop :=
  g.disk ≤ g.partition + growThreshold ∧ g.partition ≤ g.mapping + luksHeaderSlack

/-- And the filesystem fills the mapping. -/
def Healed (g : Layers) : Prop := g.Grown ∧ g.filesystem = some g.mapping

end Layers

/-- What a command that succeeds may do to the sizes. Nothing is said of commands for another
disk. -/
def Resizes (luksId : String) (g g' : Layers) : Cmd → Prop
  | .sgdiskRegrow d => d = .disk luksId → g'.disk = g.disk ∧
      g.disk < g'.partition + growThreshold ∧ g'.mapping = g.mapping ∧
      g'.filesystem = g.filesystem
  -- opened, the mapping may have its old size or the one of the partition
  | .luksOpen _ d => d = .part1 luksId → g'.disk = g.disk ∧ g'.partition = g.partition ∧
      g.mapping ≤ g'.mapping ∧ g'.filesystem = g.filesystem
  | .luksResize => g'.disk = g.disk ∧ g'.partition = g.partition ∧
      g.partition < g'.mapping + luksHeaderSlack ∧ g'.filesystem = g.filesystem
  | .resizeMax _ | .mkfs .mapper => g'.disk = g.disk ∧ g'.partition = g.partition ∧
      g'.mapping = g.mapping ∧ g'.filesystem = some g.mapping
  | .sgdiskZap _ | .sgdiskNew _ | .luksFormat _ | .mkfs _ => True
  | _ => g' = g

/-- `blockdev` prints the size. -/
def Measured (luksId : String) (g : Layers) (out : Output) : Cmd → Prop
  | .blockdev d => ∀ n, g.size luksId d = some n → parseU64 (trim out.stdout) = .ok n
  | _ => True

/-- How a command may end. One that failed may have had its effect. -/
def SizesAfter (luksId : String) (c : Cmd) (g g' : Layers) : Except String Output → Prop
  | .ok out =>
    if out.status.success then Measured luksId g out c ∧ Resizes luksId g g' c
    else Resizes luksId g g' c ∨ g' = g
  | .error _ => Resizes luksId g g' c ∨ g' = g

def LayersStep (luksId : String) : {β : Type} → Op β → Layers → β → Layers → Prop
  | _, .output c, g, r, g' => SizesAfter luksId c g g' r
  | _, .feed c _, g, r, g' =>
    match r with
    | .notSpawned _ => g' = g
    | .ran _ out => SizesAfter luksId c g g' out
  | _, _, g, _, g' => g' = g

/-- The daemon with its history, and the sizes. -/
abbrev Setting := (World × List Event) × Layers

/-- The runs of the daemon, with their history, on the sizes of a volume. -/
def onLayers (luksId : String) : Handler Op Setting := observed.beside (LayersStep luksId)

/-! ## What a history says -/

/-- The command that gives the filesystem the size of the mapping succeeded. -/
def Fills : Event → Prop
  | .ran (.resizeMax _) (.ok out) | .ran (.mkfs .mapper) (.ok out) => out.status.success = true
  | _ => False

def Filled (es : List Event) : Prop := ∃ e ∈ es, Fills e

/-- Neither the partition table was touched nor the mapping resized. -/
def Spares (e : Event) : Prop := ∀ c, e.command = some c → c.program ≠ "sgdisk" ∧ c ≠ .luksResize

def Spared (es : List Event) : Prop := ∀ e ∈ es, Spares e

theorem filled_concat {es : List Event} {e : Event} : Filled (es ++ [e]) ↔ Filled es ∨ Fills e := by
  simp [Filled, or_and_right, exists_or]

theorem spared_concat {es : List Event} {e : Event} : Spared (es ++ [e]) ↔ Spared es ∧ Spares e := by
  simp [Spared, or_imp, forall_and]

section Steps

variable {cfg : Cfg} {luksId : String} {grown : Prop} {P : Layers → Prop} {x y : Setting}

/-- The filesystem is filled only where the volume is healed, and a volume that was `grown` is
spared. -/
structure Growing (grown : Prop) (x : Setting) : Prop where
  healed : Filled x.1.2 → x.2.Healed
  spared : grown → Spared x.1.2

/-- The filesystem was not filled yet, and the sizes satisfy `P`. -/
structure Before (grown : Prop) (P : Layers → Prop) (x : Setting) : Prop where
  sizes : P x.2
  unfilled : ¬ Filled x.1.2
  spared : grown → Spared x.1.2

/-- The volume is healed. -/
structure After (grown : Prop) (x : Setting) : Prop where
  healed : x.2.Healed
  spared : grown → Spared x.1.2

theorem Before.growing (h : Before grown P x) : Growing grown x :=
  ⟨fun hfilled => absurd hfilled h.unfilled, h.spared⟩

theorem After.growing (h : After grown x) : Growing grown x := ⟨fun _ => h.healed, h.spared⟩

theorem Before.mono {Q : Layers → Prop} (h : Before grown P x) (hPQ : ∀ g, P g → Q g) :
    Before grown Q x :=
  ⟨hPQ _ h.sizes, h.unfilled, h.spared⟩

theorem ran_step {c : Cmd} {r : Except String Output}
    (hs : (onLayers luksId).step (.output c) x r y) :
    y.1.2 = x.1.2 ++ [.ran c r] ∧ SizesAfter luksId c x.2 y.2 r :=
  ⟨hs.1.2, hs.2⟩

/-- After an event that fills nothing. -/
theorem Before.next {e : Event} {Q : Layers → Prop} (h : Before grown P x)
    (hlog : y.1.2 = x.1.2 ++ [e]) (hQ : Q y.2) (hfills : ¬ Fills e) (hspares : grown → Spares e) :
    Before grown Q y := by
  refine ⟨hQ, ?_, ?_⟩
  · rw [hlog, filled_concat]
    exact not_or.mpr ⟨h.unfilled, hfills⟩
  · intro hg
    rw [hlog, spared_concat]
    exact ⟨h.spared hg, hspares hg⟩

/-! ## Operations that leave the sizes -/

/-- The commands that leave the sizes as they are, `sgdisk -e` aside, which prepares a change. -/
def Cmd.Still : Cmd → Prop
  | .sgdiskExpand _ | .sgdiskRegrow _ | .sgdiskZap _ | .sgdiskNew _ => False
  | .luksFormat _ | .luksOpen _ _ | .luksResize | .mkfs _ | .resizeMax _ => False
  | _ => True

def Still : {β : Type} → Op β → Prop
  | _, .output c | _, .feed c _ => c.Still
  | _, _ => True

theorem Cmd.Still.resizes {c : Cmd} (h : c.Still) {g g' : Layers} (hr : Resizes luksId g g' c) :
    g' = g := by
  cases c <;> first | exact hr | exact h.elim

theorem SizesAfter.effect_or {c : Cmd} {g g' : Layers} {r : Except String Output}
    (h : SizesAfter luksId c g g' r) : Resizes luksId g g' c ∨ g' = g := by
  cases r with
  | error e => exact h
  | ok out =>
    simp only [SizesAfter] at h
    split at h
    · exact Or.inl h.2
    · exact h

theorem SizesAfter.success {c : Cmd} {g g' : Layers} {out : Output}
    (h : SizesAfter luksId c g g' (.ok out)) (hout : out.status.success = true) :
    Measured luksId g out c ∧ Resizes luksId g g' c := by
  simp only [SizesAfter] at h
  rwa [if_pos hout] at h

theorem Cmd.Still.sizesAfter {c : Cmd} (h : c.Still) {g g' : Layers} {r : Except String Output}
    (hs : SizesAfter luksId c g g' r) : g' = g :=
  hs.effect_or.elim h.resizes id

theorem Cmd.Still.spares {c : Cmd} (h : c.Still) : c.program ≠ "sgdisk" ∧ c ≠ .luksResize := by
  cases c <;> first | exact h.elim | simp [Cmd.program]

theorem Cmd.Still.not_fills {c : Cmd} (h : c.Still) (r : Except String Output) :
    ¬ Fills (.ran c r) := by
  cases c <;> first | exact id | exact h.elim

/-- What is added to the history neither fills the filesystem nor touches the table. -/
theorem Still.event {β : Type} {e : Op β} (he : Still e) {w : World} {b : β} {ev : Event}
    (h : record e w b = some ev) : ¬ Fills ev ∧ Spares ev := by
  cases e with
  | output c =>
    obtain rfl := Option.some.inj h
    refine ⟨Cmd.Still.not_fills he b, fun c' hc => ?_⟩
    obtain rfl := Option.some.inj hc
    exact Cmd.Still.spares he
  | feed c secret =>
    obtain rfl := Option.some.inj h
    refine ⟨id, fun c' hc => ?_⟩
    obtain rfl := Option.some.inj hc
    exact Cmd.Still.spares he
  | mutate f =>
    have hplain : ¬ Fills ev ∧ ev.command = none := by
      simp only [record, recordMutate] at h
      split at h
      · obtain ⟨p, -, rfl⟩ := Option.map_eq_some_iff.mp h
        exact ⟨id, rfl⟩
      · split at h
        · obtain rfl := Option.some.inj h
          exact ⟨id, rfl⟩
        · cases h
    exact ⟨hplain.1, fun c hc => by rw [hplain.2] at hc; cases hc⟩
  | tryRecv =>
    obtain ⟨m, -, rfl⟩ := Option.map_eq_some_iff.mp h
    refine ⟨id, fun c hc => ?_⟩
    cases hc
  | «exists» d =>
    obtain rfl := Option.some.inj h
    refine ⟨id, fun c hc => ?_⟩
    cases hc
  | _ => cases h

theorem still_step {β : Type} {e : Op β} {b : β} (he : Still e)
    (hs : (onLayers luksId).step e x b y) : y.2 = x.2 ∧ (Filled y.1.2 → Filled x.1.2) ∧
      (Spared x.1.2 → Spared y.1.2) := by
  constructor
  · cases e with
    | output c => exact Cmd.Still.sizesAfter he hs.2
    | feed c secret =>
      cases b with
      | notSpawned e => exact hs.2
      | ran written out => exact Cmd.Still.sizesAfter he hs.2
    | _ => exact hs.2
  · have hlog : y.1.2 = x.1.2 ++ (record e x.1.1 b).toList := hs.1.2
    cases hev : record e x.1.1 b with
    | none =>
      rw [hev, Option.toList_none, List.append_nil] at hlog
      rw [hlog]
      exact ⟨id, id⟩
    | some ev =>
      obtain ⟨hfills, hspares⟩ := he.event hev
      rw [hev, Option.toList_some] at hlog
      rw [hlog, filled_concat, spared_concat]
      exact ⟨fun h => h.resolve_right hfills, fun h => ⟨h, hspares⟩⟩

theorem Before.still {β : Type} {e : Op β} {b : β} (h : Before grown P x) (he : Still e)
    (hs : (onLayers luksId).step e x b y) : Before grown P y := by
  obtain ⟨hsizes, hfilled, hspared⟩ := still_step he hs
  exact ⟨hsizes ▸ h.sizes, fun hy => h.unfilled (hfilled hy), fun hg => hspared (h.spared hg)⟩

theorem After.still {β : Type} {e : Op β} {b : β} (h : After grown x) (he : Still e)
    (hs : (onLayers luksId).step e x b y) : After grown y := by
  obtain ⟨hsizes, -, hspared⟩ := still_step he hs
  exact ⟨hsizes ▸ h.healed, fun hg => hspared (h.spared hg)⟩

variable {α β : Type}

/-- A program that leaves the sizes. -/
theorem before_still {p : Daemon α} (hp : p.Only Still) (h : Before grown P x) :
    wpOk (onLayers luksId) (Growing grown) p (fun _ => Before grown P) x := by
  have hkeeps := wp_only (H := onLayers luksId) (J := Before grown P) hp
    (fun e _ _ _ he hx hs => hx.still he hs) h
  exact wp_mono (wp_always_mono hkeeps fun _ hy => hy.growing) fun _ _ _ hy _ _ => hy

theorem after_still {p : Daemon α} (hp : p.Only Still) (h : After grown x) :
    wpOk (onLayers luksId) (Growing grown) p (fun _ => After grown) x := by
  have hkeeps := wp_only (H := onLayers luksId) (J := After grown) hp
    (fun e _ _ _ he hx hs => hx.still he hs) h
  exact wp_mono (wp_always_mono hkeeps fun _ hy => hy.growing) fun _ _ _ hy _ _ => hy

/-- And what follows it. -/
theorem before_seq {p : Daemon α} {f : α → Daemon β} {Q : β → Setting → Prop}
    (hp : p.Only Still) (h : Before grown P x)
    (hf : ∀ a y, Before grown P y → wpOk (onLayers luksId) (Growing grown) (f a) Q y) :
    wpOk (onLayers luksId) (Growing grown) (p.bind f) Q x :=
  wpOk_seq (before_still hp h) fun a y _ hy => hf a y hy

theorem after_seq {p : Daemon α} {f : α → Daemon β} {Q : β → Setting → Prop}
    (hp : p.Only Still) (h : After grown x)
    (hf : ∀ a y, After grown y → wpOk (onLayers luksId) (Growing grown) (f a) Q y) :
    wpOk (onLayers luksId) (Growing grown) (p.bind f) Q x :=
  wpOk_seq (after_still hp h) fun a y _ hy => hf a y hy

end Steps

/-! ## The parts of an unlock that leave the sizes -/

theorem state_still (phase message : String) : (Ui.state phase message).Only Still :=
  Prog.only_bind (Prog.only_perform trivial) fun _ => Prog.only_perform trivial

theorem ask_still (kind : PromptKind) (text : String) : (Ui.ask kind text).Only Still := by
  refine Prog.only_bind (Prog.only_perform trivial) fun id => ?_
  refine Prog.only_bind (Prog.only_perform trivial) fun _ => ?_
  have wait : (Ui.waitForAnswer id).Only Still := by
    refine Prog.only_iterate fun _ => Prog.only_bind (Prog.only_perform trivial) fun m => ?_
    rcases m with _ | ⟨promptId, value⟩
    · exact Prog.only_bind (Prog.only_perform trivial) fun _ => trivial
    · dsimp only
      split <;> trivial
  refine Prog.only_bind wait fun value => ?_
  exact Prog.only_bind (Prog.only_perform trivial) fun _ => trivial

theorem askConfirm_still (text : String) : (Ui.askConfirm text).Only Still := by
  refine Prog.only_iterate fun _ => Prog.only_bind (ask_still _ _) fun answer => ?_
  cases parseConfirm answer with
  | some yes => trivial
  | none => exact Prog.only_bind (state_still _ _) fun _ => trivial

theorem blockForever_still (reason : String) : (Ui.blockForever reason).Only Still := by
  refine Prog.only_bind (state_still _ _) fun _ => ?_
  refine Prog.only_bind (Prog.only_perform trivial) fun _ => ?_
  refine Prog.only_iterate fun _ => ?_
  refine Prog.only_bind (Prog.only_perform trivial) fun _ => ?_
  exact Prog.only_bind (Prog.only_perform trivial) fun _ => trivial

theorem settle_still : settle.Only Still := settle_only trivial

theorem createVarSubvol_still (cfg : Cfg) : (createVarSubvol cfg).Only Still := by
  refine Prog.only_bind (Prog.only_perform trivial) fun r => ?_
  refine Prog.only_bind (question_only r) fun _ => ?_
  refine Prog.only_bind (runOk_only cfg trivial) fun _ => ?_
  refine Prog.only_bind (runOk_only cfg trivial) fun _ => ?_
  exact Prog.only_bind (runOk_only cfg trivial) fun _ => trivial

/-! ## Layer by layer -/

section Unlock

variable {cfg : Cfg} {luksId : String} {grown : Prop} {P : Layers → Prop} {x : Setting}

/-- A command that succeeded has had its effect. -/
theorem runOk_layers {c : Cmd} (hx : Growing grown x)
    (hnext : ∀ r y, (onLayers luksId).step (.output c) x r y → Growing grown y) :
    wpOk (onLayers luksId) (Growing grown) (runOk cfg c) (fun stdout y =>
      ∃ out, out.stdout = stdout ∧ out.status.success = true ∧
        (onLayers luksId).step (.output c) x (.ok out) y) x := by
  refine wpOk_step hx fun r y hs => ?_
  have hy := hnext r y hs
  cases r with
  | error e => exact wpOk_fail hy
  | ok out =>
    show wpOk (onLayers luksId) (Growing grown) (if out.status.success then .pure out.stdout
      else bail (failed cfg c out)) _ y
    split
    · rename_i hout
      exact wpOk_pure hy ⟨out, rfl, hout, hs⟩
    · exact wpOk_fail hy

theorem blockdevBytes_spec {d : Device} {g : Layers} {n : Nat} (hsize : g.size luksId d = some n)
    (h : Before grown (· = g) x) :
    wpOk (onLayers luksId) (Growing grown) (blockdevBytes cfg d)
      (fun k y => k = n ∧ Before grown (· = g) y) x := by
  have hstill : ∀ r y, (onLayers luksId).step (.output (.blockdev d)) x r y →
      Before grown (· = g) y := fun r y hs => h.still (e := .output (.blockdev d)) trivial hs
  refine wpOk_seq (runOk_layers h.growing fun r y hs => (hstill r y hs).growing) ?_
  rintro stdout y - ⟨out, rfl, hout, hs⟩
  have hy := hstill _ y hs
  have hparse : parseU64 (trim out.stdout) = .ok n :=
    ((ran_step hs).2.success hout).1 n (h.sizes ▸ hsize)
  rw [hparse]
  exact wpOk_pure hy.growing ⟨rfl, hy⟩

/-- The size of a device, and what follows. -/
theorem blockdev_seq {d : Device} {g : Layers} {n : Nat} {α : Type} {f : Nat → Daemon α}
    {Q : α → Setting → Prop} (hsize : g.size luksId d = some n) (h : Before grown (· = g) x)
    (hf : ∀ y, Before grown (· = g) y → wpOk (onLayers luksId) (Growing grown) (f n) Q y) :
    wpOk (onLayers luksId) (Growing grown) ((blockdevBytes cfg d).bind f) Q x := by
  refine wpOk_seq (blockdevBytes_spec hsize h) ?_
  rintro k y - ⟨rfl, hy⟩
  exact hf y hy

/-- Sizes with a little more do not wrap around. -/
theorem addU64_eq {a b : Nat} (ha : a < 2 ^ 63) (hb : b < 2 ^ 63) : addU64 a b = a + b := by
  rw [addU64]
  omega

/-- The partition is up to the disk then. Where the volume was grown already, the partition is
as it was. -/
structure PartitionGrown (g g' : Layers) : Prop where
  disk : g'.disk ≤ g'.partition + growThreshold
  kept : g.Grown → g'.partition = g.partition ∧ g.mapping ≤ g'.mapping

theorem maybeGrowPartition_spec {g : Layers} (h : Before g.Grown (· = g) x) :
    wpOk (onLayers luksId) (Growing g.Grown) (maybeGrowPartition cfg luksId)
      (fun grew y => (g.Grown → grew = false) ∧ Before g.Grown (PartitionGrown g) y) x := by
  have hdisk : g.size luksId (.disk luksId) = some g.disk := if_pos rfl
  have hpart : g.size luksId (.part1 luksId) = some g.partition := if_pos rfl
  have hadd : addU64 g.partition growThreshold = g.partition + growThreshold :=
    addU64_eq (Nat.lt_of_le_of_lt g.partition_le g.disk_lt) (by decide)
  refine blockdev_seq hdisk h fun x₁ h₁ => ?_
  refine blockdev_seq hpart h₁ fun x₂ h₂ => ?_
  rw [hadd]
  split
  · rename_i hfull
    refine wpOk_pure h₂.growing ⟨fun _ => rfl, h₂.mono ?_⟩
    rintro _ rfl
    exact ⟨hfull, fun _ => ⟨rfl, Nat.le_refl _⟩⟩
  · rename_i hgap
    have hnot : ¬ g.Grown := fun hg => hgap hg.1
    refine before_seq (state_still _ _) h₂ fun _ x₃ h₃ => ?_
    -- the table is touched, but not of a volume that was grown
    have hexpand : ∀ r y, (onLayers luksId).step (.output (.sgdiskExpand (.disk luksId))) x₃ r y →
        Before g.Grown (· = g) y := by
      intro r y hs
      obtain ⟨hlog, hsizes⟩ := ran_step hs
      have hsame : y.2 = x₃.2 := hsizes.effect_or.elim id id
      exact h₃.next hlog (hsame.trans h₃.sizes) id fun hg => absurd hg hnot
    refine wpOk_seq (runOk_layers h₃.growing fun r y hs => (hexpand r y hs).growing) ?_
    rintro _ x₄ - ⟨out, -, -, hs⟩
    have h₄ := hexpand _ _ hs
    have hregrow : ∀ r y, (onLayers luksId).step (.output (.sgdiskRegrow (.disk luksId))) x₄ r y →
        Before g.Grown (fun _ => True) y := by
      intro r y hs
      exact h₄.next (ran_step hs).1 trivial id fun hg => absurd hg hnot
    refine wpOk_seq (runOk_layers h₄.growing fun r y hs => (hregrow r y hs).growing) ?_
    rintro _ x₅ - ⟨out, -, hout, hs⟩
    obtain ⟨hkept, hreach, -⟩ := ((ran_step hs).2.success hout).2 rfl
    have h₅ : Before g.Grown (PartitionGrown g) x₅ := by
      refine h₄.next (ran_step hs).1 ⟨?_, fun hg => absurd hg hnot⟩ id fun hg => absurd hg hnot
      rw [hkept]
      exact Nat.le_of_lt hreach
    refine before_seq settle_still h₅ fun _ x₆ h₆ => ?_
    exact wpOk_pure h₆.growing ⟨fun hg => absurd hg hnot, h₆⟩

/-- The operations of asking for the passphrase until the volume opens. -/
def Opening (luksId : String) : {β : Type} → Op β → Prop
  | _, .feed (.luksOpen _ d) _ => d = .part1 luksId
  | _, e => Still e

theorem Still.opening {β : Type} (e : Op β) (he : Still e) : Opening luksId e := by
  cases e with
  | feed c secret => cases c <;> first | exact he | exact he.elim
  | _ => exact he

theorem openVolume_opening (cfg : Cfg) (luksId : String) :
    (openVolume cfg luksId).Only (Opening luksId) := by
  have hstill : ∀ {α : Type} {p : Daemon α}, p.Only Still → p.Only (Opening luksId) :=
    fun hp => hp.mono Still.opening
  refine Prog.only_iterate fun _ => Prog.only_bind (hstill (ask_still _ _)) fun pw => ?_
  refine Prog.only_bind (hstill (state_still _ _)) fun _ => ?_
  refine Prog.only_bind (Prog.only_attempt (runWithStdin_only cfg rfl)) fun r => ?_
  cases r with
  | ok => trivial
  | error e => exact Prog.only_bind (hstill (state_still _ _)) fun _ => trivial

theorem PartitionGrown.opened {g v v' : Layers} {persistent : Bool} (h : PartitionGrown g v)
    (hr : Resizes luksId v v' (.luksOpen persistent (.part1 luksId)) ∨ v' = v) :
    PartitionGrown g v' := by
  rcases hr with hr | rfl
  · obtain ⟨hdisk, hpart, hmapping, -⟩ := hr rfl
    refine ⟨?_, fun hg => ?_⟩
    · rw [hdisk, hpart]
      exact h.disk
    · obtain ⟨hsame, hle⟩ := h.kept hg
      exact ⟨hpart.trans hsame, Nat.le_trans hle hmapping⟩
  · exact h

theorem opening_step {g : Layers} {β : Type} {e : Op β} {b : β} {y : Setting}
    (h : Before grown (PartitionGrown g) x) (he : Opening luksId e)
    (hs : (onLayers luksId).step e x b y) : Before grown (PartitionGrown g) y := by
  by_cases hstill : Still e
  · exact h.still hstill hs
  · cases e with
    | feed c secret =>
      cases c with
      | luksOpen persistent d =>
        obtain rfl : d = .part1 luksId := he
        have hsizes : Resizes luksId x.2 y.2 (.luksOpen persistent (.part1 luksId)) ∨
            y.2 = x.2 := by
          cases b with
          | notSpawned e => exact Or.inr hs.2
          | ran written out => exact SizesAfter.effect_or hs.2
        refine h.next hs.1.2 (h.sizes.opened hsizes) id fun _ c hc => ?_
        obtain rfl := Option.some.inj hc
        exact ⟨show "cryptsetup" ≠ "sgdisk" by decide, nofun⟩
      | _ => exact absurd he hstill
    | _ => exact absurd he hstill

theorem openVolume_grows {g : Layers} (h : Before grown (PartitionGrown g) x) :
    wpOk (onLayers luksId) (Growing grown) (openVolume cfg luksId)
      (fun _ => Before grown (PartitionGrown g)) x := by
  have hkeeps := wp_only (H := onLayers luksId) (J := Before grown (PartitionGrown g))
    (openVolume_opening cfg luksId) (fun e _ _ _ he hx hs => opening_step hx he hs) h
  exact wp_mono (wp_always_mono hkeeps fun _ hy => hy.growing) fun _ _ _ hy _ _ => hy

/-- The mapping is compared by size, whatever this run did. -/
theorem needsResize_spec {g : Layers} {grew : Bool} (h : Before grown (· = g) x) :
    wpOk (onLayers luksId) (Growing grown) (needsResize cfg luksId grew) (fun needs y =>
      (needs = false → g.partition ≤ g.mapping + luksHeaderSlack) ∧
        (needs = true → grew = true ∨ g.mapping + luksHeaderSlack < g.partition) ∧
        Before grown (· = g) y) x := by
  have hpart : g.size luksId (.part1 luksId) = some g.partition := if_pos rfl
  have hmapping : g.size luksId .mapper = some g.mapping := rfl
  have hlt := Nat.lt_of_le_of_lt (Nat.le_trans g.mapping_le g.partition_le) g.disk_lt
  have hadd : addU64 g.mapping luksHeaderSlack = g.mapping + luksHeaderSlack :=
    addU64_eq hlt (by decide)
  unfold needsResize
  split
  · rename_i hgrew
    exact wpOk_pure h.growing ⟨nofun, fun _ => Or.inl hgrew, h⟩
  · refine blockdev_seq hpart h fun x₁ h₁ => ?_
    refine blockdev_seq hmapping h₁ fun x₂ h₂ => ?_
    rw [hadd]
    refine wpOk_pure h₂.growing ⟨fun hno => ?_, fun hyes => ?_, h₂⟩
    · exact Nat.le_of_not_lt (of_decide_eq_false hno)
    · exact Or.inr (of_decide_eq_true hyes)

/-- The mapping follows the partition. -/
theorem luksResize_spec {g : Layers} {pw : String} (hnot : ¬ grown)
    (hdisk : g.disk ≤ g.partition + growThreshold) (h : Before grown (· = g) x) :
    wpOk (onLayers luksId) (Growing grown) (runWithStdin cfg .luksResize pw)
      (fun _ => Before grown Layers.Grown) x := by
  refine wpOk_step h.growing fun r y hs => ?_
  have hbefore : ∀ {Q : Layers → Prop}, Q y.2 → Before grown Q y := fun hQ =>
    h.next hs.1.2 hQ id fun hg => absurd hg hnot
  refine wp_orFail (hbefore (Q := fun _ => True) trivial).growing fun u hr => ?_
  obtain ⟨written, out, rfl, hout⟩ := fedResult_ok hr
  obtain ⟨hd, hp, hm, -⟩ : Resizes luksId x.2 y.2 .luksResize := (SizesAfter.success hs.2 hout).2
  apply hbefore
  constructor
  · rw [hd, hp, h.sizes]
    exact hdisk
  · rw [hp]
    exact Nat.le_of_lt hm

/-- The command that gives the filesystem the size of the mapping. -/
theorem fill_spec {c : Cmd} (hc : (∃ dir, c = .resizeMax dir) ∨ c = .mkfs .mapper)
    (h : Before grown Layers.Grown x) :
    wpOk (onLayers luksId) (Growing grown) (runOk cfg c) (fun _ => After grown) x := by
  have hspares : ∀ r, Spares (.ran c r) := by
    intro r c' hc'
    obtain rfl := Option.some.inj hc'
    rcases hc with ⟨dir, rfl⟩ | rfl
    · exact ⟨show "btrfs" ≠ "sgdisk" by decide, nofun⟩
    · exact ⟨show "mkfs.btrfs" ≠ "sgdisk" by decide, nofun⟩
  have hresizes : ∀ {g g' : Layers}, Resizes luksId g g' c → g'.disk = g.disk ∧
      g'.partition = g.partition ∧ g'.mapping = g.mapping ∧ g'.filesystem = some g.mapping := by
    intro g g' hr
    rcases hc with ⟨dir, rfl⟩ | rfl <;> exact hr
  have hspared : ∀ r y, (onLayers luksId).step (.output c) x r y → grown → Spared y.1.2 := by
    intro r y hs hg
    rw [(ran_step hs).1, spared_concat]
    exact ⟨h.spared hg, hspares r⟩
  have hafter : ∀ out y, out.status.success = true →
      (onLayers luksId).step (.output c) x (.ok out) y → After grown y := by
    intro out y hout hs
    obtain ⟨hd, hp, hm, hf⟩ := hresizes ((ran_step hs).2.success hout).2
    refine ⟨⟨?_, ?_⟩, hspared _ y hs⟩
    · rw [Layers.Grown, hd, hp, hm]
      exact h.sizes
    · rw [hf, hm]
  have hgrowing : ∀ r y, (onLayers luksId).step (.output c) x r y → Growing grown y := by
    intro r y hs
    by_cases hout : ∃ out, r = .ok out ∧ out.status.success = true
    · obtain ⟨out, rfl, hout⟩ := hout
      exact (hafter out y hout hs).growing
    · refine ⟨fun hfilled => ?_, hspared r y hs⟩
      rw [(ran_step hs).1, filled_concat] at hfilled
      refine absurd (hfilled.resolve_left h.unfilled) fun hfills => hout ?_
      rcases r with e | out
      · rcases hc with ⟨dir, rfl⟩ | rfl <;> exact hfills.elim
      · rcases hc with ⟨dir, rfl⟩ | rfl <;> exact ⟨out, rfl, hfills⟩
  refine wpOk_mono (runOk_layers h.growing hgrowing) ?_
  rintro _ y - ⟨out, -, hout, hs⟩
  exact hafter out y hout hs

theorem unlockBtrfs_heals (h : Before grown Layers.Grown x) :
    wpOk (onLayers luksId) (Growing grown) (unlockBtrfs cfg luksId) (fun _ => After grown) x := by
  unfold unlockBtrfs
  refine before_seq (Prog.only_perform trivial) h fun r x₁ h₁ => ?_
  refine before_seq (question_only r) h₁ fun _ x₂ h₂ => ?_
  refine before_seq (runOk_only cfg trivial) h₂ fun _ x₃ h₃ => ?_
  refine wpOk_seq (fill_spec (Or.inl ⟨_, rfl⟩) h₃) fun _ x₄ _ h₄ => ?_
  have hshow : (subvolExists .newVarFs .var).Only Still := by
    refine Prog.only_bind (Prog.only_perform trivial) fun r => ?_
    cases r <;> trivial
  refine after_seq hshow h₄ fun found x₅ h₅ => ?_
  split
  · exact after_still (Prog.only_bind (runOk_only cfg trivial) fun _ => trivial) h₅
  · refine after_seq (askConfirm_still _) h₅ fun yes x₆ h₆ => ?_
    split
    · refine after_seq (runOk_only cfg trivial) h₆ fun _ x₇ h₇ => ?_
      exact after_still (Prog.only_bind (runOk_only cfg trivial) fun _ => trivial) h₇
    · refine after_seq (runOk_only cfg trivial) h₆ fun _ x₇ h₇ => ?_
      exact after_seq (blockForever_still _) h₇ nofun

theorem unlockEmpty_heals (h : Before grown Layers.Grown x) :
    wpOk (onLayers luksId) (Growing grown) (unlockEmpty cfg luksId) (fun _ => After grown) x := by
  unfold unlockEmpty
  refine before_seq (askConfirm_still _) h fun yes x₁ h₁ => ?_
  split
  · refine before_seq (state_still _ _) h₁ fun _ x₂ h₂ => ?_
    refine wpOk_seq (fill_spec (Or.inr rfl) h₂) fun _ x₃ _ h₃ => ?_
    exact after_seq settle_still h₃ fun _ x₄ h₄ => after_still (createVarSubvol_still cfg) h₄
  · exact before_seq (blockForever_still _) h₁ nofun

theorem checkContent_heals (h : Before grown Layers.Grown x) :
    wpOk (onLayers luksId) (Growing grown) (checkContent cfg luksId) (fun _ => After grown) x := by
  unfold checkContent
  refine before_seq (Prog.only_perform trivial) h fun r x₁ h₁ => ?_
  cases mapperFs r with
  | btrfs => exact unlockBtrfs_heals h₁
  | empty => exact unlockEmpty_heals h₁
  | other fstype => exact before_seq (blockForever_still _) h₁ nofun
  | unknown => exact before_seq (blockForever_still _) h₁ nofun

/-- One unlock, from any sizes: it heals, and it spares a volume that was grown. -/
theorem unlock_heals {g : Layers} (h : Before g.Grown (· = g) x) :
    wpOk (onLayers luksId) (Growing g.Grown) (unlock cfg luksId) (fun _ => After g.Grown) x := by
  unfold unlock
  refine wpOk_seq (maybeGrowPartition_spec h) ?_
  rintro grew x₁ - ⟨hgrew, h₁⟩
  refine wpOk_seq (openVolume_grows h₁) fun pw x₂ _ h₂ => ?_
  refine before_seq settle_still h₂ fun _ x₃ h₃ => ?_
  have hrest : ∀ {y : Setting}, Before g.Grown Layers.Grown y →
      wpOk (onLayers luksId) (Growing g.Grown)
        ((checkContent cfg luksId).bind fun _ => Ui.state "unlock" "unlocked; boot continuing")
        (fun _ => After g.Grown) y := by
    intro y hy
    exact wpOk_seq (checkContent_heals hy) fun _ _ _ hz => after_still (state_still _ _) hz
  obtain ⟨hdisk, hkept⟩ := h₃.sizes
  have h₃' : Before g.Grown (· = x₃.2) x₃ := ⟨rfl, h₃.unfilled, h₃.spared⟩
  refine wpOk_seq (needsResize_spec h₃') ?_
  rintro needs x₄ - ⟨hno, hyes, h₄⟩
  cases needs with
  | false => exact hrest (h₄.mono fun _ he => he ▸ ⟨hdisk, hno rfl⟩)
  | true =>
    have hnot : ¬ g.Grown := by
      intro hg
      obtain ⟨hpart, hmapping⟩ := hkept hg
      have hslack := hg.2
      rcases hyes rfl with h | h
      · rw [hgrew hg] at h
        cases h
      · omega
    refine before_seq (state_still _ _) h₄ fun _ x₅ h₅ => ?_
    refine wpOk_seq (luksResize_spec hnot hdisk h₅) fun _ x₆ _ h₆ => ?_
    exact before_seq settle_still h₆ fun _ x₇ h₇ => hrest h₇

end Unlock

/-! ## Histories -/

/-- What happens to a volume: an unlock with this history, which ended as given or was cut, or
an enlargement of the disk. -/
inductive GrowthAct where
  | attempt (es : List Event) (o : Option (Except Error Unit))
  | enlarge

def growthStep (cfg : Cfg) (luksId : String) (g : Layers) (a : GrowthAct) (g' : Layers) : Prop :=
  match a with
  | .attempt es o => ∃ w w', Run (onLayers luksId) (unlock cfg luksId) ((w, []), g) o ((w', es), g')
  | .enlarge => g.disk ≤ g'.disk ∧ g'.partition = g.partition ∧ g'.mapping = g.mapping ∧
      g'.filesystem = g.filesystem

/-- Whatever happened before, an unlock that fills the filesystem, which every one does that
ends well, leaves a volume that is grown in every layer, and one that finds the volume grown
leaves the partition table and the mapping alone. -/
theorem growth_heals (cfg : Cfg) (luksId : String) {g₀ g g' : Layers} {l : List (Layers × GrowthAct)}
    {es : List Event} {o : Option (Except Error Unit)}
    (history : Foundrix.Machine.Trace (growthStep cfg luksId) g₀ (l ++ [(g, .attempt es o)]) g') :
    (Filled es → g'.Healed) ∧ (o = some (.ok ()) → g'.Healed) ∧ (g.Grown → Spared es) := by
  obtain ⟨-, w, w', run⟩ := history.of_concat
  have hstart : Before g.Grown (· = g) ((w, []), g) := by
    refine ⟨rfl, ?_, fun _ => ?_⟩
    · simp [Filled]
    · simp [Spared]
  have hspec : wpOk (onLayers luksId) (Growing g.Grown) (unlock cfg luksId)
      (fun _ => After g.Grown) ((w, []), g) := unlock_heals hstart
  have hgrowing := hspec.1 _ run.toCut
  refine ⟨hgrowing.healed, ?_, hgrowing.spared⟩
  rintro rfl
  exact (hspec.2 _ _ run () rfl).healed

/-! ## A simulated volume -/

/-- The sizes after a command that does what it is there for. -/
def Layers.after (g : Layers) (luksId : String) : Cmd → Layers
  | .sgdiskRegrow d =>
    if d = .disk luksId then
      { g with partition := g.disk, partition_le := Nat.le_refl _,
               mapping_le := Nat.le_trans g.mapping_le g.partition_le }
    else g
  | .luksResize =>
    { g with mapping := g.partition, mapping_le := Nat.le_refl _,
             filesystem_le := fun n hn => Nat.le_trans (g.filesystem_le n hn) g.mapping_le }
  | .resizeMax _ =>
    { g with filesystem := some g.mapping,
             filesystem_le := fun _ hn => Nat.le_of_eq (Option.some.inj hn).symm }
  | _ => g

def sizedScript (luksId : String) (g : Layers) : Script where
  volumes := []
  output c _ :=
    match c with
    | .blkid _ _ => printed "btrfs"
    | .blockdev d => printed s!"{(g.size luksId d).getD 0}"
    | _ => printed ""
  present _ _ := true
  answer _ := "correct horse"

/-- The commands that the simulation answers: `blockdev` where the number that it prints is
read back, and no `mkfs`. -/
def Simulated (luksId : String) (g : Layers) : Cmd → Prop
  | .blockdev d => parseU64 (trim s!"{(g.size luksId d).getD 0}") = .ok ((g.size luksId d).getD 0)
  | .mkfs _ => False
  | _ => True

instance (luksId : String) (g : Layers) (c : Cmd) : Decidable (Simulated luksId g c) :=
  match c with
  | .blockdev d => inferInstanceAs (Decidable (parseU64 _ = .ok ((g.size luksId d).getD 0)))
  | .mkfs _ => instDecidableFalse
  | .blkid _ _ | .lsblk _ | .sgdiskExpand _ | .sgdiskRegrow _ | .sgdiskZap _ | .sgdiskNew _ |
    .luksFormat _ | .luksOpen _ _ | .luksResize | .luksClose | .mount _ _ | .umount _ |
    .setLabel _ | .resizeMax _ | .usage _ | .subvolShow _ _ | .subvolCreate _ _ |
    .subvolSnapshot _ _ _ _ _ | .subvolDelete _ _ | .send _ _ | .receive _ | .sync | .settle |
    .trigger _ => instDecidableTrue

/-- The command of an operation. -/
def Op.command : {β : Type} → Op β → Option Cmd
  | _, .output c | _, .feed c _ => some c
  | _, _ => none

def layersOracle (luksId : String) : Oracle Op Setting where
  answer e x :=
    let r := reply (sizedScript luksId x.2) e x.1.1 x.1.2
    let w := (r.2, x.1.2 ++ (record e x.1.1 r.1).toList)
    match e.command with
    | none => some (r.1, w, x.2)
    | some c => if Simulated luksId x.2 c then some (r.1, w, x.2.after luksId c) else none

theorem after_resizes {luksId : String} {g : Layers} {c : Cmd} (hc : Simulated luksId g c) :
    Resizes luksId g (g.after luksId c) c := by
  cases c with
  | sgdiskRegrow d =>
    rintro rfl
    rw [Layers.after, if_pos rfl]
    exact ⟨rfl, Nat.lt_add_of_pos_right (by decide), rfl, rfl⟩
  | luksOpen persistent d => exact fun _ => ⟨rfl, rfl, Nat.le_refl _, rfl⟩
  | luksResize => exact ⟨rfl, rfl, Nat.lt_add_of_pos_right (by decide), rfl⟩
  | resizeMax dir => exact ⟨rfl, rfl, rfl, rfl⟩
  | mkfs d => exact hc.elim
  | sgdiskZap => trivial
  | sgdiskNew => trivial
  | luksFormat => trivial
  | _ => rfl

theorem simulated_sizes {luksId : String} {g : Layers} {c : Cmd} {es : List Event}
    (hc : Simulated luksId g c) :
    SizesAfter luksId c g (g.after luksId c) (.ok ((sizedScript luksId g).output c es)) := by
  have hsuccess : ((sizedScript luksId g).output c es).status.success = true := by
    cases c <;> rfl
  rw [SizesAfter, if_pos hsuccess]
  refine ⟨?_, after_resizes hc⟩
  cases c with
  | blockdev d =>
    intro n hn
    have hread : parseU64 (trim s!"{(g.size luksId d).getD 0}") = .ok ((g.size luksId d).getD 0) := hc
    rw [hn] at hread
    show parseU64 (trim s!"{(g.size luksId d).getD 0}") = _
    rw [hn]
    exact hread
  | _ => trivial

/-- A simulated run is one of the runs. -/
theorem layers_run (luksId : String) {α : Type} (n : Nat) (p : Daemon α) (x : Setting) :
    Run (onLayers luksId) p x (p.exec (layersOracle luksId) n x).1
      (p.exec (layersOracle luksId) n x).2 := by
  apply exec_run
  intro β e x b y h
  have hobserved : ∀ {g : Layers}, (b, y) = ((reply (sizedScript luksId x.2) e x.1.1 x.1.2).1,
      ((reply (sizedScript luksId x.2) e x.1.1 x.1.2).2, x.1.2 ++
        (record e x.1.1 (reply (sizedScript luksId x.2) e x.1.1 x.1.2).1).toList), g) →
      observed.step e x.1 b y.1 ∧ y.2 = g := by
    intro g he
    obtain ⟨rfl, rfl⟩ := Prod.mk.inj he
    exact ⟨scripted_sound (sizedScript luksId x.2) e x.1 _ _ rfl, rfl⟩
  cases hcommand : e.command with
  | none =>
    simp only [layersOracle, hcommand] at h
    obtain ⟨hstep, hg⟩ := hobserved (Option.some.inj h).symm
    refine ⟨hstep, ?_⟩
    cases e with
    | output c => cases hcommand
    | feed c secret => cases hcommand
    | _ => exact hg
  | some c =>
    simp only [layersOracle, hcommand] at h
    split at h
    · rename_i hc
      have hstep := hobserved (Option.some.inj h).symm
      obtain ⟨rfl, -⟩ := Prod.mk.inj (Option.some.inj h)
      refine ⟨hstep.1, ?_⟩
      rw [hstep.2]
      cases e with
      | output c =>
        obtain rfl := Option.some.inj hcommand
        exact simulated_sizes hc
      | feed c secret =>
        obtain rfl := Option.some.inj hcommand
        exact simulated_sizes hc
      | _ => cases hcommand
    · cases h

/-- A volume of 10 GiB that is grown and was enlarged to 20 GiB. -/
def enlarged : Layers where
  disk := 20 * 2 ^ 30
  partition := 10 * 2 ^ 30
  mapping := 10 * 2 ^ 30
  filesystem := some (10 * 2 ^ 30)
  partition_le := by decide
  mapping_le := by decide
  filesystem_le := by decide
  disk_lt := by decide

def grownDisk : String := "scsi-0HC_Volume_1"

def simulatedUnlock (n : Nat) (g : Layers) : Option (Except Error Unit) × Setting :=
  (unlock sampleCfg grownDisk).exec (layersOracle grownDisk) n (({}, []), g)

theorem simulatedUnlock_step (n : Nat) (g : Layers) :
    growthStep sampleCfg grownDisk g
      (.attempt (simulatedUnlock n g).2.1.2 (simulatedUnlock n g).1) (simulatedUnlock n g).2.2 :=
  ⟨{}, (simulatedUnlock n g).2.1.1, layers_run grownDisk n _ _⟩

/-- An unlock that is cut once it has grown the partition, and the next one. -/
theorem growth_heals_sample :
    ¬ (simulatedUnlock 6 enlarged).2.2.Grown ∧
      (simulatedUnlock 40 (simulatedUnlock 6 enlarged).2.2).2.2.Healed := by
  constructor
  · unfold Layers.Grown
    decide +kernel
  · have hcut := simulatedUnlock_step 6 enlarged
    have hnext := simulatedUnlock_step 40 (simulatedUnlock 6 enlarged).2.2
    have hended : (simulatedUnlock 40 (simulatedUnlock 6 enlarged).2.2).1 = some (.ok ()) := by
      decide +kernel
    have history := Foundrix.Machine.Trace.concat (.cons hcut (.nil _)) hnext
    exact (growth_heals sampleCfg grownDisk history).2.1 hended

end Foundrix.VarDisk

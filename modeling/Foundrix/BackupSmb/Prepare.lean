import Foundrix.BackupSmb.Image

/-!
# The image through the stages of the script

What every stage of `prepareImage` leaves, wherever it is cut and whichever command fails.

* `Within`: the filesystem ends within the image file.
* `growImage_spec`, `shrinkImage_spec`, `createImage_spec`: the three ways to a new size.
* `prepareImage_spec`: the whole script.
* `filesystem_within_image`: the image through any runs.
-/

namespace Foundrix.BackupSmb

open Effect Machine

variable {fromIec : String → Option Nat} {w : Share × List Line} {target current free : Nat}

/-- The image file is at least as large as the filesystem in it. -/
def Within (w : Share) : Prop :=
  ∀ i fs, w.image = some i → i.filesystem = some fs → fs ≤ i.size

/-- The image has this size, and so has its filesystem. -/
def Healed (target : Nat) (w : Share) : Prop := w.image = some ⟨target, some target⟩

/-- The image has the size that is wanted, or it is as it was and a line reports that it keeps
its size. -/
def Resized (target : Nat) (image : Option Image) (w : Share × List Line) : Prop :=
  ((∃ l ∈ w.2, l.keepsSize = true) ∧ w.1.image = image) ∨ Healed target w.1

/-- The handler of the runs: the share, with a log of what is printed. -/
abbrev console (fromIec : String → Option Nat) : Handler Op (Share × List Line) :=
  (shell fromIec).logged printed

/-- The same, beside what was printed. -/
abbrev Kept (w : Share × List Line) : Prop := Within w.1

theorem within_of_image {w w' : Share} (h : Within w) (himage : w'.image = w.image) :
    Within w' := by
  intro i fs hi
  rw [himage] at hi
  exact h i fs hi

theorem within_of_le {w : Share} {size fs : Nat} (hw : w.image = some ⟨size, some fs⟩)
    (hle : fs ≤ size) : Within w := by
  intro i fs' hi hfs
  obtain rfl := Option.some.inj (hw.symm.trans hi)
  obtain rfl := Option.some.inj hfs
  exact hle

theorem within_of_blank {w : Share} {size : Nat} (hw : w.image = some ⟨size, none⟩) :
    Within w := by
  intro i fs hi hfs
  obtain rfl := Option.some.inj (hw.symm.trans hi)
  cases hfs

/-! ## Single commands -/

section Commands

variable {β γ : Type} {f : β → Prog Op Unit γ} {Q : γ → Share × List Line → Prop}

theorem sh_spec {c : Cmd} {R : Share → Prop} (hI : Kept w)
    (hdone : ∀ x, Done c w.1 x → Within x ∧ R x) :
    wpOk (console fromIec) Kept (sh c) (fun _ w' => R w'.1 ∧ w'.2 = w.2) w := by
  apply must_spec hI
  · intro w' hs
    obtain ⟨hw, hR⟩ := hdone w'.1 hs.1
    exact ⟨hw, hR, by simpa [printed] using hs.2⟩
  · intro w' hs
    obtain ⟨hsame, -⟩ := hs
    exact within_of_image hI (congrArg Share.image hsame)

/-- A command and what follows it. -/
theorem wpOk_sh {c : Cmd} {f : Unit → Prog Op Unit γ} {R : Share → Prop} (hI : Kept w)
    (hdone : ∀ x, Done c w.1 x → Within x ∧ R x)
    (hf : ∀ x, Kept (x, w.2) → R x → wpOk (console fromIec) Kept (f ()) Q (x, w.2)) :
    wpOk (console fromIec) Kept ((sh c).bind f) Q w := by
  apply wpOk_seq (sh_spec hI hdone)
  rintro - ⟨x, lines⟩ hx ⟨hR, hlines⟩
  obtain rfl : lines = w.2 := hlines
  exact hf x hx hR

theorem wpOk_echo {l : Line} {f : Unit → Prog Op Unit γ} (hI : Kept w)
    (hf : Kept (w.1, w.2 ++ [l]) → wpOk (console fromIec) Kept (f ()) Q (w.1, w.2 ++ [l])) :
    wpOk (console fromIec) Kept ((Prog.perform (.echo l)).bind f) Q w := by
  apply wpOk_step hI
  rintro ⟨⟩ ⟨x, lines⟩ ⟨hx, hlines⟩
  obtain rfl : x = w.1 := hx
  obtain rfl : lines = w.2 ++ [l] := hlines
  exact hf hI

/-- A line that reports that the image keeps its size. -/
theorem echo_spec {l : Line} (hI : Kept w) (hkeeps : l.keepsSize = true) :
    wpOk (console fromIec) Kept (.perform (.echo l) : Prog Op Unit Unit)
      (fun _ w' => Resized target w.1.image w') w := by
  apply wp_perform (I := Kept) hI
  rintro ⟨⟩ w' ⟨hx, hlines⟩
  have himage : w'.1.image = w.1.image := congrArg Share.image hx
  refine ⟨within_of_image hI himage, fun _ _ => Or.inl ⟨⟨l, ?_, hkeeps⟩, himage⟩⟩
  rw [hlines]
  exact List.mem_append_right _ List.mem_cons_self

/-- A question to the share, which changes nothing. -/
theorem wpOk_ask {e : Op β} (hI : Kept w)
    (hask : ∀ b w', (console fromIec).step e w b w' → w' = w)
    (hf : ∀ b, (shell fromIec).step e w.1 b w.1 → wpOk (console fromIec) Kept (f b) Q w) :
    wpOk (console fromIec) Kept ((Prog.perform e).bind f) Q w := by
  apply wpOk_step hI
  intro b w' hs
  obtain rfl := hask b w' hs
  exact hf b hs.1

theorem test_asks {t : Test} {b : Bool} {w' : Share × List Line}
    (hs : (console fromIec).step (.test t) w b w') : w' = w := by
  obtain ⟨⟨-, hx⟩, hlines⟩ := hs
  exact Prod.ext hx (by simpa [printed] using hlines)

/-- Where a substitution is read, its output is what the share shows. -/
theorem wpOk_read {e : Op (Option Nat)} {f : Nat → Prog Op Unit γ} (hI : Kept w)
    (hask : ∀ b w', (console fromIec).step e w b w' → w' = w)
    (hf : ∀ n, (shell fromIec).step e w.1 (some n) w.1 →
      wpOk (console fromIec) Kept (f n) Q w) :
    wpOk (console fromIec) Kept ((read e).bind f) Q w := by
  have hread : wpOk (console fromIec) Kept (read e)
      (fun n w' => w' = w ∧ (shell fromIec).step e w.1 (some n) w.1) w := by
    apply wpOk_ask hI hask
    intro b hb
    cases b with
    | none => exact wpOk_fail hI
    | some n => exact wpOk_pure hI ⟨rfl, hb⟩
  apply wpOk_seq hread
  rintro n w' - ⟨rfl, hn⟩
  exact hf n hn

end Commands

/-! ## The three ways to a new size -/

theorem createImage_spec (hnone : w.1.image = none) :
    wpOk (console fromIec) Kept (createImage target free)
      (fun _ w' => Resized target w.1.image w') w := by
  have hI : Kept w := by
    intro i fs hi
    rw [hnone] at hi
    cases hi
  rw [createImage]
  split
  · apply wpOk_echo hI
    exact wpOk_fail
  · apply wpOk_echo hI
    intro hI
    apply wpOk_sh (c := .truncate target) (R := fun x => x.image = some ⟨target, none⟩) hI
    · rintro x rfl
      have himage : (some ⟨target, w.1.image.bind Image.filesystem⟩ : Option Image) =
          some ⟨target, none⟩ := by rw [hnone]; rfl
      exact ⟨within_of_blank himage, himage⟩
    · intro x hx himage
      refine wpOk_mono (sh_spec (R := Healed target) hx ?_) fun _ w' _ h => Or.inr h.1
      rintro y ⟨i, hi, rfl⟩
      obtain rfl := Option.some.inj (himage.symm.trans hi)
      exact ⟨within_of_le rfl (Nat.le_refl _), rfl⟩

/-- What is mounted is the whole image file. -/
def Attached (size : Nat) (w : Share) : Prop :=
  (∃ fs, w.image = some ⟨size, some fs⟩) ∧ w.attached = some size

theorem mount_done {size : Nat} {x y : Share} (hx : Within x)
    (hsize : ∀ i, x.image = some i → i.size = size) (h : Done .mount x y) :
    Within y ∧ Attached size y := by
  obtain ⟨i, fs, hi, hfs, -, rfl⟩ := h
  refine ⟨within_of_image hx rfl, ⟨fs, ?_⟩, ?_⟩
  · obtain rfl := hsize i hi
    rw [hi, ← hfs]
  · rw [hsize i hi]

theorem growImage_spec (hI : Kept w) (hsize : ∀ i, w.1.image = some i → i.size = current)
    (hlt : current < target) :
    wpOk (console fromIec) Kept (growImage current target free)
      (fun _ w' => Resized target w.1.image w') w := by
  rw [growImage]
  split
  · exact echo_spec hI rfl
  · apply wpOk_echo hI
    intro hI
    -- the file grows before the filesystem
    apply wpOk_sh (c := .truncate target) (R := fun x => ∀ i, x.image = some i → i.size = target) hI
    · rintro x rfl
      constructor
      · intro i fs hi hfs
        obtain rfl := Option.some.inj hi
        obtain ⟨j, hj, hjfs⟩ := Option.bind_eq_some_iff.mp hfs
        have hle := hI j fs hj hjfs
        have hj' := hsize j hj
        show fs ≤ target
        omega
      · intro i hi
        obtain rfl := Option.some.inj hi
        rfl
    intro x hx hxsize
    apply wpOk_sh (c := .mount) (R := Attached target) hx fun y => mount_done hx hxsize
    intro y hy hattached
    apply wpOk_sh (c := .resizeMax) (R := Healed target) hy
    · rintro z ⟨i, fs, device, hi, -, hdevice, rfl⟩
      obtain ⟨⟨fs', himage⟩, hsize'⟩ := hattached
      obtain rfl := Option.some.inj (himage.symm.trans hi)
      obtain rfl := Option.some.inj (hsize'.symm.trans hdevice)
      exact ⟨within_of_le rfl (Nat.le_refl _), rfl⟩
    · intro z hz hhealed
      refine wpOk_mono (sh_spec (R := Healed target) hz ?_) fun _ w' _ h => Or.inr h.1
      rintro v ⟨-, rfl⟩
      exact ⟨within_of_image hz rfl, hhealed⟩

theorem shrinkImage_spec (hI : Kept w)
    (hsize : ∀ i, w.1.image = some i → i.size = current) :
    wpOk (console fromIec) Kept (shrinkImage current target)
      (fun _ w' => Resized target w.1.image w') w := by
  rw [shrinkImage]
  apply wpOk_echo hI
  intro hI
  apply wpOk_sh (c := .mount) (R := fun y => Attached current y ∧ y.image = w.1.image) hI
  · intro y hy
    obtain ⟨hwithin, hattached⟩ := mount_done hI hsize hy
    obtain ⟨i, fs, -, -, -, rfl⟩ := hy
    exact ⟨hwithin, hattached, rfl⟩
  rintro x hx ⟨⟨⟨fs, himage⟩, hdevice⟩, hkept⟩
  apply wpOk_step hx
  rintro (- | -) ⟨y, lines⟩ ⟨hs, hlines⟩
  · obtain rfl : y = x := hs
    apply wpOk_echo (w := (y, lines)) hx
    intro hx
    refine wpOk_mono (sh_spec (R := fun z => z.image = w.1.image) hx ?_) fun _ w' _ h => ?_
    · rintro z ⟨-, rfl⟩
      exact ⟨within_of_image hx rfl, hkept⟩
    · refine Or.inl ⟨⟨.cannotShrink, ?_, rfl⟩, h.1⟩
      rw [h.2]
      exact List.mem_append_right _ List.mem_cons_self
  · -- the filesystem gives the space back before the file does
    obtain ⟨i, fs', device, hi, -, hd, hle, rfl⟩ := hs
    obtain rfl := Option.some.inj (himage.symm.trans hi)
    obtain rfl := Option.some.inj (hdevice.symm.trans hd)
    have hy : Within { x with image := some ⟨current, some target⟩ } := within_of_le rfl hle
    apply wpOk_sh (c := .umount) (R := fun z => z.image = some ⟨current, some target⟩) hy
    · rintro z ⟨-, rfl⟩
      exact ⟨within_of_image hy rfl, rfl⟩
    · intro z hz himage'
      refine wpOk_mono (sh_spec (R := Healed target) hz ?_) fun _ w' _ h => Or.inr h.1
      rintro v rfl
      have hhealed : (some ⟨target, z.image.bind Image.filesystem⟩ : Option Image) =
          some ⟨target, some target⟩ := by rw [himage']; rfl
      exact ⟨within_of_le hhealed (Nat.le_refl _), hhealed⟩

/-! ## The whole script -/

theorem umount_kept {b : Bool} {w' : Share × List Line}
    (hs : (console fromIec).step (.run .umount) w b w') :
    w'.1.image = w.1.image ∧ w'.2 = w.2 := by
  obtain ⟨hx, hlines⟩ := hs
  refine ⟨?_, by simpa [printed] using hlines⟩
  cases b with
  | true =>
    obtain ⟨-, hx⟩ := hx
    rw [hx]
  | false => rw [show w'.1 = w.1 from hx]

theorem trapped_spec {p : Prog Op Unit Unit} {image : Option Image}
    (hp : wpOk (console fromIec) Kept p (fun _ w' => Resized target image w') w) :
    wpOk (console fromIec) Kept (trapped p) (fun _ w' => Resized target image w') w := by
  apply wpOk_seq (wpOk_attempt hp)
  intro r w₁ hI hr
  apply wpOk_step hI
  intro b w₂ hs
  obtain ⟨himage, hlines⟩ := umount_kept hs
  apply wp_orFail (I := Kept) (within_of_image hI himage)
  rintro ⟨⟩ hok
  have hresized := hr () hok
  unfold Resized Healed at hresized ⊢
  rwa [himage, hlines]

theorem matchSize_spec (hI : Kept w) (hsize : ∀ i, w.1.image = some i → i.size = current) :
    wpOk (console fromIec) Kept (matchSize current target free)
      (fun _ w' => Resized target w.1.image w') w := by
  apply wpOk_sh (c := .mkdirResize) (R := fun x => x = w.1) hI
  · rintro x rfl
    exact ⟨hI, rfl⟩
  · rintro x - rfl
    apply trapped_spec
    split
    · exact growImage_spec hI hsize ‹_›
    · exact shrinkImage_spec hI hsize

/-- The image has the size that is wanted already, and nothing is done to it. -/
def Exact (target : Nat) (w w' : Share) : Prop :=
  ∃ i, w.image = some i ∧ i.size = target ∧ w'.image = w.image

/-- The script keeps the image behind its file, and where it ends with success, it has left
an image of the wanted size alone, or resized one of another size. -/
theorem prepareImage_spec (cfg : Config) (hI : Kept w) :
    wpOk (console fromIec) Kept (prepareImage cfg) (fun _ w' => ∃ target,
      fromIec cfg.imageSize = some target ∧ (Exact target w.1 w'.1 ∨
        (∀ i, w.1.image = some i → i.size ≠ target) ∧ Resized target w.1.image w')) w := by
  apply wpOk_read hI
  · rintro b w' ⟨⟨-, hx⟩, hlines⟩
    exact Prod.ext hx (by simpa [printed] using hlines)
  intro target htarget
  have hiec : fromIec cfg.imageSize = some target := by
    obtain ⟨h | h, -⟩ := htarget
    · cases h
    · exact h.symm
  apply wpOk_ask hI fun b w' => test_asks
  rintro (- | -) -
  · apply wpOk_echo hI
    exact wpOk_fail
  have hquestion : wpOk (console fromIec) Kept readOnly (fun _ w' => w' = w) w := by
    apply wpOk_ask hI fun b w' => test_asks
    rintro (- | -) -
    · exact wpOk_pure hI rfl
    · apply wpOk_ask hI fun b w' => test_asks
      intro b _
      exact wpOk_pure hI rfl
  apply wpOk_seq hquestion
  rintro (- | -) w' - rfl
  swap
  · apply wpOk_echo hI
    exact wpOk_fail
  apply wpOk_read hI
  · rintro b w₂ ⟨hx, hlines⟩
    exact Prod.ext hx (by simpa [printed] using hlines)
  intro free _
  apply wpOk_ask hI fun b w' => test_asks
  rintro (- | -) ⟨htells, -⟩
  · have hnone : w'.1.image = none := by
      rw [← Option.isNone_iff_eq_none, ← Option.isSome_eq_false_iff]
      exact htells.symm
    refine wpOk_mono (createImage_spec hnone) fun _ w₂ _ h => ⟨target, hiec, Or.inr ⟨?_, h⟩⟩
    intro i hi
    rw [hnone] at hi
    cases hi
  apply wpOk_read hI
  · rintro b w₂ ⟨⟨-, hx⟩, hlines⟩
    exact Prod.ext hx (by simpa [printed] using hlines)
  rintro current ⟨hcurrent, -⟩
  obtain ⟨i, hi, rfl⟩ := hcurrent current rfl
  split
  · exact wpOk_pure hI ⟨target, hiec, Or.inl ⟨i, hi, ‹_›, rfl⟩⟩
  · have hsize : ∀ j, w'.1.image = some j → j.size = i.size := by
      intro j hj
      obtain rfl := Option.some.inj (hi.symm.trans hj)
      rfl
    refine wpOk_mono (matchSize_spec hI hsize) fun _ w₂ _ h => ⟨target, hiec, Or.inr ⟨?_, h⟩⟩
    intro j hj
    rw [hsize j hj]
    assumption

/-! ## Runs one after the other -/

theorem step_within {w w' : Share} {a : Act} (h : Within w) (hs : step fromIec w a w') :
    Within w' := by
  cases a with
  | run r => exact (prepareImage_spec (w := (w, [])) r.cfg h).1 _ (Run.toCut hs)
  | restart =>
    obtain rfl := hs
    exact within_of_image h rfl

theorem trace_within {l : List (Share × Act)} {w : Share}
    (h : Trace (step fromIec) empty l w) : Within w := by
  have hempty : Within empty := nofun
  exact h.keeps hempty fun _ => step_within

/-- Whatever sizes are configured one after the other, and wherever the runs are cut, the
image file is never smaller than the filesystem in it. -/
theorem filesystem_within_image (fromIec : String → Option Nat) {l : List (Share × Act)}
    {w : Share} (h : Trace (step fromIec) empty l w) :
    ∀ u ∈ visited l w, Within u := by
  have hempty : Within empty := nofun
  exact h.keeps_visited hempty fun _ => step_within

/-! The image is created, a run that makes it larger is cut, and after a restart the next one makes
it as small as before. -/

section Sample

def sampleIec (size : String) : Option Nat :=
  if size = "1G" then some 1073741824 else if size = "2G" then some 2147483648 else none

def sampleConfig (imageSize : String) : Config where
  imageSize := imageSize

/-- A command does what it can. -/
def Cmd.perform (w : Share) : Cmd → Option Share
  | .mkdirResize => some w
  | .truncate size => some { w with image := some ⟨size, w.image.bind Image.filesystem⟩ }
  | .mkfs => w.image.map fun i => { w with image := some ⟨i.size, some i.size⟩ }
  | .mount =>
    match w with
    | ⟨some ⟨size, some fs⟩, none⟩ => some ⟨some ⟨size, some fs⟩, some size⟩
    | _ => none
  | .umount => w.attached.map fun _ => { w with attached := none }
  | .resizeMax =>
    match w with
    | ⟨some ⟨size, some _⟩, some device⟩ => some ⟨some ⟨size, some device⟩, some device⟩
    | _ => none
  | .resize target =>
    match w with
    | ⟨some ⟨size, some _⟩, some device⟩ =>
      if target ≤ device then some ⟨some ⟨size, some target⟩, some device⟩ else none
    | _ => none

theorem perform_done {c : Cmd} {w w' : Share} (h : c.perform w = some w') : Done c w w' := by
  cases c with
  | mkdirResize | truncate =>
    cases h
    rfl
  | mkfs =>
    obtain ⟨i, hi, rfl⟩ := Option.map_eq_some_iff.mp h
    exact ⟨i, hi, rfl⟩
  | mount =>
    obtain ⟨_ | ⟨size, _ | fs⟩, _ | device⟩ := w <;> cases h
    exact ⟨_, fs, rfl, rfl, rfl, rfl⟩
  | umount =>
    obtain ⟨device, hdevice, rfl⟩ := Option.map_eq_some_iff.mp h
    exact ⟨by rw [hdevice]; simp, rfl⟩
  | resizeMax =>
    obtain ⟨_ | ⟨size, _ | fs⟩, _ | device⟩ := w <;> cases h
    exact ⟨_, fs, device, rfl, rfl, rfl, rfl⟩
  | resize target =>
    obtain ⟨_ | ⟨size, _ | fs⟩, _ | device⟩ := w
    case resize.some.some.some =>
      obtain ⟨hle, he⟩ := Option.ite_none_right_eq_some.mp h
      cases he
      exact ⟨_, fs, device, rfl, rfl, rfl, hle, rfl⟩
    all_goals cases h

/-- A share with enough room. -/
def sampleOracle : Oracle Op (Share × List Line) where
  answer e w := match e with
    | .numfmt size => some (sampleIec size, w)
    | .test .shareWritable => some (true, w)
    | .test .imageWritable => some (true, w)
    | .test .imageExists => some (w.1.image.isSome, w)
    | .test .imageIsFile => some (w.1.image.isSome, w)
    | .freeBytes => some (some 10737418240, w)
    | .currentBytes => some (w.1.image.map Image.size, w)
    | .run c =>
      match c.perform w.1 with
      | some w' => some (true, w', w.2)
      | none => some (false, w)
    | .echo l => some ((), w.1, w.2 ++ [l])

theorem sampleOracle_answers {β : Type} (e : Op β) (w : Share × List Line) (b : β)
    (w' : Share × List Line) (h : sampleOracle.answer e w = some (b, w')) :
    (console sampleIec).step e w b w' := by
  cases e with
  | numfmt | freeBytes | echo =>
    cases h
    simp [console, Handler.logged, shell, printed]
  | test t =>
    cases t <;> cases h <;> simp [console, Handler.logged, shell, printed, Tells]
  | currentBytes =>
    cases h
    simp [console, Handler.logged, shell, printed, Option.map_eq_some_iff]
  | run c =>
    simp only [sampleOracle] at h
    split at h
    · rename_i v hv
      cases h
      simpa [console, Handler.logged, shell, printed] using perform_done hv
    · cases h
      simp [console, Handler.logged, shell, printed]

/-- A run with a bound on the number of its commands. -/
def sampleRun (imageSize : String) (commands : Nat) (w : Share) :
    Option (Except Unit Unit) × (Share × List Line) :=
  (prepareImage (sampleConfig imageSize)).exec sampleOracle commands (w, [])

def samplePrepared (imageSize : String) (commands : Nat) (w : Share) : Prepared :=
  ⟨sampleConfig imageSize, (sampleRun imageSize commands w).2.2, (sampleRun imageSize commands w).1⟩

theorem samplePrepared_step (imageSize : String) (commands : Nat) (w : Share) :
    step sampleIec w (.run (samplePrepared imageSize commands w))
      (sampleRun imageSize commands w).2.1 :=
  exec_run sampleOracle_answers commands _ _

/-- The image is there. -/
def created : Share := (sampleRun "1G" 20 empty).2.1

/-- The larger file is mounted, and its filesystem not resized. -/
def halfGrown : Share := (sampleRun "2G" 11 created).2.1

def restarted : Share := { halfGrown with attached := none }

def sampleHistory : List (Share × Act) :=
  [(empty, .run (samplePrepared "1G" 20 empty)), (created, .run (samplePrepared "2G" 11 created)),
    (halfGrown, .restart)]

theorem sampleHistory_trace : Trace (step sampleIec) empty sampleHistory restarted :=
  .cons (samplePrepared_step "1G" 20 empty)
    (.cons (samplePrepared_step "2G" 11 created) (.cons rfl (.nil _)))

theorem filesystem_within_image_sample :
    halfGrown = ⟨some ⟨2147483648, some 1073741824⟩, some 2147483648⟩ ∧ Within halfGrown ∧
    Within (sampleRun "1G" 30 restarted).2.1 := by
  have h := filesystem_within_image sampleIec
    (sampleHistory_trace.concat (samplePrepared_step "1G" 30 restarted))
  exact ⟨by decide, h _ (by simp [visited, sampleHistory]), h _ (Trace.last_mem _ _)⟩

end Sample

end Foundrix.BackupSmb

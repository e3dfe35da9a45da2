import Mathlib.Data.List.Forall2
import Mathlib.Data.List.Induction
import Foundrix.Effect.Wp
import Foundrix.Flasher.App

/-!
# The disk that was shown is the one that is written

The runs of `run` beside the flash threads, for any keys, any lists of disks and any messages
of the threads.

* `Flash`, `Flash.Step`, `machine`: the threads, which go on between the operations of `run`.
* `Seen`, `Shown`: what the operator sees and does, and what stands before a flash.
* `Standing`: how `flash_rx` and the threads belong together.
* `draw_spec`, `whileFlashing_spec`, `onKey_spec`: what a turn of the loop keeps.
* `flashes_shown_disk`: the result.
-/

namespace Foundrix.Flasher

open Effect

/-! ## The flash threads -/

/-- A flash: what it was started with, its messages that were not received yet, and whether
its thread still runs. -/
structure Flash where
  image : String
  disk_path : String
  total : Nat
  unread : List FlashProgress := []
  running : Bool := true
deriving DecidableEq, Repr

def Flash.started (image disk_path : String) (total : Nat) : Flash :=
  { image, disk_path, total }

/-- A running thread reports what it has written, ends with its last message, or dies. -/
inductive Flash.Step : Flash → Flash → Prop
  | write (f : Flash) (hf : f.running) (written total : Nat) :
      Step f { f with unread := f.unread ++ [.writing written total] }
  | finish (f : Flash) (hf : f.running) (last : FlashProgress) (hlast : last.isLast) :
      Step f { f with unread := f.unread ++ [last], running := false }
  | die (f : Flash) (hf : f.running) : Step f { f with running := false }

/-- The flashes that were started, the earliest first. -/
abbrev Flashes := List Flash

/-- Every thread takes any number of steps. -/
def Moves : Flashes → Flashes → Prop := List.Forall₂ (Relation.ReflTransGen Flash.Step)

def Flashes.recv (w : Flashes) (rx : Receiver) : Option FlashProgress × Flashes :=
  match w[rx]? with
  | none => (none, w)
  | some f =>
    match f.unread with
    | [] => (none, w)
    | p :: ps => (some p, w.set rx { f with unread := ps })

/-- The answers to the operations, whatever the terminal and the system say. -/
def answers : {β : Type} → Op β → Flashes → β → Flashes → Prop
  | _, .tryRecv rx, w, b, w' => (b, w') = w.recv rx
  | _, .spawn image disk_path total, w, b, w' =>
    b = w.length ∧ w' = w ++ [Flash.started image disk_path total]
  | _, _, w, _, w' => w' = w

/-- The threads move before each operation. -/
def machine : Handler Op Flashes where
  step e w b w' := ∃ m, Moves w m ∧ answers e m b w'

/-- What the operator sees and does, and the flashes that are started. -/
inductive Seen where
  | drew (view : View)
  | pressed (key : Key)
  | listed (disks : List Disk)
  | flashed (image_path disk_path : String) (total : Nat)

def seen : {β : Type} → Op β → Flashes → β → Option Seen
  | _, .endDraw view, _, b =>
    match b with
    | .ok _ => some (.drew view)
    | .error _ => none
  | _, .read, _, b =>
    match b with
    | .ok (.key key) => some (.pressed key)
    | _ => none
  | _, .discoverDisks, _, b =>
    match b with
    | .ok disks => some (.listed disks)
    | .error _ => none
  | _, .spawn image_path disk_path total, _, _ => some (.flashed image_path disk_path total)
  | _, _, _, _ => none

abbrev watched : Handler Op (Flashes × List Seen) := machine.logged seen

/-- Enter was pressed on a list that was shown with its row `idx` under the cursor, and
since then nothing was drawn but the question about the disk of that row. -/
def Chosen (name : String) (disks : List Disk) (idx : Nat) (disk : Disk)
    (asked log : List Seen) : Prop :=
  disks[idx]? = some disk ∧
    (∃ earlier enter, enter.code = .enter ∧
      log = earlier ++ .drew (.select name disks (some idx)) :: .pressed enter :: asked) ∧
    ∀ e ∈ asked, e = .drew (.confirm name disk)

/-- A flash is started with the path of a disk that was chosen from the list shown and is
on the screen when y or Y is pressed. -/
def Shown (before : List Seen) : Seen → Prop
  | .flashed _ path _ => ∃ name disks idx disk asked log key,
      before = log ++ [.pressed key] ∧ Chosen name disks idx disk asked log ∧ asked ≠ [] ∧
        (key.code = .char 'y' ∨ key.code = .char 'Y') ∧ path = disk.path
  | _ => True

def AtMostOne (w : Flashes) : Prop := w.countP (·.running) ≤ 1

/-- What holds wherever a run is cut. -/
def Sound (x : Flashes × List Seen) : Prop := AtMostOne x.1 ∧ Chronicle Shown x.2

def NoPanic : Stop → Prop
  | .err _ => True
  | .panicked _ => False

/-! ## The threads and their receiver -/

/-- A thread that sent its last message has ended. -/
def Flash.LastEnds (f : Flash) : Prop := ∀ p ∈ f.unread, p.isLast → f.running = false

/-- Without a receiver no thread runs; with one, it belongs to the latest thread, which alone
may run. -/
def Standing : Option Receiver → Flashes → Prop
  | none, w => ∀ f ∈ w, f.running = false
  | some rx, w => ∃ before f, w = before ++ [f] ∧ rx = before.length ∧
      (∀ g ∈ before, g.running = false) ∧ f.LastEnds

theorem Flash.steps_ended {f f' : Flash} (h : Relation.ReflTransGen Flash.Step f f')
    (hf : f.running = false) : f' = f := by
  induction h with
  | refl => rfl
  | tail _ hs ih =>
    subst ih
    cases hs <;> simp_all

theorem Flash.Step.lastEnds {f f' : Flash} (h : Flash.Step f f') (hf : f.LastEnds) :
    f'.LastEnds := by
  cases h with
  | write hrun written total =>
    intro p hp hlast
    rcases List.mem_append.mp hp with hp | hp
    · exact hf p hp hlast
    · obtain rfl := List.mem_singleton.mp hp
      cases hlast
  | finish => exact fun _ _ _ => rfl
  | die => exact fun _ _ _ => rfl

theorem Flash.steps_lastEnds {f f' : Flash} (h : Relation.ReflTransGen Flash.Step f f')
    (hf : f.LastEnds) : f'.LastEnds := by
  induction h with
  | refl => exact hf
  | tail _ hs ih => exact hs.lastEnds ih

theorem Moves.ended {w m : Flashes} (h : Moves w m) (hw : ∀ f ∈ w, f.running = false) :
    m = w := by
  induction h with
  | nil => rfl
  | cons hs _ ih =>
    have hhead := Flash.steps_ended hs (hw _ List.mem_cons_self)
    have htail := ih fun f hf => hw f (List.mem_cons_of_mem _ hf)
    rw [hhead, htail]

theorem Moves.concat {before m : Flashes} {f : Flash} (h : Moves (before ++ [f]) m) :
    ∃ before' f', m = before' ++ [f'] ∧ Moves before before' ∧
      Relation.ReflTransGen Flash.Step f f' := by
  induction before generalizing m with
  | nil =>
    cases h with
    | cons hs hrest =>
      cases hrest
      exact ⟨[], _, rfl, .nil, hs⟩
  | cons g before ih =>
    cases h with
    | cons hs hrest =>
      obtain ⟨before', f', rfl, hbefore, hf⟩ := ih hrest
      exact ⟨_ :: before', f', rfl, .cons hs hbefore, hf⟩

theorem Standing.moves {rx : Option Receiver} {w m : Flashes} (h : Standing rx w)
    (hm : Moves w m) : Standing rx m := by
  cases rx with
  | none => exact (hm.ended h).symm ▸ h
  | some rx =>
    obtain ⟨before, f, rfl, hrx, hbefore, hf⟩ := h
    obtain ⟨before', f', rfl, hmoved, hsteps⟩ := hm.concat
    obtain rfl := hmoved.ended hbefore
    exact ⟨before', f', rfl, hrx, hbefore, Flash.steps_lastEnds hsteps hf⟩

theorem countP_ended {w : Flashes} (h : ∀ f ∈ w, f.running = false) :
    w.countP (·.running) = 0 := by
  apply List.countP_eq_zero.mpr
  intro f hf
  rw [h f hf]
  exact Bool.false_ne_true

theorem Standing.atMostOne {rx : Option Receiver} {w : Flashes} (h : Standing rx w) :
    AtMostOne w := by
  unfold AtMostOne
  cases rx with
  | none =>
    have hzero := countP_ended h
    omega
  | some rx =>
    obtain ⟨before, f, rfl, -, hbefore, -⟩ := h
    have hzero := countP_ended hbefore
    have hone : [f].countP (·.running) ≤ 1 := List.countP_le_length
    rw [List.countP_append]
    omega

/-- A started thread is the latest one. -/
theorem Standing.spawn {w : Flashes} (h : Standing none w) (image disk_path : String)
    (total : Nat) : Standing (some w.length) (w ++ [Flash.started image disk_path total]) :=
  ⟨w, _, rfl, rfl, h, nofun⟩

/-- What `try_recv` leaves of the standing: after the last message no thread runs. -/
theorem Standing.recv {rx : Receiver} {w : Flashes} (h : Standing (some rx) w) :
    Standing (some rx) (w.recv rx).2 ∧
      ∀ p, (w.recv rx).1 = some p → p.isLast → Standing none (w.recv rx).2 := by
  obtain ⟨before, f, rfl, rfl, hbefore, hf⟩ := h
  have hget : (before ++ [f])[before.length]? = some f := by simp
  unfold Flashes.recv
  simp only [hget]
  cases hunread : f.unread with
  | nil =>
    refine ⟨⟨before, f, rfl, rfl, hbefore, hf⟩, ?_⟩
    intro p hp
    cases hp
  | cons p ps =>
    have hset : (before ++ [f]).set before.length { f with unread := ps } =
        before ++ [{ f with unread := ps }] := by simp
    simp only [hset]
    refine ⟨⟨before, _, rfl, rfl, hbefore, ?_⟩, ?_⟩
    · intro q hq hlast
      exact hf q (hunread ▸ List.mem_cons_of_mem p hq) hlast
    · intro q hq hlast g hg
      obtain rfl := Option.some.inj hq
      rcases List.mem_append.mp hg with hg | hg
      · exact hbefore g hg
      · obtain rfl := List.mem_singleton.mp hg
        exact hf p (hunread ▸ List.mem_cons_self) hlast

/-! ## What a thread sends -/

/-- The messages of a flash thread. -/
def sent {W : Type} : {β : Type} → FlashOp β → W → β → Option FlashProgress
  | _, .send progress, _, _ => some progress
  | _, _, _, _ => none

/-- Operations that send nothing but progress. -/
def SendsProgress : {β : Type} → FlashOp β → Prop
  | _, .send progress => progress.isLast = false
  | _, _ => True

theorem withContext_only {α : Type} (what : String) {e : FlashOp (Except String α)}
    (he : SendsProgress e) : (withContext what e).Only SendsProgress := by
  apply Prog.only_bind (Prog.only_perform he)
  intro r
  cases r <;> trivial

theorem copyChunk_only (total written : Nat) : (copyChunk total written).Only SendsProgress := by
  apply Prog.only_bind (withContext_only (e := .read) _ trivial)
  intro bytes
  show Prog.Only _ (if bytes.isEmpty then _ else _)
  split
  · trivial
  · apply Prog.only_bind (withContext_only (e := .writeAll bytes) _ trivial)
    intro _
    exact Prog.only_bind (Prog.only_perform rfl) fun _ => trivial

theorem openSource_only (image_path : String) : (openSource image_path).Only SendsProgress := by
  apply Prog.only_bind (withContext_only (e := .openImage image_path) _ trivial)
  intro _
  show Prog.Only _ (if image_path.endsWith ".zst" then _ else _)
  split
  · exact withContext_only (e := .newDecoder) _ trivial
  · trivial

theorem copyImage_only (image_path disk_path : String) (total : Nat) :
    (copyImage image_path disk_path total).Only SendsProgress := by
  apply Prog.only_bind (openSource_only image_path)
  intro _
  apply Prog.only_bind (withContext_only (e := .openDisk disk_path) _ trivial)
  intro _
  apply Prog.only_bind (Prog.only_iterate (copyChunk_only total))
  exact fun _ => withContext_only (e := .blockdev disk_path) _ trivial

/-- The messages that a thread may have sent by the end of some steps. -/
def Sends (f : Flash) (log : List FlashProgress) (running : Bool) : Prop :=
  Relation.ReflTransGen Flash.Step f { f with unread := f.unread ++ log, running }

/-- A thread that goes on has sent nothing but progress. -/
theorem sends_progress {f : Flash} {log : List FlashProgress} (hf : f.running)
    (hlog : ∀ p ∈ log, p.isLast = false) : Sends f log true := by
  unfold Sends
  induction log using List.reverseRecOn with
  | nil =>
    rw [List.append_nil, ← hf]
  | append_singleton log p ih =>
    have hbefore := ih fun q hq => hlog q (List.mem_append_left _ hq)
    have hp := hlog p (List.mem_append_right _ (List.mem_singleton_self p))
    cases p with
    | writing written total =>
      have hstep := Flash.Step.write { f with unread := f.unread ++ log, running := true } rfl
        written total
      rw [← List.append_assoc]
      exact hbefore.tail hstep
    | done | error => cases hp

theorem Sends.finish {f : Flash} {log : List FlashProgress} (h : Sends f log true)
    {last : FlashProgress} (hlast : last.isLast) : Sends f (log ++ [last]) false := by
  have hstep := Flash.Step.finish { f with unread := f.unread ++ log, running := true } rfl
    last hlast
  unfold Sends
  rw [← List.append_assoc]
  exact h.tail hstep

/-- Whatever the system answers, `flash_image` moves as `Flash.Step` says, and has ended when
it returns. -/
theorem flashImage_sends {W : Type} {H : Handler FlashOp W} {image_path disk_path : String}
    {total : Nat} {w w' : W} {o : Option (Except String Unit)} {log : List FlashProgress}
    (h : Run (H.logged sent) (flashImage image_path disk_path total) (w, []) o (w', log)) :
    ∃ running, Sends (Flash.started image_path disk_path total) log running ∧
      (o.isSome → running = false) := by
  let f := Flash.started image_path disk_path total
  let Going := fun x : W × List FlashProgress => ∀ p ∈ x.2, p.isLast = false
  let Sent := fun x : W × List FlashProgress => ∃ running, Sends f x.2 running
  have hgoing : ∀ x, Going x → Sent x := fun x hx => ⟨true, sends_progress rfl hx⟩
  have hcopy : wp (H.logged sent) Going (copyImage image_path disk_path total)
      (fun _ x => Going x) (w, []) := by
    apply wp_only (copyImage_only image_path disk_path total) _ nofun
    intro β e x b y he hx hs p hp
    rw [hs.2] at hp
    rcases List.mem_append.mp hp with hp | hp
    · exact hx p hp
    · cases e with
      | send progress =>
        obtain rfl := List.mem_singleton.mp hp
        exact he
      | _ => cases hp
  have hlast : ∀ (last : FlashProgress) (x : W × List FlashProgress), last.isLast → Going x →
      wp (H.logged sent) Sent (Prog.perform (.send last) : Prog FlashOp String Unit)
        (fun _ y => Sends f y.2 false) x := by
    intro last x hlast hx
    apply wp_perform (hgoing x hx)
    intro _ y hs
    have hend : Sends f y.2 false := hs.2 ▸ (sends_progress rfl hx).finish hlast
    exact ⟨⟨false, hend⟩, hend⟩
  have hrun : wp (H.logged sent) Sent (flashImage image_path disk_path total)
      (fun _ y => Sends f y.2 false) (w, []) := by
    apply wp_seq (wp_attempt (Q := fun r x => (∃ result, r = .ok result) ∧ Going x)
      (wp_always_mono (wp_mono hcopy fun r _ _ hx => ⟨⟨r, rfl⟩, hx⟩) hgoing))
    intro r x _ ⟨⟨result, hr⟩, hx⟩
    subst hr
    cases result with
    | ok _ => exact hlast .done x rfl hx
    | error e => exact hlast (.error e) x rfl hx
  cases o with
  | none =>
    obtain ⟨running, hsent⟩ := hrun.1 _ h
    exact ⟨running, hsent, nofun⟩
  | some r => exact ⟨false, hrun.2 r _ h, fun _ => rfl⟩

/-! ## Operations -/

variable {x y : Flashes × List Seen} {α : Type}

/-- The screen and the log belong together: a disk that is asked about was chosen from the
list, and an image is written where there is a receiver. -/
def OnScreen (app : App) (flash_rx : Option Receiver) (log : List Seen) : Prop :=
  match app.screen with
  | .select | .done | .error _ => flash_rx = none
  | .confirm idx => flash_rx = none ∧
      ∃ disk asked, Chosen app.image_name app.disks idx disk asked log
  | .flashing disk_idx _ _ => flash_rx.isSome ∧ disk_idx < app.disks.length

/-- While an image is written, the log says nothing of the screen. -/
theorem OnScreen.relog {app : App} {rx : Receiver} {log : List Seen}
    (h : OnScreen app (some rx) log) (log' : List Seen) : OnScreen app (some rx) log' := by
  unfold OnScreen at h ⊢
  cases hs : app.screen with
  | flashing => rwa [hs] at h
  | confirm =>
    rw [hs] at h
    cases h.1
  | select | done | error =>
    rw [hs] at h
    cases h

/-- Operations that neither start a thread nor receive from one. -/
def Plain : {β : Type} → Op β → Prop
  | _, .tryRecv _ => False
  | _, .spawn _ _ _ => False
  | _, _ => True

/-- What the loop keeps of the threads and of the log. -/
structure Kept (flash_rx : Option Receiver) (x : Flashes × List Seen) : Prop where
  standing : Standing flash_rx x.1
  shown : Chronicle Shown x.2

theorem Kept.sound {rx : Option Receiver} (h : Kept rx x) : Sound x :=
  ⟨h.standing.atMostOne, h.shown⟩

theorem seen_plain {β : Type} {e : Op β} (he : Plain e) {w : Flashes} {b : β}
    {image_path disk_path : String} {total : Nat} :
    seen e w b ≠ some (.flashed image_path disk_path total) := by
  cases e with
  | tryRecv | spawn => cases he
  | endDraw | discoverDisks | read =>
    simp only [seen]
    split <;> exact nofun
  | beginDraw | renderList | poll | dropToShell | fileLen | reboot => exact nofun

theorem plain_step {β : Type} {e : Op β} {b : β} {rx : Option Receiver} (he : Plain e)
    (hx : Kept rx x) (hs : watched.step e x b y) :
    Kept rx y ∧ y.2 = x.2 ++ (seen e x.1 b).toList := by
  obtain ⟨⟨m, hm, ha⟩, hlog⟩ := hs
  have hy : y.1 = m := by
    cases e <;> first | exact ha | cases he
  have hlog : y.2 = x.2 ++ (seen e x.1 b).toList := hlog
  refine ⟨⟨hy ▸ hx.standing.moves hm, ?_⟩, hlog⟩
  rw [hlog]
  cases hseen : seen e x.1 b with
  | none => simpa [hseen] using hx.shown
  | some ev =>
    refine chronicle_concat.mpr ⟨hx.shown, ?_⟩
    cases ev with
    | flashed => exact absurd hseen (seen_plain he)
    | drew | pressed | listed => trivial

/-- A plain operation and what follows its answer. -/
theorem plain_seq {β : Type} {e : Op β} {f : β → Prog Op Stop α} {rx : Option Receiver}
    {Q : α → Flashes × List Seen → Prop} (he : Plain e) (hx : Kept rx x)
    (hf : ∀ b y, Kept rx y → y.2 = x.2 ++ (seen e x.1 b).toList →
      wpSafe watched Sound NoPanic (f b) Q y) :
    wpSafe watched Sound NoPanic ((Prog.perform e).bind f) Q x := by
  apply wpSafe_step hx.sound
  intro b y hs
  obtain ⟨hy, hlog⟩ := plain_step he hx hs
  exact hf b y hy hlog

theorem index_eq {disks : List Disk} {idx : Nat} {disk : Disk} (h : disks[idx]? = some disk) :
    index disks idx = .pure disk := by
  unfold index
  rw [h]

/-! ## A frame -/

/-- What was just drawn of the application. -/
def OnFrame (app : App) (flash_rx : Option Receiver) (log : List Seen) : Prop :=
  match app.screen with
  | .select => flash_rx = none ∧ (app.disks ≠ [] → ∃ earlier,
      log = earlier ++ [.drew (.select app.image_name app.disks app.list_state.selected)])
  | .confirm idx => flash_rx = none ∧
      ∃ disk asked, Chosen app.image_name app.disks idx disk asked log ∧ asked ≠ []
  | .flashing disk_idx _ _ => flash_rx.isSome ∧ disk_idx < app.disks.length
  | .done | .error _ => flash_rx = none

theorem OnFrame.onScreen {app : App} {rx : Option Receiver} {log : List Seen}
    (h : OnFrame app rx log) : OnScreen app rx log := by
  unfold OnFrame at h
  unfold OnScreen
  cases hs : app.screen with
  | select =>
    rw [hs] at h
    exact h.1
  | confirm idx =>
    rw [hs] at h
    obtain ⟨hrx, disk, asked, hchosen, -⟩ := h
    exact ⟨hrx, disk, asked, hchosen⟩
  | flashing | done | error =>
    rw [hs] at h
    exact h

/-- The question about the chosen disk may be drawn again. -/
theorem Chosen.asked_again {name : String} {disks : List Disk} {idx : Nat} {disk : Disk}
    {asked log : List Seen} (h : Chosen name disks idx disk asked log) :
    Chosen name disks idx disk (asked ++ [.drew (.confirm name disk)])
      (log ++ [.drew (.confirm name disk)]) := by
  obtain ⟨hdisk, ⟨earlier, enter, henter, hlog⟩, hasked⟩ := h
  refine ⟨hdisk, ⟨earlier, enter, henter, ?_⟩, ?_⟩
  · rw [hlog]
    simp
  · intro e he
    rcases List.mem_append.mp he with he | he
    · exact hasked e he
    · exact List.mem_singleton.mp he

/-- The view that `ui` makes, and the application it leaves. -/
def Shows (app : App) (view : View) (app' : App) : Prop :=
  (∃ state, app' = { app with list_state := state }) ∧
    match app.screen with
    | .select => app.disks ≠ [] →
        view = .select app.image_name app.disks app'.list_state.selected
    | .confirm idx => ∃ disk, app.disks[idx]? = some disk ∧ view = .confirm app.image_name disk
    | _ => True

theorem ui_spec {app : App} {rx : Option Receiver} (hx : Kept rx x)
    (hscreen : OnScreen app rx x.2) :
    wpSafe watched Sound NoPanic (ui app)
      (fun r y => Kept rx y ∧ y.2 = x.2 ∧ Shows app r.1 r.2) x := by
  unfold ui
  unfold OnScreen at hscreen
  cases hs : app.screen with
  | select =>
    by_cases hempty : app.disks.isEmpty
    · simp only [hempty, if_true]
      apply wpSafe_pure hx.sound
      refine ⟨hx, rfl, ⟨app.list_state, rfl⟩, ?_⟩
      rw [hs]
      exact fun hne => absurd (List.isEmpty_iff.mp hempty) hne
    · simp only [hempty]
      apply plain_seq (e := .renderList app.disks.length app.list_state) trivial hx
      intro state y hy hlog
      apply wpSafe_pure hy.sound
      refine ⟨hy, by simpa [seen] using hlog, ⟨state, by rw [hs]⟩, ?_⟩
      rw [hs]
      exact fun _ => rfl
  | confirm idx =>
    rw [hs] at hscreen
    obtain ⟨-, disk, asked, hchosen⟩ := hscreen
    simp only [index_eq hchosen.1]
    apply wpSafe_pure hx.sound
    refine ⟨hx, rfl, ⟨app.list_state, rfl⟩, ?_⟩
    rw [hs]
    exact ⟨disk, hchosen.1, rfl⟩
  | flashing disk_idx written total =>
    rw [hs] at hscreen
    have hget : app.disks[disk_idx]? = some app.disks[disk_idx] :=
      List.getElem?_eq_getElem hscreen.2
    simp only [index_eq hget]
    apply wpSafe_pure hx.sound
    refine ⟨hx, rfl, ⟨app.list_state, rfl⟩, ?_⟩
    rw [hs]
    trivial
  | done | error =>
    apply wpSafe_pure hx.sound
    refine ⟨hx, rfl, ⟨app.list_state, rfl⟩, ?_⟩
    rw [hs]
    trivial

theorem Shows.onFrame {app app' : App} {view : View} {rx : Option Receiver} {log : List Seen}
    (h : Shows app view app') (hscreen : OnScreen app rx log) :
    OnFrame app' rx (log ++ [.drew view]) := by
  obtain ⟨⟨state, rfl⟩, hview⟩ := h
  unfold OnScreen at hscreen
  unfold OnFrame
  cases hs : app.screen with
  | select =>
    rw [hs] at hscreen hview
    refine ⟨hscreen, fun hne => ⟨log, ?_⟩⟩
    rw [hview hne]
  | confirm idx =>
    rw [hs] at hscreen hview
    obtain ⟨hrx, disk, asked, hchosen⟩ := hscreen
    obtain ⟨disk', hdisk', rfl⟩ := hview
    obtain rfl := Option.some.inj (hdisk'.symm.trans hchosen.1)
    exact ⟨hrx, disk', _, hchosen.asked_again, by simp⟩
  | flashing disk_idx written total =>
    rw [hs] at hscreen
    exact hscreen
  | done | error =>
    rw [hs] at hscreen
    exact hscreen

theorem orErr_spec {r : Except String α} {rx : Option Receiver}
    {Q : α → Flashes × List Seen → Prop} (hx : Kept rx x) (h : ∀ a, r = .ok a → Q a x) :
    wpSafe watched Sound NoPanic (orErr r) Q x := by
  cases r with
  | ok a => exact wpSafe_pure hx.sound (h a rfl)
  | error e => exact wpSafe_fail hx.sound trivial

theorem draw_spec {app : App} {rx : Option Receiver} (hx : Kept rx x)
    (hscreen : OnScreen app rx x.2) :
    wpSafe watched Sound NoPanic (draw app)
      (fun app' y => Kept rx y ∧ OnFrame app' rx y.2) x := by
  apply plain_seq (e := .beginDraw) trivial hx
  intro b y hy hlog
  have hsame : y.2 = x.2 := by simpa [seen] using hlog
  apply wpSafe_seq (orErr_spec (Q := fun _ z => z = y) hy fun _ _ => rfl)
  intro _ z _ hz
  subst hz
  apply wpSafe_seq (ui_spec hy (hsame ▸ hscreen))
  intro r u _ ⟨hu, hulog, hshows⟩
  apply plain_seq (e := .endDraw r.1) trivial hu
  intro b v hv hvlog
  cases b with
  | error e => exact wpSafe_fail hv.sound trivial
  | ok _ =>
    have hdrawn : v.2 = x.2 ++ [.drew r.1] := by rw [hvlog, hulog, hsame]; rfl
    exact wpSafe_pure hv.sound ⟨hv, hdrawn ▸ hshows.onFrame hscreen⟩

/-! ## The turns of the loop -/

/-- The state at the head of the loop. -/
def AtHead (state : RunState) (x : Flashes × List Seen) : Prop :=
  Kept state.2 x ∧ OnScreen state.1 state.2 x.2

/-- Where a turn may leave the loop. -/
def AfterTurn (r : RunState ⊕ Unit) (y : Flashes × List Seen) : Prop :=
  ∀ state, r = .inl state → AtHead state y

theorem next_turn (state : RunState) {x : Flashes × List Seen} (hx : Kept state.2 x)
    (hscreen : OnScreen state.1 state.2 x.2) :
    wpSafe watched Sound NoPanic (.pure (.inl state)) AfterTurn x := by
  apply wpSafe_pure hx.sound
  intro state' h
  obtain rfl := Sum.inl.inj h
  exact ⟨hx, hscreen⟩

theorem last_turn {rx : Option Receiver} (hx : Kept rx x) :
    wpSafe watched Sound NoPanic (.pure (.inr ())) AfterTurn x :=
  wpSafe_pure hx.sound nofun

/-- An image is being written to a disk of the list. -/
def Writing (app : App) : Prop :=
  ∃ disk_idx written total, app.screen = .flashing disk_idx written total ∧
    disk_idx < app.disks.length

theorem Writing.onScreen {app : App} (h : Writing app) (rx : Receiver) (log : List Seen) :
    OnScreen app (some rx) log := by
  obtain ⟨disk_idx, written, total, hs, hlt⟩ := h
  unfold OnScreen
  rw [hs]
  exact ⟨rfl, hlt⟩

theorem receive_spec {rx : Receiver} {app : App} (hx : Kept (some rx) x) (happ : Writing app) :
    wpSafe watched Sound NoPanic (receive rx app) (fun r y => match r with
      | .inl app' => Kept (some rx) y ∧ Writing app'
      | .inr (app', rx') => Kept rx' y ∧ OnScreen app' rx' y.2 ∧ (rx' = none ∨ rx' = some rx)) x := by
  apply wpSafe_step hx.sound
  intro b y ⟨⟨m, hm, ha⟩, hlog⟩
  have hstanding := (hx.standing.moves hm).recv
  have hy : y.1 = (Flashes.recv m rx).2 := congrArg Prod.snd ha
  have hb : b = (Flashes.recv m rx).1 := congrArg Prod.fst ha
  rw [← hy, ← hb] at hstanding
  have hsame : y.2 = x.2 := by simpa [seen] using hlog
  have hshown : Chronicle Shown y.2 := hsame ▸ hx.shown
  have hkept : Kept (some rx) y := ⟨hstanding.1, hshown⟩
  cases b with
  | none => exact wpSafe_pure hkept.sound ⟨hkept, happ.onScreen rx y.2, Or.inr rfl⟩
  | some progress =>
    have hended : progress.isLast → Kept none y := fun h => ⟨hstanding.2 _ rfl h, hshown⟩
    cases progress with
    | writing written total =>
      obtain ⟨disk_idx, written', total', hs, hlt⟩ := happ
      simp only [hs]
      exact wpSafe_pure hkept.sound ⟨hkept, disk_idx, written, total, rfl, hlt⟩
    | done => exact wpSafe_pure hkept.sound ⟨hended rfl, rfl, Or.inl rfl⟩
    | error msg => exact wpSafe_pure hkept.sound ⟨hended rfl, rfl, Or.inl rfl⟩

theorem whileFlashing_spec {rx : Receiver} {app : App} (hx : Kept (some rx) x)
    (happ : Writing app) : wpSafe watched Sound NoPanic (whileFlashing rx app) AfterTurn x := by
  have hloop : wpSafe watched Sound NoPanic (Prog.iterate (receive rx) app)
      (fun r y => Kept r.2 y ∧ OnScreen r.1 r.2 y.2) x := by
    apply wpSafe_iterate (fun app' y => Kept (some rx) y ∧ Writing app') ⟨hx, happ⟩
    intro app' y ⟨hy, happ'⟩
    apply wpSafe_mono (receive_spec hy happ')
    intro r z _ hr
    cases r with
    | inl app'' => exact hr
    | inr r => exact ⟨hr.1, hr.2.1⟩
  apply wpSafe_seq hloop
  intro ⟨app', rx'⟩ y _ ⟨hy, hscreen⟩
  cases rx' with
  | none => exact next_turn _ hy hscreen
  | some rx' =>
    apply plain_seq (e := .poll) trivial hy
    intro b z hz hzlog
    have hsame : z.2 = y.2 := by simpa [seen] using hzlog
    apply wpSafe_seq (orErr_spec (Q := fun _ u => u = z) hz fun _ _ => rfl)
    intro ready u _ hu
    subst hu
    cases ready with
    | false => exact next_turn _ hz (hsame ▸ hscreen)
    | true =>
      apply plain_seq (e := .read) trivial hz
      intro b v hv _
      apply wpSafe_seq (orErr_spec (Q := fun _ u => u = v) hv fun _ _ => rfl)
      intro event u _ hu
      subst hu
      have hnext := next_turn (app', some rx') hv (hscreen.relog _)
      cases event with
      | other => exact hnext
      | key key =>
        show wpSafe _ _ _ (if key.code = .char 'c' ∧ key.control then _ else _) _ _
        split
        · exact last_turn hv
        · exact hnext

/-! ## Keys -/

theorem refresh_spec {app : App} (hx : Kept none x) (happ : app.screen = .select) :
    wpSafe watched Sound NoPanic (refresh app) AfterTurn x := by
  have hselect : ∀ (app' : App) (log : List Seen), app'.screen = .select →
      OnScreen app' none log := by
    intro app' log hs
    unfold OnScreen
    rw [hs]
  apply plain_seq (e := .dropToShell) trivial hx
  intro b y hy _
  cases b with
  | error chain => exact wpSafe_fail hy.sound trivial
  | ok _ =>
    apply plain_seq (e := .discoverDisks) trivial hy
    intro b z hz _
    cases b with
    | error chain => exact wpSafe_fail hz.sound trivial
    | ok disks =>
      show wpSafe _ _ _ (if !disks.isEmpty && app.list_state.selected.isNone then _ else _) _ _
      split
      · exact next_turn _ hz (hselect _ _ happ)
      · exact next_turn _ hz (hselect _ _ happ)

/-- Enter on a list that was just drawn chooses the disk under the cursor. -/
theorem chosen_of_enter {app : App} {log : List Seen} {key : Key} {idx : Nat} {disk : Disk}
    (hkey : key.code = .enter) (hidx : app.list_state.selected = some idx)
    (hdisk : app.disks[idx]? = some disk)
    (hlog : app.disks ≠ [] → ∃ earlier,
      log = earlier ++ [.drew (.select app.image_name app.disks app.list_state.selected)]) :
    Chosen app.image_name app.disks idx disk [] (log ++ [.pressed key]) := by
  have hne : app.disks ≠ [] := by
    intro hnil
    rw [hnil] at hdisk
    cases hdisk
  obtain ⟨earlier, hlog⟩ := hlog hne
  refine ⟨hdisk, ⟨earlier, key, hkey, ?_⟩, nofun⟩
  rw [hlog, hidx]
  simp

theorem onSelect_spec {app : App} {key : Key} {log : List Seen} (hx : Kept none x)
    (happ : app.screen = .select) (hframe : OnFrame app none log)
    (hlog : x.2 = log ++ [.pressed key]) :
    wpSafe watched Sound NoPanic (onSelect key app) AfterTurn x := by
  have hstay : ∀ app' : App, app'.screen = .select →
      wpSafe watched Sound NoPanic (.pure (.inl (app', none))) AfterTurn x := by
    intro app' hs
    apply next_turn _ hx
    unfold OnScreen
    rw [hs]
  unfold OnFrame at hframe
  rw [happ] at hframe
  unfold onSelect
  split
  · exact last_turn hx
  · split
    · exact refresh_spec hx happ
    · exact hstay _ (by simpa using happ)
    · exact hstay _ (by simpa using happ)
    · exact hstay _ (by simpa using happ)
    · exact hstay _ (by simpa using happ)
    · rename_i hkey
      split
      · rename_i hsome
        obtain ⟨disk, hdisk⟩ := Option.isSome_iff_exists.mp hsome
        obtain ⟨idx, hidx, hget⟩ := Option.bind_eq_some_iff.mp hdisk
        rw [hidx]
        apply next_turn _ hx
        exact ⟨rfl, disk, [], hlog ▸ chosen_of_enter hkey hidx hget hframe.2⟩
      · exact hstay _ happ
    · exact hstay _ happ

/-- The one place where a flash is started. -/
theorem spawn_spec {app : App} {idx total : Nat} {disk : Disk} {key : Key} {asked log : List Seen}
    (hx : Kept none x) (hchosen : Chosen app.image_name app.disks idx disk asked log)
    (hasked : asked ≠ []) (hkey : key.code = .char 'y' ∨ key.code = .char 'Y')
    (hlog : x.2 = log ++ [.pressed key]) :
    wpSafe watched Sound NoPanic
      ((Prog.perform (.spawn app.image disk.path total)).bind fun rx =>
        .pure (.inl ({ app with screen := .flashing idx 0 total }, some rx))) AfterTurn x := by
  apply wpSafe_step hx.sound
  intro rx y ⟨⟨m, hm, ha⟩, hylog⟩
  obtain ⟨rfl, hy⟩ := ha
  have hylog : y.2 = x.2 ++ [.flashed app.image disk.path total] := hylog
  have hkept : Kept (some m.length) y := by
    constructor
    · rw [hy]
      exact (hx.standing.moves hm).spawn _ _ _
    · rw [hylog]
      refine chronicle_concat.mpr ⟨hx.shown, ?_⟩
      exact ⟨_, _, _, disk, asked, log, key, hlog, hchosen, hasked, hkey, rfl⟩
  obtain ⟨hlt, -⟩ := List.getElem?_eq_some_iff.mp hchosen.1
  exact next_turn _ hkept ⟨rfl, hlt⟩

theorem imageTotal_spec {app : App} {rx : Option Receiver} (hx : Kept rx x) :
    wpSafe watched Sound NoPanic (imageTotal app) (fun _ y => Kept rx y ∧ y.2 = x.2) x := by
  unfold imageTotal
  cases app.image_size with
  | some size => exact wpSafe_pure hx.sound ⟨hx, rfl⟩
  | none =>
    apply plain_seq (e := .fileLen app.image) trivial hx
    intro len y hy hlog
    exact wpSafe_pure hy.sound ⟨hy, by simpa [seen] using hlog⟩

theorem onConfirm_spec {app : App} {idx : Nat} {key : Key} {log : List Seen} (hx : Kept none x)
    (happ : app.screen = .confirm idx) (hframe : OnFrame app none log)
    (hlog : x.2 = log ++ [.pressed key]) :
    wpSafe watched Sound NoPanic (onConfirm idx key app) AfterTurn x := by
  unfold OnFrame at hframe
  rw [happ] at hframe
  obtain ⟨-, disk, asked, hchosen, hasked⟩ := hframe
  have hflash : key.code = .char 'y' ∨ key.code = .char 'Y' →
      wpSafe watched Sound NoPanic (do
        let disk ← index app.disks idx
        let total ← imageTotal app
        let rx ← .perform (.spawn app.image disk.path total)
        return .inl ({ app with screen := .flashing idx 0 total }, some rx)) AfterTurn x := by
    intro hkey
    rw [index_eq hchosen.1]
    apply wpSafe_seq (imageTotal_spec hx)
    intro total y _ ⟨hy, hsame⟩
    exact spawn_spec hy hchosen hasked hkey (hsame.trans hlog)
  unfold onConfirm
  split
  · rename_i hkey
    exact hflash (Or.inl hkey)
  · rename_i hkey
    exact hflash (Or.inr hkey)
  · exact next_turn _ hx rfl

theorem onKey_spec {app : App} {key : Key} {log : List Seen} (hx : Kept none x)
    (hframe : OnFrame app none log) (hlog : x.2 = log ++ [.pressed key]) :
    wpSafe watched Sound NoPanic (onKey key app) AfterTurn x := by
  have hreboot : wpSafe watched Sound NoPanic (do
      Prog.perform .reboot
      return .inr ()) AfterTurn x := by
    apply plain_seq (e := .reboot) trivial hx
    intro _ y hy _
    exact last_turn hy
  unfold onKey
  split
  · rename_i hs
    exact onSelect_spec hx hs hframe hlog
  · rename_i hs
    exact onConfirm_spec hx hs hframe hlog
  · rename_i hs
    split
    · exact hreboot
    · apply next_turn _ hx
      unfold OnScreen
      rw [hs]
  · rename_i hs
    split
    · exact hreboot
    · exact next_turn _ hx rfl
    · apply next_turn _ hx
      unfold OnScreen
      rw [hs]
  · rename_i hs
    unfold OnFrame at hframe
    rw [hs] at hframe
    cases hframe.1

/-! ## The loop -/

theorem turn_spec {state : RunState} (h : AtHead state x) :
    wpSafe watched Sound NoPanic (turn state) AfterTurn x := by
  obtain ⟨app, rx⟩ := state
  obtain ⟨hx, hscreen⟩ := h
  apply wpSafe_seq (draw_spec hx hscreen)
  intro app' y _ ⟨hy, hframe⟩
  cases rx with
  | some rx =>
    apply whileFlashing_spec hy
    unfold OnFrame at hframe
    cases hs : app'.screen with
    | flashing disk_idx written total =>
      rw [hs] at hframe
      exact ⟨disk_idx, written, total, hs, hframe.2⟩
    | select | confirm =>
      rw [hs] at hframe
      cases hframe.1
    | done | error =>
      rw [hs] at hframe
      cases hframe
  | none =>
    apply plain_seq (e := .read) trivial hy
    intro b z hz hzlog
    match b with
    | .error e => exact wpSafe_fail hz.sound trivial
    | .ok .other =>
      have hsame : z.2 = y.2 := by simpa [seen] using hzlog
      exact next_turn (app', none) hz (hsame ▸ hframe.onScreen)
    | .ok (.key key) => exact onKey_spec hz hframe hzlog

theorem new_onScreen (cli : Cli) (disks : List Disk) (log : List Seen) :
    OnScreen (App.new cli disks) none log := rfl

/-- Whatever the keys, the lists of disks and the messages of the flash threads are, `run`
neither indexes a list out of range nor reaches `unreachable!()`; at most one flash runs at a
time; and every flash writes to the disk that was chosen from the list last shown and that the
question on the screen was about when y or Y was pressed. -/
theorem flashes_shown_disk (cli : Cli) (disks : List Disk) {o : Option (Except Stop Unit)}
    {w : Flashes} {log : List Seen}
    (h : Run watched (run (App.new cli disks)) ([], []) o (w, log)) :
    (∀ why, o ≠ some (.error (.panicked why))) ∧ AtMostOne w ∧ Chronicle Shown log := by
  have hstart : Kept none (([], []) : Flashes × List Seen) := ⟨nofun, chronicle_nil _⟩
  have hrun : wpSafe watched Sound NoPanic (run (App.new cli disks)) (fun _ _ => True) ([], []) := by
    apply wpSafe_iterate AtHead ⟨hstart, new_onScreen cli disks []⟩
    intro state x hx
    apply wpSafe_mono (turn_spec hx)
    intro r y _ hr
    cases r with
    | inl state' => exact hr state' rfl
    | inr => trivial
  refine ⟨?_, hrun.1 _ h.toCut⟩
  intro why ho
  subst ho
  exact hrun.2 _ _ h

/-! ## A run -/

/-- The answers of a terminal on which these keys are pressed, one after the other. -/
def reply (keys : List Key) (disks : List Disk) :
    {β : Type} → Op β → Flashes × List Seen → Option (β × Flashes)
  | _, .beginDraw, x => some (.ok (), x.1)
  | _, .renderList _ state, x => some (state, x.1)
  | _, .endDraw _, x => some (.ok (), x.1)
  | _, .tryRecv rx, x => some (x.1.recv rx)
  | _, .poll, x => some (.ok true, x.1)
  | _, .read, x =>
    keys[x.2.countP fun | .pressed _ => true | _ => false]?.map fun key => (.ok (.key key), x.1)
  | _, .dropToShell, x => some (.ok (), x.1)
  | _, .discoverDisks, x => some (.ok disks, x.1)
  | _, .fileLen _, x => some (none, x.1)
  | _, .spawn image_path disk_path total, x =>
    some (x.1.length, x.1 ++ [Flash.started image_path disk_path total])
  | _, .reboot, x => some ((), x.1)

def typed (keys : List Key) (disks : List Disk) : Oracle Op (Flashes × List Seen) where
  answer e x := (reply keys disks e x).map fun r => (r.1, r.2, x.2 ++ (seen e x.1 r.1).toList)

theorem typed_sound (keys : List Key) (disks : List Disk) {β : Type} (e : Op β)
    (x : Flashes × List Seen) (b : β) (y : Flashes × List Seen)
    (h : (typed keys disks).answer e x = some (b, y)) : watched.step e x b y := by
  obtain ⟨r, hr, he⟩ := Option.map_eq_some_iff.mp h
  cases he
  refine ⟨⟨x.1, List.forall₂_same.mpr fun _ _ => .refl, ?_⟩, rfl⟩
  cases e with
  | tryRecv rx => exact (Option.some.inj hr).symm
  | spawn image_path disk_path total =>
    cases hr
    exact ⟨rfl, rfl⟩
  | read =>
    obtain ⟨key, -, hkey⟩ := Option.map_eq_some_iff.mp hr
    cases hkey
    rfl
  | _ =>
    cases hr
    rfl

def internal : Disk := ⟨"/dev/nvme0n1", "nvme0n1", 512110190592, "SSD", "nvme"⟩

def spare : Disk := ⟨"/dev/sda", "sda", 4000787030016, "", "sata"⟩

/-- The run of these keys from the two disks, where the second visit to the list finds only
one of them. -/
def sampleEnd : Option (Except Stop Unit) × Flashes × List Seen :=
  (run (App.new { image := "/image.raw.zst" } [spare, internal])).exec
    (typed [⟨.down, false⟩, ⟨.char 's', false⟩, ⟨.enter, false⟩, ⟨.up, false⟩, ⟨.enter, false⟩,
      ⟨.char 'Y', false⟩, ⟨.char 'y', false⟩] [internal]) 60 ([], [])

example : sampleEnd.2.1.map (·.disk_path) = ["/dev/nvme0n1"] := by decide

theorem flashes_shown_disk_sample :
    (∀ why, sampleEnd.1 ≠ some (.error (.panicked why))) ∧ AtMostOne sampleEnd.2.1 ∧
      Chronicle Shown sampleEnd.2.2 :=
  flashes_shown_disk { image := "/image.raw.zst" } [spare, internal]
    (exec_run (fun e x b y h => typed_sound _ _ e x b y h) _ _ _)

end Foundrix.Flasher

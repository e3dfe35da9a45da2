import Foundrix.VarDisk.History

/-!
# What stands before a destructive command

The invariant of the history of every run: a command that overwrites something comes after
what must come before it, and nothing is asked or probed after the first such command.

* `Interlocked`: what must come before each destructive command.
* `Sound`, `Inv`: the invariant.
* `quiet_step`, `quiet_spec`: operations and programs that leave it alone.
-/

namespace Foundrix.VarDisk

open Effect

/-! ## What a history shows -/

def NoneDestructive (es : List Event) : Prop :=
  ∀ e ∈ es, ∀ c, e.command = some c → ¬ c.Destructive

/-- What is planned for the disks as they were published. -/
def planned (es : List Event) : Plan := plan (classesOf (disksListed es))

/-- One passphrase, long enough, was entered for a `NewPassphrase` prompt and for the
`RepeatPassphrase` prompt that came next. -/
def TwiceEntered (minLen : Nat) (pw : String) (es : List Event) : Prop :=
  ∃ before first second after p q, es = before ++ (first ++ (second ++ after)) ∧
    Exchange p pw first ∧ Exchange q pw second ∧ p.kind = .newPassphrase ∧
    q.kind = .repeatPassphrase ∧ p.id ≠ q.id ∧ minLen ≤ pw.length

/-- The mapper was probed and nothing found, and a `Confirm` prompt posted after that was
answered with a yes. -/
def Confirmed (es : List Event) : Prop :=
  ∃ before out between exchange after p v,
    es = before ++ .ran (.blkid .type .mapper) (.ok out) :: (between ++ (exchange ++ after)) ∧
    out.status.code = some 2 ∧ Exchange p v exchange ∧ p.kind = .confirm ∧
    parseConfirm v = some true

/-- What must come before a destructive command. -/
def Interlocked (minLen : Nat) (before : List Event) (secret : Option String) : Cmd → Prop
  | .sgdiskZap d => ∃ blank pw, (planned before).blankDisk = some blank ∧ d = .disk blank ∧
      TwiceEntered minLen pw before
  | .luksFormat d => ∃ blank pw, (planned before).blankDisk = some blank ∧ d = .part1 blank ∧
      secret = some pw ∧ TwiceEntered minLen pw before
  | .mkfs d => d = .mapper ∧
      ((∃ blank pw, (planned before).blankDisk = some blank ∧ TwiceEntered minLen pw before) ∨
        (∃ luks, planned before = .unlock luks) ∧ Confirmed before)
  | _ => True

/-! ## Prompts and their answers -/

/-- The prompt that waits for its answer, and the answers that were taken. -/
structure Dialogue where
  pending : Option Prompt := none
  answers : List (Prompt × String) := []

def listen (s : Dialogue) : Event → Dialogue
  | .asked p => { s with pending := some p }
  | .received (.submit id v) =>
    match s.pending with
    | some p => if p.id = id then ⟨none, s.answers ++ [(p, v)]⟩ else s
    | none => s
  | _ => s

/-- The prompts of a history with the answers that were taken for them. -/
def answers (es : List Event) : List (Prompt × String) := (es.foldl listen {}).answers

theorem listen_answers (es : List Event) (s : Dialogue) :
    s.answers <+: (es.foldl listen s).answers := by
  induction es generalizing s with
  | nil => exact List.prefix_rfl
  | cons e es ih =>
    refine List.IsPrefix.trans ?_ (ih (listen s e))
    unfold listen
    split
    · exact List.prefix_rfl
    · split
      · split
        · exact List.prefix_append _ _
        · exact List.prefix_rfl
      · exact List.prefix_rfl
    · exact List.prefix_rfl

theorem listen_dropped {id : Nat} {es : List Event} (h : Dropped id es) {s : Dialogue} {p : Prompt}
    (hs : s.pending = some p) (hid : p.id = id) : es.foldl listen s = s := by
  induction es with
  | nil => rfl
  | cons e es ih =>
    obtain ⟨⟨id', v⟩, rfl, hm⟩ := h e List.mem_cons_self
    have hne : p.id ≠ id' := fun he => hm v (by rw [← he, hid])
    have hstep : listen s (.received (.submit id' v)) = s := by simp [listen, hs, hne]
    rw [List.foldl_cons, hstep]
    exact ih fun e he => h e (List.mem_cons_of_mem _ he)

theorem answers_exchange {p : Prompt} {v : String} {ex : List Event} (h : Exchange p v ex)
    (es : List Event) : answers (es ++ ex) = answers es ++ [(p, v)] := by
  obtain ⟨dropped, rfl, hd⟩ := h
  unfold answers
  rw [List.foldl_append, List.foldl_cons, List.foldl_append]
  rw [listen_dropped hd (s := listen _ (.asked p)) rfl rfl]
  simp [listen]

theorem Answered.mem_answers {p : Prompt} {v : String} {es : List Event} (h : Answered p v es) :
    (p, v) ∈ answers es := by
  obtain ⟨before, ex, after, rfl, hex⟩ := h
  have hmem : (p, v) ∈ answers (before ++ ex) := by
    rw [answers_exchange hex]
    exact List.mem_append_right _ (List.mem_singleton_self _)
  rw [← List.append_assoc]
  unfold answers at hmem ⊢
  rw [List.foldl_append]
  exact (listen_answers after _).subset hmem

/-! ## Histories that grow -/

/-- An event that neither asks nor publishes and is no destructive command and no probe of
the mapper. -/
def Event.Quiet : Event → Prop
  | .existed _ _ => True
  | .ran c _ => ¬ c.Destructive ∧ c ≠ .blkid .type .mapper
  | .fed c _ _ => ¬ c.Destructive ∧ c ≠ .blkid .type .mapper
  | _ => False

theorem Event.Quiet.notDestructive {e : Event} (h : e.Quiet) {c : Cmd} (hc : e.command = some c) :
    ¬ c.Destructive := by
  cases e with
  | ran => cases hc; exact h.1
  | fed => cases hc; exact h.1
  | _ => cases hc

theorem NoneDestructive.append {es fs : List Event} (h : NoneDestructive es)
    (h' : NoneDestructive fs) : NoneDestructive (es ++ fs) := by
  intro e he
  rcases List.mem_append.mp he with he | he
  · exact h e he
  · exact h' e he

theorem noneDestructive_exchange {p : Prompt} {v : String} {ex : List Event}
    (h : Exchange p v ex) : NoneDestructive ex := by
  obtain ⟨dropped, rfl, hd⟩ := h
  intro e he c hc
  rcases List.mem_cons.mp he with rfl | he
  · cases hc
  rcases List.mem_append.mp he with he | he
  · obtain ⟨m, rfl, -⟩ := hd e he
    cases hc
  · obtain rfl := List.mem_singleton.mp he
    cases hc

theorem TwiceEntered.append {minLen : Nat} {pw : String} {es : List Event}
    (h : TwiceEntered minLen pw es) (fs : List Event) : TwiceEntered minLen pw (es ++ fs) := by
  obtain ⟨before, first, second, after, p, q, rfl, h⟩ := h
  exact ⟨before, first, second, after ++ fs, p, q, by simp, h⟩

/-- Histories that show the same list of disks. -/
theorem disksListed_append {es fs : List Event} (h : ∀ infos, .listed infos ∉ fs) :
    disksListed (es ++ fs) = disksListed es := by
  have hnil : fs.filterMap Event.disks = [] := by
    rw [List.filterMap_eq_nil_iff]
    intro e he
    cases e with
    | listed infos => exact (h infos he).elim
    | _ => rfl
  unfold disksListed
  rw [List.filterMap_append, hnil, List.append_nil]

theorem planned_append {es fs : List Event} (h : ∀ infos, .listed infos ∉ fs) :
    planned (es ++ fs) = planned es := by
  rw [planned, disksListed_append h, planned]

/-! ## The invariant -/

/-- The probes of the mapper found nothing, and no `Confirm` prompt was answered with no. -/
structure Unrefused (es : List Event) : Prop where
  probes : ∀ out, .ran (.blkid .type .mapper) out ∈ es → mapperFs out = .empty
  answers : ∀ a ∈ answers es, a.1.kind = .confirm → parseConfirm a.2 ≠ some false

/-- What must have come before an event. -/
def Sound (minLen : Nat) (before : List Event) : Event → Prop
  | .asked _ | .received _ | .listed _ => NoneDestructive before
  | .existed _ _ => True
  | .ran c _ => (c = .blkid .type .mapper → NoneDestructive before) ∧
      (c.Destructive → Interlocked minLen before none c ∧ Unrefused before)
  | .fed c secret _ => c.Destructive → Interlocked minLen before (some secret) c ∧ Unrefused before

structure Inv (minLen : Nat) (x : World × List Event) : Prop where
  sound : Chronicle (Sound minLen) x.2
  bound : ∀ p, .asked p ∈ x.2 → p.id ≤ x.1.promptId
  current : ∀ p, x.1.snapshot.prompt = some p → .asked p ∈ x.2
  disks : x.1.snapshot.disks = disksListed x.2

theorem inv_initial (minLen : Nat) : Inv minLen ({}, []) :=
  ⟨chronicle_nil _, by simp, nofun, rfl⟩

variable {minLen : Nat} {x y z : World × List Event}

/-- Only quiet events have been added. -/
def Follows (x y : World × List Event) : Prop :=
  ∃ es, y.2 = x.2 ++ es ∧ ∀ e ∈ es, e.Quiet

theorem Follows.refl (x : World × List Event) : Follows x x := ⟨[], by simp, by simp⟩

theorem Follows.trans (h : Follows x y) (h' : Follows y z) : Follows x z := by
  obtain ⟨es, hy, hes⟩ := h
  obtain ⟨fs, hz, hfs⟩ := h'
  refine ⟨es ++ fs, by rw [hz, hy, List.append_assoc], fun e he => ?_⟩
  rcases List.mem_append.mp he with he | he
  · exact hes e he
  · exact hfs e he

theorem Follows.planned (h : Follows x y) : planned y.2 = planned x.2 := by
  obtain ⟨es, hy, hes⟩ := h
  rw [hy]
  exact planned_append fun infos hm => hes _ hm

theorem Follows.twiceEntered (h : Follows x y) {pw : String} (ht : TwiceEntered minLen pw x.2) :
    TwiceEntered minLen pw y.2 := by
  obtain ⟨es, hy, -⟩ := h
  exact hy ▸ ht.append es

theorem Follows.noneDestructive (h : Follows x y) (hx : NoneDestructive x.2) :
    NoneDestructive y.2 := by
  obtain ⟨es, hy, hes⟩ := h
  exact hy ▸ hx.append fun e he c hc => (hes e he).notDestructive hc

theorem listen_quiet {es : List Event} (h : ∀ e ∈ es, e.Quiet) (s : Dialogue) :
    es.foldl listen s = s := by
  induction es with
  | nil => rfl
  | cons e es ih =>
    have he := h e List.mem_cons_self
    have hstep : listen s e = s := by
      cases e with
      | asked => exact he.elim
      | received => exact he.elim
      | _ => rfl
    rw [List.foldl_cons, hstep]
    exact ih fun e he => h e (List.mem_cons_of_mem _ he)

theorem Follows.unrefused (h : Follows x y) (hx : Unrefused x.2) : Unrefused y.2 := by
  obtain ⟨es, hy, hes⟩ := h
  rw [hy]
  refine ⟨fun out hm => ?_, fun a ha => ?_⟩
  · rcases List.mem_append.mp hm with hm | hm
    · exact hx.probes out hm
    · exact ((hes _ hm).2 rfl).elim
  · unfold answers at ha
    rw [List.foldl_append, listen_quiet hes] at ha
    exact hx.answers a ha

/-- A sound event may be added. -/
theorem Inv.add {w : World} {es : List Event} {e : Event} (h : Inv minLen (w, es))
    (hs : Sound minLen es e) (hasked : ∀ p, e ≠ .asked p) (hlisted : ∀ infos, e ≠ .listed infos) :
    Inv minLen (w, es ++ [e]) := by
  have hnot : ∀ infos, Event.listed infos ∉ [e] := fun infos hm =>
    hlisted infos (List.mem_singleton.mp hm).symm
  refine ⟨chronicle_concat.mpr ⟨h.sound, hs⟩, fun p hp => ?_, fun p hp => ?_, ?_⟩
  · rcases List.mem_append.mp hp with hp | hp
    · exact h.bound p hp
    · exact (hasked p (List.mem_singleton.mp hp).symm).elim
  · exact List.mem_append_left _ (h.current p hp)
  · exact h.disks.trans (disksListed_append hnot).symm

theorem Event.Quiet.sound {e : Event} (h : e.Quiet) (es : List Event) : Sound minLen es e := by
  cases e with
  | existed => trivial
  | ran => exact ⟨fun hc => (h.2 hc).elim, fun hd => (h.1 hd).elim⟩
  | fed => exact fun hd => (h.1 hd).elim
  | _ => exact h.elim

theorem Inv.addQuiet {w : World} {es : List Event} {e : Event} (h : Inv minLen (w, es))
    (he : e.Quiet) : Inv minLen (w, es ++ [e]) := by
  refine h.add (he.sound es) ?_ ?_
  · rintro p rfl
    exact he
  · rintro infos rfl
    exact he

/-- Operations that leave no event. -/
def Silent : {β : Type} → Op β → Prop
  | _, .mutate f => ∀ s, ((f s).prompt = s.prompt ∨ (f s).prompt = none) ∧ (f s).disks = s.disks
  | _, .nextPromptId | _, .tryRecv | _, .output _ | _, .feed _ _ | _, .exists _ => False
  | _, _ => True

/-- Operations that leave at most quiet events. -/
def Quiet : {β : Type} → Op β → Prop
  | _, .output c => ¬ c.Destructive ∧ c ≠ .blkid .type .mapper
  | _, .feed c _ => ¬ c.Destructive ∧ c ≠ .blkid .type .mapper
  | _, .exists _ => True
  | _, e => Silent e

theorem silent_step {β : Type} {e : Op β} {b : β} (he : Silent e) (hI : Inv minLen x)
    (hs : observed.step e x b y) : Inv minLen y ∧ y.2 = x.2 := by
  obtain ⟨w, es⟩ := x
  obtain ⟨w', es'⟩ := y
  -- nothing that the invariant speaks of has changed
  have same : w'.snapshot = w.snapshot → w'.promptId = w.promptId → es' = es →
      Inv minLen (w', es') ∧ es' = es := by
    rintro h1 h2 rfl
    exact ⟨⟨hI.sound, fun p hp => h2 ▸ hI.bound p hp, fun p hp => hI.current p (h1 ▸ hp),
      (congrArg Snapshot.disks h1).trans hI.disks⟩, rfl⟩
  cases e with
  | mutate f =>
    obtain ⟨rfl, hlog⟩ := hs
    obtain ⟨hp, hd⟩ := he w.snapshot
    have hnone : record (.mutate f) w b = none := by
      rcases hp with hp | hp <;> simp [record, recordMutate, hp, hd]
    obtain rfl : es' = es := by simpa [hnone] using hlog
    refine ⟨⟨hI.sound, hI.bound, fun p hq => ?_, ?_⟩, rfl⟩
    · rcases hp with hp | hp
      · exact hI.current p (hp ▸ hq)
      · rw [World.mutate_snapshot, hp] at hq
        cases hq
    · rw [World.mutate_snapshot, hd]
      exact hI.disks
  | nextPromptId => exact he.elim
  | tryRecv => exact he.elim
  | output => exact he.elim
  | feed => exact he.elim
  | «exists» => exact he.elim
  | writeState line =>
    obtain ⟨rfl, hlog⟩ := hs
    exact same rfl rfl (by simpa [record] using hlog)
  | _ =>
    obtain ⟨rfl, hlog⟩ := hs
    exact same rfl rfl (by simpa [record] using hlog)

theorem quiet_step {β : Type} {e : Op β} {b : β} (he : Quiet e) (hI : Inv minLen x)
    (hs : observed.step e x b y) : Inv minLen y ∧ Follows x y := by
  have added : ∀ e : Event, e.Quiet → y = (x.1, x.2 ++ [e]) → Inv minLen y ∧ Follows x y := by
    rintro e he rfl
    exact ⟨hI.addQuiet he, [e], rfl, by simpa using he⟩
  have silent : Silent e → Inv minLen y ∧ Follows x y := fun he =>
    have h := silent_step he hI hs
    ⟨h.1, [], by simp [h.2], by simp⟩
  cases e with
  | output c => exact added (.ran c b) he (Prod.ext hs.1 hs.2)
  | feed c secret => exact added (.fed c secret b) he (Prod.ext hs.1 hs.2)
  | «exists» d => exact added (.existed d b) trivial (Prod.ext hs.1 hs.2)
  | _ => exact silent he

theorem silent_spec {α : Type} {p : Daemon α} (hp : p.Only Silent) (hI : Inv minLen x) :
    wpOk observed (Inv minLen) p (fun _ y => y.2 = x.2) x := by
  refine wp_mono (wp_always_mono (wp_only (J := fun y => Inv minLen y ∧ y.2 = x.2) hp
    (fun e y b z he hy hs => ?_) ⟨hI, rfl⟩) fun _ h => h.1) fun _ _ _ h _ _ => h.2
  obtain ⟨hz, hstep⟩ := silent_step he hy.1 hs
  exact ⟨hz, hstep.trans hy.2⟩

theorem quiet_spec {α : Type} {p : Daemon α} (hp : p.Only Quiet) (hI : Inv minLen x) :
    wpOk observed (Inv minLen) p (fun _ y => Follows x y) x := by
  refine wp_mono (wp_always_mono (wp_only (J := fun y => Inv minLen y ∧ Follows x y) hp
    (fun e y b z he hy hs => ?_) ⟨hI, Follows.refl x⟩) fun _ h => h.1) fun _ _ _ h _ _ => h.2
  obtain ⟨hz, hstep⟩ := quiet_step he hy.1 hs
  exact ⟨hz, hy.2.trans hstep⟩

end Foundrix.VarDisk

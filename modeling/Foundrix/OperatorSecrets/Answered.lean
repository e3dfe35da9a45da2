import Foundrix.OperatorSecrets.Clients
import Foundrix.OperatorSecrets.Stages

/-!
# The form that an answer was typed into

Whatever the clients do, the values that `Ui::ask` returns were sent under the id of the prompt
that it posted, by a client that held them in the form of this very prompt.

* `Prompts`: a prompt id is never used again.
* `main_stable`: the daemon keeps this, and what holds of the messages.
* `HeldFor`, `AnsweredFor`: an answer and the form that it was typed into.
* `answers_belong_to_their_form`: for every call of `ask` in every run.
-/

namespace Foundrix.OperatorSecrets

open Effect

/-! ## Prompt ids -/

/-- No two prompts have the same id, and none has one that was not given out. -/
structure Prompts (w : World) : Prop where
  current : w.snapshot ∈ published w
  bound : ∀ s ∈ published w, ∀ p, s.prompt = some p → p.id ≤ w.promptId
  same : ∀ s ∈ published w, ∀ s' ∈ published w, ∀ p p', s.prompt = some p →
    s'.prompt = some p' → p.id = p'.id → p = p'

/-- The next prompt may be posted under this id. -/
structure NewId (w : World) (id : Nat) : Prop where
  current : w.promptId = id
  unused : ∀ s ∈ published w, ∀ p, s.prompt = some p → p.id < id

structure Coherent (x : World × Net) : Prop where
  prompts : Prompts x.1
  mail : Mail x.1 x.2

section Prompts

variable {w w' : World} {f : Snapshot → Snapshot} {p : Prompt}

theorem mem_published_mutate {s : Snapshot} :
    s ∈ published (w.mutate f) ↔ s ∈ published w ∨ s = f w.snapshot := by
  unfold published
  rw [World.mutate_sent, ← List.cons_append, List.mem_append, List.mem_singleton]

theorem published_overwrite (w : World) (how : Overwriting) :
    published (w.overwrite how) = published w := rfl

theorem Prompts.congr (h : Prompts w) (hsnapshot : w'.snapshot = w.snapshot)
    (hsent : w'.sent = w.sent) (hid : w.promptId ≤ w'.promptId) : Prompts w' := by
  have hpublished : published w' = published w := by rw [published, published, hsent]
  refine ⟨?_, fun s hs p hp => ?_, fun s hs s' hs' => ?_⟩
  · rw [hsnapshot, hpublished]
    exact h.current
  · exact (h.bound s (hpublished ▸ hs) p hp).trans hid
  · exact h.same s (hpublished ▸ hs) s' (hpublished ▸ hs')

/-- A change that posts no prompt. -/
theorem Prompts.mutate (h : Prompts w)
    (hf : (f w.snapshot).prompt = none ∨ (f w.snapshot).prompt = w.snapshot.prompt) :
    Prompts (w.mutate f) := by
  -- a prompt in the new snapshot is that of the last one
  have hold : ∀ s ∈ published (w.mutate f), ∀ p, s.prompt = some p →
      ∃ s' ∈ published w, s'.prompt = some p := by
    intro s hs p hp
    rcases mem_published_mutate.mp hs with hs | rfl
    · exact ⟨s, hs, hp⟩
    · rcases hf with hf | hf
      · rw [hf] at hp
        cases hp
      · exact ⟨w.snapshot, h.current, hf ▸ hp⟩
  refine ⟨mem_published_mutate.mpr (Or.inr rfl), fun s hs p hp => ?_,
    fun s hs s' hs' p p' hp hp' hid => ?_⟩
  · obtain ⟨s', hs', hp'⟩ := hold s hs p hp
    exact h.bound s' hs' p hp'
  · obtain ⟨t, ht, hpt⟩ := hold s hs p hp
    obtain ⟨t', ht', hpt'⟩ := hold s' hs' p' hp'
    exact h.same t ht t' ht' p p' hpt hpt' hid

/-- A prompt with a new id. -/
theorem Prompts.post (h : Prompts w) (hnew : NewId w p.id) :
    Prompts (w.mutate fun s => { s with prompt := some p }) := by
  refine ⟨mem_published_mutate.mpr (Or.inr rfl), fun s hs q hq => ?_,
    fun s hs s' hs' q q' hq hq' hid => ?_⟩
  · rcases mem_published_mutate.mp hs with hs | rfl
    · exact h.bound s hs q hq
    · obtain rfl := Option.some.inj hq
      exact hnew.current.ge
  · rcases mem_published_mutate.mp hs with hs | rfl <;>
      rcases mem_published_mutate.mp hs' with hs' | rfl
    · exact h.same s hs s' hs' q q' hq hq' hid
    · obtain rfl := Option.some.inj hq'
      exact absurd hid (hnew.unused s hs q hq).ne
    · obtain rfl := Option.some.inj hq
      exact absurd hid.symm (hnew.unused s' hs' q' hq').ne
    · exact Option.some.inj (hq.symm.trans hq')

end Prompts

/-! ## Operations -/

/-- Every change of the snapshot leaves the prompt as it is, or takes it down. -/
def Calm : {β : Type} → Op β → Prop
  | _, .mutate f => ∀ s, (f s).prompt = none ∨ (f s).prompt = s.prompt
  | _, _ => True

section Steps

variable {x y m : World × Net} {β : Type} {e : Op β} {b : β}

theorem coherent_of_clients (h : Coherent x) (hc : Relation.ReflTransGen clientsMove x y) :
    Coherent y := by
  induction hc with
  | refl => exact h
  | tail _ hstep ih =>
    obtain ⟨hworld, hclient⟩ := hstep
    refine ⟨hworld ▸ ih.prompts, ?_⟩
    rw [hworld]
    exact mail_clientStep ih.mail hclient

/-- An operation that posts no prompt. -/
theorem calm_step (he : Calm e) (h : Coherent x) (hs : net.step e x b y) : Coherent y := by
  obtain ⟨m, hclients, hanswer⟩ := hs
  have hm := coherent_of_clients h hclients
  obtain ⟨w, n⟩ := y
  have hsame : ∀ {w' : World}, w'.snapshot = m.1.snapshot → w'.sent = m.1.sent →
      m.1.promptId ≤ w'.promptId → Coherent (w', m.2) := by
    intro w' hsnapshot hsent hid
    refine ⟨hm.prompts.congr hsnapshot hsent hid, hm.mail.grow fun s hs => ?_⟩
    rwa [published, hsent]
  cases e with
  | tryRecv =>
    rcases tryRecv_cases hanswer with ⟨-, hy⟩ | ⟨l, rest, hqueue, -, hy⟩
    · rw [hy]
      exact hm
    · rw [hy]
      exact ⟨hm.prompts, mail_received hm.mail hqueue⟩
  | mutate f =>
    obtain ⟨⟨how, -, hw⟩, rfl⟩ := hanswer
    rw [show w = (m.1.mutate f).overwrite how from hw]
    refine ⟨(hm.prompts.mutate (he _)).congr rfl rfl le_rfl, ?_⟩
    exact hm.mail.grow fun s hs => mem_published_mutate.mpr (Or.inl hs)
  | nextPromptId =>
    obtain ⟨⟨-, hw⟩, rfl⟩ := hanswer
    rw [show w = _ from hw]
    exact hsame rfl rfl (Nat.le_succ _)
  | eprintln =>
    obtain ⟨hw, rfl⟩ := hanswer
    rw [show w = _ from hw]
    exact hsame rfl rfl le_rfl
  | writeState =>
    obtain ⟨⟨how, -, hw⟩, rfl⟩ := hanswer
    rw [show w = _ from hw]
    exact hsame rfl rfl le_rfl
  | _ =>
    obtain ⟨hw, rfl⟩ := hanswer
    rw [show w = _ from answer_mute (by trivial) hw]
    exact hsame rfl rfl le_rfl

theorem calm_stable {α : Type} {p : Daemon α} (hp : p.Only Calm) : Stable net Coherent p :=
  stable_only hp fun _ _ _ _ he h hs => calm_step he h hs

theorem quiet_stable {α : Type} {p : Daemon α} (hp : p.Only Quiet) : Stable net Coherent p := by
  refine calm_stable (hp.mono fun e he => ?_)
  cases e with
  | mutate => exact he.elim
  | _ => trivial

theorem mutate_stable {f : Snapshot → Snapshot}
    (hf : ∀ s, (f s).prompt = none ∨ (f s).prompt = s.prompt) :
    Stable net Coherent (Ui.mutate f) :=
  calm_stable (Prog.only_perform hf)

/-- A change of something else than the prompt. -/
theorem setSecret_stable (name : String) (state : SecretState) (detail : String) :
    Stable net Coherent (Ui.setSecret name state detail) :=
  mutate_stable fun _ => Or.inr rfl

theorem state_stable (phase message : String) : Stable net Coherent (Ui.state phase message) :=
  (quiet_stable (p := Prog.perform (.eprintln _)) (Prog.only_perform (by trivial))).bind fun _ =>
    mutate_stable fun _ => Or.inr rfl

theorem blocked_stable (b : Bool) : Stable net Coherent (Ui.blocked b) :=
  mutate_stable fun _ => Or.inr rfl

end Steps

/-! ## Answers -/

/-- When the client sent this, it had shown the prompt since a snapshot brought it, and the values
are what the keys pressed since then made of the form as it was posted. -/
def HeldFor (c : Client) (p : Prompt) (number : Nat) (values : Values) : Prop :=
  ∃ older snap written during e rest,
    c.history = (older ++ .line snap written :: during) ++ e :: rest ∧
    (older ++ Tui.Event.line snap written :: during).length = number ∧ snap.prompt = some p ∧
    (∀ s w, .line s w ∈ during → s.prompt = some p) ∧ e.isKey = true ∧
    values =
      (Tui.after c.cli (.line snap written :: during.filter Tui.Event.isKey)).formValues p

/-- What is returned for a secret came in this message, under a prompt that was posted for the
secret and for nothing before, and was typed into the form of this very prompt. -/
structure AnsweredBy (spec : SecretSpec) (values : Values) (x y : World × Net) (p : Prompt)
    (l : Letter) : Prop where
  form : ∃ reason known, p = Ui.form spec p.id reason known
  new : x.1.promptId < p.id
  posted : ∃ s ∈ y.1.sent, s.prompt = some p
  taken : ∃ before, before ++ [l] <+: y.2.received ∧ x.2.received <+: before
  message : l.msg = .submit p.id values
  held : HeldFor (y.2.clients l.client) p l.number values

section Answers

variable {x y z : World × Net} {p : Prompt} {l : Letter} {values : Values}

theorem after_snap {cli : Tui.Cli} (events : List Tui.Event) : (Tui.after cli events).snap = {} ∨
    ∃ written, .line (Tui.after cli events).snap written ∈ events := by
  induction events using List.reverseRecOn with
  | nil => exact Or.inl rfl
  | append_singleton events e ih =>
    rw [Tui.after_concat, Tui.App.handle_snap]
    have hkept : (Tui.after cli events).snap = {} ∨
        ∃ written, .line (Tui.after cli events).snap written ∈ events ++ [e] :=
      ih.imp_right fun ⟨written, h⟩ => ⟨written, List.mem_append_left _ h⟩
    cases e with
    | line snap written =>
      exact Or.inr ⟨written, List.mem_append_right _ (List.mem_singleton_self _)⟩
    | closed => exact hkept
    | key key written => exact hkept

/-- An answer that the daemon took was typed into the form of the prompt with its id. -/
theorem heldFor_of_taken (h : Coherent y) (hl : l ∈ y.2.received)
    (hmsg : l.msg = .submit p.id values) (hposted : ∃ s ∈ y.1.sent, s.prompt = some p) :
    HeldFor (y.2.clients l.client) p l.number values := by
  obtain ⟨s₀, hs₀, hp⟩ := hposted
  obtain ⟨past, e, rest, hhistory, hnumber, hsent⟩ := h.mail.arrived l (List.mem_append_left _ hl)
  rw [hmsg] at hsent
  obtain ⟨⟨q, hq, hid, hvalues⟩, hkey⟩ := Tui.handle_answers hsent
  -- whatever the client was sent with this id is this prompt
  have hvery : ∀ s ∈ published y.1, ∀ r, s.prompt = some r → r.id = p.id → r = p :=
    fun s hs r hr hrid => h.prompts.same s hs s₀ (List.mem_cons_of_mem _ hs₀) r p hr hp hrid
  have hseen : ∀ s w, .line s w ∈ past → s ∈ published y.1 := fun s w hs =>
    h.mail.seen l.client s w (hhistory ▸ List.mem_append_left _ hs)
  obtain rfl : q = p := by
    refine hvery _ ?_ q hq hid
    rcases after_snap past with hempty | ⟨w, hmem⟩
    · rw [hempty] at hq
      cases hq
    · exact hseen _ w hmem
  have hscreen : (Tui.after (y.2.clients l.client).cli past).promptId = some q.id := by
    rw [Tui.App.promptId, hq]
    rfl
  obtain ⟨older, snap, written, during, rfl, hshown⟩ := Tui.prompt_split hscreen
  have hall : ∀ s ∈ published y.1, s.prompt.map Prompt.id = some q.id → s.prompt = some q := by
    intro s hs hsid
    obtain ⟨r, hr, hrid⟩ := Option.map_eq_some_iff.mp hsid
    rw [hr, hvery s hs r hr hrid]
  have hbrought := hall snap (hseen snap written (by simp)) hshown.brought
  have hduring : ∀ s w, .line s w ∈ during → s.prompt = some q := fun s w hs =>
    hall s (hseen s w (List.mem_append_right _ (List.mem_cons_of_mem _ hs))) (hshown.shown s w hs)
  have halike : Tui.Alike q _ (Tui.after _ (.line snap written :: _)) :=
    Tui.alike_of_shown hshown.new hbrought hduring
  exact ⟨older, snap, written, during, e, rest, hhistory, hnumber, hbrought, hduring, hkey,
    hvalues.trans halike.formValues⟩

/-- The answer that ends the wait was taken meanwhile. -/
theorem waitForSubmission_taken (id : Nat) (hx : Coherent x) :
    wpOk net Coherent (Ui.waitForSubmission id) (fun values y => Later x y ∧
      ∃ before l, before ++ [l] <+: y.2.received ∧ x.2.received <+: before ∧
        l.msg = .submit id values) x := by
  refine wpOk_iterate (fun _ y => Coherent y ∧ Later x y) ⟨hx, .refl x⟩ fun _ y hy => ?_
  obtain ⟨hy, hlater⟩ := hy
  refine wpOk_step hy fun b z hs => ?_
  have hz : Coherent z := calm_step (by trivial) hy hs
  obtain ⟨m, hclients, hanswer⟩ := hs
  have hm := hlater.trans (later_of_many hclients)
  have hxz := hm.trans (later_of_answer hanswer)
  rcases tryRecv_cases hanswer with ⟨rfl, -⟩ | ⟨l, rest, -, rfl, hz'⟩
  · refine wpOk_step hz fun _ u hs => wpOk_pure (calm_step (by trivial) hz hs) ?_
    refine ⟨calm_step (by trivial) hz hs, hxz.trans ?_⟩
    obtain ⟨m', hclients', hanswer'⟩ := hs
    exact (later_of_many hclients').trans (later_of_answer hanswer')
  · cases hmsg : l.msg with
    | edit secret => exact wpOk_pure hz ⟨hz, hxz⟩
    | submit promptId values =>
      dsimp only
      split
      · rename_i hid
        refine wpOk_pure hz ⟨hxz, m.2.received, l, ?_, hm.received, hid ▸ hmsg⟩
        rw [hz']
      · exact wpOk_pure hz ⟨hz, hxz⟩

theorem later_of_step {β : Type} {e : Op β} {b : β} (h : net.step e x b y) : Later x y := by
  obtain ⟨m, hclients, hanswer⟩ := h
  exact (later_of_many hclients).trans (later_of_answer hanswer)

/-- An id that is given out is greater than all before. -/
theorem new_id {y z : World × Net} {id : Nat} (hy : Coherent y)
    (hs : net.step .nextPromptId y id z) : NewId z.1 id ∧ y.1.promptId < id := by
  obtain ⟨m, hclients, ⟨rfl, hw⟩, -⟩ := hs
  have hm := coherent_of_clients hy hclients
  refine ⟨⟨by rw [hw], fun s hs p hp => ?_⟩, ?_⟩
  · rw [hw] at hs
    exact Nat.lt_succ_of_le (hm.prompts.bound s hs p hp)
  · exact Nat.lt_succ_of_le (later_of_many hclients).promptId

/-- A prompt with a new id is sent. -/
theorem posted_form {z u : World × Net} {p : Prompt} (hz : Coherent z) (hnew : NewId z.1 p.id)
    (hs : net.step (.mutate fun s => { s with prompt := some p }) z () u) :
    Coherent u ∧ ∃ s ∈ u.1.sent, s.prompt = some p := by
  obtain ⟨m, hclients, ⟨how, -, hw⟩, hn⟩ := hs
  have hm := coherent_of_clients hz hclients
  have hworld : m.1 = z.1 := by
    clear hw hn hm
    induction hclients with
    | refl => rfl
    | tail _ hstep ih => exact hstep.1.trans ih
  have hw : u.1 = (m.1.mutate fun s => { s with prompt := some p }).overwrite how := hw
  refine ⟨⟨?_, ?_⟩, ?_⟩
  · rw [hw]
    exact (hm.prompts.post (hworld ▸ hnew)).congr rfl rfl le_rfl
  · have hgrow : ∀ s ∈ published m.1, s ∈ published u.1 := fun s hs => by
      rw [hw, published_overwrite]
      exact mem_published_mutate.mpr (Or.inl hs)
    rw [hn]
    exact hm.mail.grow hgrow
  · rw [hw]
    exact ⟨_, List.mem_append_right _ (List.mem_singleton_self _), rfl⟩

variable [Externals]

/-- What `ask` returns was typed into the form of the last prompt that it posted. -/
theorem ask_answered (spec : SecretSpec) (reason : String) (known : EnvMap) (hx : Coherent x) :
    wpOk net Coherent (Ui.ask spec reason known)
      (fun values y => ∃ p l, AnsweredBy spec values x y p l) x := by
  refine wpOk_iterate (fun _ y => Coherent y ∧ Later x y) ⟨hx, .refl x⟩ ?_
  rintro ⟨known, reason⟩ y ⟨hy, hxy⟩
  refine wpOk_step hy fun id z hs => ?_
  have hz : Coherent z := calm_step (by trivial) hy hs
  obtain ⟨hfresh, hlater⟩ := new_id hy hs
  have hnew : x.1.promptId < id := Nat.lt_of_le_of_lt hxy.promptId hlater
  have hxz := hxy.trans (later_of_step hs)
  refine wpOk_step hz fun _ u hs => ?_
  have hxu := hxz.trans (later_of_step hs)
  obtain ⟨hu, s, hs, hprompt⟩ := posted_form hz hfresh hs
  refine wpOk_seq (waitForSubmission_taken id hu) fun values v hv htaken => ?_
  obtain ⟨huv, before, l, htaken, hbefore, hmsg⟩ := htaken
  refine wpOk_step hv fun _ t hs' => ?_
  have ht : Coherent t := calm_step (by exact fun _ => Or.inl rfl) hv hs'
  have hvt := later_of_step hs'
  have hxt := (hxu.trans huv).trans hvt
  dsimp only
  cases haccept : acceptSubmission spec values with
  | ok accepted =>
    have hin : l ∈ t.2.received :=
      (htaken.trans hvt.received).subset (List.mem_append_right _ (List.mem_singleton_self l))
    have hform : ∃ s ∈ t.1.sent, s.prompt = some (Ui.form spec id reason known) :=
      ⟨s, (huv.trans hvt).sent.subset hs, hprompt⟩
    have hheld := heldFor_of_taken (p := Ui.form spec id reason known) ht hin hmsg hform
    have hnames : values.map Prod.fst = spec.fieldNames := by
      obtain ⟨older, snap, written, during, e, rest, -, -, -, -, -, rfl⟩ := hheld
      rw [Tui.formValues_names]
      simp [Ui.form, promptFields, SecretSpec.fieldNames, Function.comp_def]
    obtain rfl := acceptSubmission_form haccept hnames
    exact wpOk_pure ht ⟨_, l, ⟨reason, known, rfl⟩, hnew, hform,
      ⟨before, htaken.trans hvt.received, hxu.received.trans hbefore⟩, hmsg, hheld⟩
  | error e =>
    have shown : ∀ message, wpOk net Coherent (Ui.state "prompt" message)
        (fun _ o => Coherent o ∧ Later t o) t := fun message =>
      wp_mono (wp_and_run (state_stable "prompt" message t ht) fun _ _ run => run_later run)
        fun _ _ _ h _ _ => h
    refine wpOk_seq (shown _) fun _ o ho h => ?_
    exact wpOk_pure ho ⟨h.1, hxt.trans h.2⟩

theorem ask_stable (spec : SecretSpec) (reason : String) (known : EnvMap) :
    Stable net Coherent (Ui.ask spec reason known) :=
  fun _ hx => wp_mono (ask_answered spec reason known hx) fun _ _ hy _ => hy

end Answers

/-! ## The daemon -/

theorem readStored_quiet (spec : SecretSpec) : (readStored spec).Only Quiet := by
  refine Prog.only_bind (Prog.only_perform trivial) fun r => ?_
  split <;> trivial

theorem waitForChoice_quiet : Ui.waitForChoice.Only Quiet := by
  refine Prog.only_iterate fun _ => Prog.only_bind (Prog.only_perform trivial) fun m => ?_
  rcases m with _ | ⟨promptId, values⟩ | secret
  · exact Prog.only_bind (Prog.only_perform trivial) fun _ => trivial
  · trivial
  · trivial

theorem publishStored_stable (l : List SecretSpec) : Stable net Coherent (publishStored l) := by
  induction l with
  | nil => exact stable_pure _
  | cons s rest ih =>
    refine (quiet_stable (readStored_quiet s)).bind fun stored => ?_
    exact (setSecret_stable _ _ _).bind fun _ => ih

section Daemon

variable [Externals]

theorem validateUntilDecided_stable (spec : SecretSpec) (values : Values) (what : String)
    (timeout retry : Nat) :
    Stable net Coherent (validateUntilDecided spec values what timeout retry) := by
  refine stable_iterate fun attempt => (setSecret_stable _ _ _).bind fun _ => ?_
  refine (quiet_stable (validate_quiet spec values timeout)).bind fun verdict => ?_
  split
  · split
    · exact (blocked_stable false).bind fun _ => stable_pure _
    · exact stable_pure _
  · refine (setSecret_stable _ _ _).bind fun _ => (blocked_stable true).bind fun _ => ?_
    refine (state_stable _ _).bind fun _ => ?_
    exact (quiet_stable (Prog.only_perform (by trivial))).bind fun _ => stable_pure _

theorem promptUntilAccepted_stable (pid : Nat) (spec : SecretSpec) (ids : Ids) (known : EnvMap)
    (reason : String) (timeout retry : Nat) :
    Stable net Coherent (promptUntilAccepted pid spec ids known reason timeout retry) := by
  refine stable_iterate fun known => (setSecret_stable _ _ _).bind fun _ => ?_
  refine (ask_stable _ _ _).bind fun values => ?_
  refine (validateUntilDecided_stable _ _ _ _ _).bind fun verdict => ?_
  split
  · refine (quiet_stable (contextOf_quiet _ (writeSecret_quiet _ _ _ _))).bind fun _ => ?_
    refine (setSecret_stable _ _ _).bind fun _ => (state_stable _ _).bind fun _ => stable_pure _
  · exact (state_stable _ _).bind fun _ => stable_pure _
  · exact stable_fail _

theorem satisfy_stable (pid : Nat) (spec : SecretSpec) (ids : Ids) (timeout retry : Nat) :
    Stable net Coherent (satisfy pid spec ids timeout retry) := by
  have hstored : ∀ stored, Stable net Coherent (satisfyStored pid spec ids timeout retry stored) := by
    intro stored
    unfold satisfyStored
    split
    · exact (state_stable _ _).bind fun _ => promptUntilAccepted_stable _ _ _ _ _ _ _
    · exact (state_stable _ _).bind fun _ => promptUntilAccepted_stable _ _ _ _ _ _ _
    · refine (validateUntilDecided_stable _ _ _ _ _).bind fun verdict => ?_
      split
      · exact (setSecret_stable _ _ _).bind fun _ => state_stable _ _
      · exact (state_stable _ _).bind fun _ => promptUntilAccepted_stable _ _ _ _ _ _ _
      · exact stable_fail _
  refine (setSecret_stable _ _ _).bind fun _ => (state_stable _ _).bind fun _ => ?_
  refine (quiet_stable (Prog.only_perform (by trivial))).bind fun r => ?_
  split
  · exact hstored _
  · split
    · exact hstored _
    · exact stable_fail _

theorem editSession_stable (pid : Nat) (spec : Spec) (ids : List Ids) (timeout retry : Nat) :
    Stable net Coherent (editSession pid spec ids timeout retry) := by
  refine (publishStored_stable _).bind fun _ => ?_
  refine (mutate_stable (by exact fun _ => Or.inr rfl)).bind fun _ => (state_stable _ _).bind fun _ => ?_
  refine (quiet_stable waitForChoice_quiet).bind fun chosen => ?_
  refine (mutate_stable (by exact fun _ => Or.inr rfl)).bind fun _ => ?_
  split
  · exact stable_fail _
  · refine (quiet_stable (readStored_quiet _)).bind fun stored => (state_stable _ _).bind fun _ => ?_
    refine (promptUntilAccepted_stable _ _ _ _ _ _ _).bind fun _ => ?_
    exact (mutate_stable (by exact fun _ => Or.inl rfl)).bind fun _ => state_stable _ _

theorem resolveAll_quiet (l : List SecretSpec) : (resolveAll l).Only Quiet := by
  induction l with
  | nil => trivial
  | cons s rest ih =>
    exact Prog.only_bind (quiet_of_setup (resolveIds_setup s)) fun _ =>
      Prog.only_bind ih fun _ => trivial

theorem satisfyAll_stable (pid timeout retry : Nat) (l : List (SecretSpec × Ids)) :
    Stable net Coherent (satisfyAll pid timeout retry l) := by
  induction l with
  | nil => exact stable_pure _
  | cons s rest ih => exact (satisfy_stable _ _ _ _ _).bind fun _ => ih

theorem run_stable (pid : Nat) (cli : Cli) : Stable net Coherent (run pid cli) := by
  refine (quiet_stable (Prog.only_perform (by trivial))).bind fun text => ?_
  split
  · exact stable_fail _
  · split
    · exact stable_fail _
    · refine (quiet_stable (resolveAll_quiet _)).bind fun ids => ?_
      refine (quiet_stable (quiet_of_setup (prepareSocketParent_setup _))).bind fun _ => ?_
      refine (quiet_stable (Prog.only_perform (by exact trivial))).bind fun _ => ?_
      refine (quiet_stable (withContext_quiet _ (by exact trivial))).bind fun _ => ?_
      refine (quiet_stable (withContext_quiet _ (by exact trivial))).bind fun _ => ?_
      refine (mutate_stable (by exact fun _ => Or.inr rfl)).bind fun _ => ?_
      have hend : (do
          Prog.perform (.sleep 200)
          Prog.perform .removeSocket : Daemon Unit).Only Quiet :=
        Prog.only_bind (Prog.only_perform trivial) fun _ => Prog.only_perform trivial
      dsimp only
      split
      · refine (editSession_stable _ _ _ _ _).attempt.bind fun result => ?_
        split
        · exact stable_fail _
        · refine (quiet_stable (Prog.only_perform (by exact trivial))).bind fun _ => ?_
          refine (quiet_stable (Prog.only_perform (by exact trivial))).bind fun _ => ?_
          exact quiet_stable (Prog.only_orFail _)
      · refine (satisfyAll_stable _ _ _ _).bind fun _ => ?_
        refine (mutate_stable (by exact fun _ => Or.inl rfl)).bind fun _ => ?_
        refine (state_stable _ _).bind fun _ => ?_
        exact quiet_stable hend

theorem main_stable (pid : Nat) (cli : Cli) : Stable net Coherent (main pid cli) := by
  refine (run_stable pid cli).attempt.bind fun r => ?_
  split
  · exact stable_pure _
  · exact stable_fail _
  · refine (quiet_stable (Prog.only_perform (by trivial))).bind fun _ => ?_
    exact (quiet_stable (Prog.only_perform (by trivial))).bind fun _ => stable_pure _

end Daemon

/-! ## Every call of `ask` -/

/-- Nothing has happened yet. -/
structure Fresh (x : World × Net) : Prop where
  snapshot : x.1.snapshot = {}
  sent : x.1.sent = []
  history : ∀ i, (x.2.clients i).history = []
  outbox : ∀ i, (x.2.clients i).outbox = []
  queue : x.2.queue = []
  received : x.2.received = []

theorem Fresh.coherent {x : World × Net} (h : Fresh x) : Coherent x := by
  have hpublished : published x.1 = [{}] := by rw [published, h.sent]
  have hnone : ∀ s ∈ published x.1, s.prompt = none := by
    intro s hs
    rw [hpublished, List.mem_singleton] at hs
    rw [hs]
  refine ⟨⟨?_, fun s hs p hp => ?_, fun s hs s' hs' p p' hp => ?_⟩, ?_⟩
  · rw [h.snapshot, hpublished]
    exact List.mem_singleton_self _
  · rw [hnone s hs] at hp
    cases hp
  · rw [hnone s hs] at hp
    cases hp
  · have hletters : x.2.received ++ x.2.queue = [] := by rw [h.received, h.queue]; rfl
    refine ⟨fun i s w hs => ?_, fun i l hl => ?_, fun i l hl => ?_, fun l hl => ?_, fun i => ?_, ?_,
      fun i l hl => ?_⟩
    · rw [h.history i] at hs
      cases hs
    · rw [h.outbox i] at hl
      cases hl
    · rw [h.outbox i] at hl
      cases hl
    · rw [hletters] at hl
      cases hl
    · rw [h.outbox i]
      exact List.nodup_nil
    · rw [hletters]
      exact List.nodup_nil
    · rw [h.outbox i] at hl
      cases hl

/-- In every state that the daemon and its clients reach, no id stands for two prompts and no
message was taken twice; and whatever a call of `ask` returns there was typed into the form that
it posted, under its id. -/
theorem answers_belong_to_their_form [Externals] {pid : Nat} {cli : Cli} {x y : World × Net}
    {o : Option (Except Stop Nat)} (hfresh : Fresh x) (hreach : Run net (main pid cli) x o y) :
    Prompts y.1 ∧ (y.2.received.map Letter.tag).Nodup ∧
      ∀ spec reason known values z, Run net (Ui.ask spec reason known) y (some (.ok values)) z →
        ∃ p l, AnsweredBy spec values y z p l := by
  have hy := (main_stable pid cli).run hreach hfresh.coherent
  refine ⟨hy.prompts, ?_, fun spec reason known values z hask => ?_⟩
  · have honce := hy.mail.once
    rw [List.map_append, List.nodup_append] at honce
    exact honce.1
  · exact (ask_answered spec reason known hy).2 _ z hask values rfl

/-! ## An operator at one client -/

/-- The client 0 is sent the last snapshot. -/
def sampleLine (x : World × Net) : World × Net :=
  match (published x.1)[x.1.sent.length]? with
  | some snap =>
    if (x.2.clients 0).next ≤ x.1.sent.length ∧ (x.2.clients 0).app.daemonGone = false ∧
        (x.2.clients 0).app.returned = false then
      (x.1, x.2.set 0 { (x.2.clients 0).turn 0 (.line snap true) with next := x.1.sent.length + 1 })
    else x
  | none => x

def sampleKey (key : Tui.Key) (x : World × Net) : World × Net :=
  if (x.2.clients 0).app.returned = false then
    (x.1, x.2.set 0 ((x.2.clients 0).turn 0 (.key key true)))
  else x

def sampleCarry (x : World × Net) : World × Net :=
  match (x.2.clients 0).outbox with
  | l :: rest =>
    (x.1, { x.2.set 0 { x.2.clients 0 with outbox := rest } with queue := x.2.queue ++ [l] })
  | [] => x

/-- The operator types `y` into the form and submits it twice. -/
def sampleTyping (x : World × Net) : World × Net :=
  sampleCarry (sampleCarry (sampleKey ⟨.char 's', true⟩ (sampleKey ⟨.enter, false⟩
    (sampleKey ⟨.char 'y', false⟩ (sampleLine x)))))

theorem sampleLine_moves (x : World × Net) :
    Relation.ReflTransGen clientsMove x (sampleLine x) := by
  unfold sampleLine
  split
  · rename_i snap hsnap
    split
    · rename_i hopen
      exact .single ⟨rfl, .line 0 _ snap true hopen.1 hsnap hopen.2.1 hopen.2.2⟩
    · exact .refl
  · exact .refl

theorem sampleKey_moves (key : Tui.Key) (x : World × Net) :
    Relation.ReflTransGen clientsMove x (sampleKey key x) := by
  unfold sampleKey
  split
  · rename_i hopen
    exact .single ⟨rfl, .key 0 key true hopen⟩
  · exact .refl

theorem sampleCarry_moves (x : World × Net) :
    Relation.ReflTransGen clientsMove x (sampleCarry x) := by
  unfold sampleCarry
  split
  · rename_i l rest houtbox
    exact .single ⟨rfl, .carry 0 l rest houtbox⟩
  · exact .refl

theorem sampleTyping_moves (x : World × Net) :
    Relation.ReflTransGen clientsMove x (sampleTyping x) :=
  ((((sampleLine_moves x).trans (sampleKey_moves _ _)).trans (sampleKey_moves _ _)).trans
    (sampleKey_moves _ _)).trans ((sampleCarry_moves _).trans (sampleCarry_moves _))

def sampleReply [Externals] : {β : Type} → Op β → World × Net → β × (World × Net)
  | _, .tryRecv, x =>
    let m := sampleTyping x
    match m.2.queue with
    | [] => (none, m)
    | l :: rest => (some l.msg, (m.1, { m.2 with queue := rest, received := m.2.received ++ [l] }))
  | _, e, x => ((reply {} e x.1 []).1, ((reply {} e x.1 []).2, x.2))

def sampleOracle [Externals] : Oracle Op (World × Net) where
  answer e x := some (sampleReply e x)

theorem sampleReply_step [Externals] {β : Type} (e : Op β) (x : World × Net) (b : β)
    (y : World × Net) (h : sampleOracle.answer e x = some (b, y)) : net.step e x b y := by
  have h : sampleReply e x = (b, y) := Option.some.inj h
  have hother : ∀ {β : Type} (e : Op β), Answer e x.1 (reply {} e x.1 []).1 (reply {} e x.1 []).2 :=
    fun e => (scripted_sound {} e (x.1, []) _ _ rfl).1
  cases e with
  | tryRecv =>
    refine ⟨sampleTyping x, sampleTyping_moves x, ?_⟩
    simp only [sampleReply] at h
    show match (sampleTyping x).2.queue with
      | [] => b = none ∧ y = sampleTyping x
      | l :: rest => b = some l.msg ∧ y = ((sampleTyping x).1, { (sampleTyping x).2 with
          queue := rest, received := (sampleTyping x).2.received ++ [l] })
    cases hqueue : (sampleTyping x).2.queue with
    | nil =>
      simp only [hqueue] at h
      cases h
      exact ⟨rfl, rfl⟩
    | cons l rest =>
      simp only [hqueue] at h
      cases h
      exact ⟨rfl, rfl⟩
  | _ =>
    cases h
    exact ⟨x, .refl, hother _, rfl⟩

/-- One client, and nothing has happened. -/
def sampleStart : World × Net :=
  (World.initial sampleCli.socket (.ok twoText) twoFiles, { clients := fun _ => {} })

def sampleAsk : Option (Except Stop Values) × (World × Net) :=
  letI := samplePrograms twoText twoSpec
  (Ui.ask secretB "no credentials stored yet" EnvMap.empty).exec sampleOracle 20 sampleStart

/-- The second answer waits in the queue, and the first is what was typed. -/
theorem answers_belong_to_their_form_sample : sampleAsk.2.2.queue.length = 1 ∧
    ∃ p l, AnsweredBy secretB [("B", "y")] sampleStart sampleAsk.2 p l := by
  let _ := samplePrograms twoText twoSpec
  have hend : sampleAsk.1 = some (.ok [("B", "y")]) := by decide +kernel
  have hask : Run net (Ui.ask secretB "no credentials stored yet" EnvMap.empty) sampleStart
      (some (.ok [("B", "y")])) sampleAsk.2 := by
    rw [← hend]
    exact exec_run (fun e x b y h => sampleReply_step e x b y h) 20 _ sampleStart
  refine ⟨by decide +kernel, ?_⟩
  have hreach : Run net (main 7 sampleCli) sampleStart none sampleStart := .cut _ _
  exact (answers_belong_to_their_form ⟨rfl, rfl, fun _ => rfl, fun _ => rfl, rfl, rfl⟩
    hreach).2.2 _ _ _ _ _ hask

end Foundrix.OperatorSecrets

import Foundrix.OperatorSecrets.Release

/-!
# The stages of a boot run

Every change of the snapshot goes to the clients by itself, so each has to make sense on its
own. In a boot run each describes one stage: the secrets before some index are satisfied and
those after it are pending.

* `Consistent`: what every snapshot says.
* `Shows`: the snapshot at a point of the program.
* `satisfy_stages`, `satisfyAll_stages`: one lemma for each function that changes it.
* `snapshots_describe_one_stage`: all snapshots of a boot run.
-/

namespace Foundrix.OperatorSecrets

open Effect Text

/-! ## What a snapshot says -/

/-- The snapshot describes one stage of working through the secrets with these names. -/
structure StageAt (names : List String) (i : Nat) (snap : Snapshot) : Prop where
  names : snap.secrets.map SecretStatus.name = names
  before : ∀ j e, snap.secrets[j]? = some e → j < i → e.state = .satisfied
  after : ∀ j e, snap.secrets[j]? = some e → i < j → e.state = .pending
  prompt : ∀ p, snap.prompt = some p →
    (∃ e, snap.secrets[i]? = some e ∧ p.secret = e.name ∧ e.state = .needsInput) ∧
      snap.blocked = false ∧ snap.done = false
  blocked : snap.blocked = true →
    (∃ e, snap.secrets[i]? = some e ∧ (e.state = .undecided ∨ e.state = .validating)) ∧
      snap.prompt = none
  done : snap.done = true →
    (∀ e ∈ snap.secrets, e.state = .satisfied) ∧ snap.blocked = false ∧ snap.prompt = none

def Consistent (names : List String) (snap : Snapshot) : Prop := ∃ i, StageAt names i snap

/-- All snapshots that were sent are consistent. -/
def Published (names : List String) (w : World) : Prop :=
  ∀ snap ∈ w.sent, Consistent names snap

/-! ## The snapshot at a point of the program -/

/-- Names and states, in their order. -/
def Snapshot.states (snap : Snapshot) : List (String × SecretState) :=
  snap.secrets.map fun e => (e.name, e.state)

/-- The states while the secret `name` has its turn. -/
def stage (before : List String) (name : String) (after : List String) (st : SecretState) :
    List (String × SecretState) :=
  before.map (fun n => (n, .satisfied)) ++ (name, st) :: after.map fun n => (n, .pending)

/-- What is known of a snapshot during the run. -/
structure Shows (l : List (String × SecretState)) (b : Bool) (p : Option Prompt)
    (snap : Snapshot) : Prop where
  states : snap.states = l
  blocked : snap.blocked = b
  prompt : snap.prompt = p
  done : snap.done = false

/-- Flag and prompt go with the state of the secret whose turn it is. -/
structure Fits (name : String) (st : SecretState) (b : Bool) (p : Option Prompt) : Prop where
  prompt : ∀ q, p = some q → q.secret = name ∧ st = .needsInput ∧ b = false
  blocked : b = true → (st = .undecided ∨ st = .validating) ∧ p = none

/-- Without flag and prompt any state will do. -/
theorem fits_free (name : String) (st : SecretState) : Fits name st false none := ⟨nofun, nofun⟩

theorem fits_blocked {name : String} {st : SecretState} {b : Bool}
    (h : st = .undecided ∨ st = .validating) : Fits name st b none := ⟨nofun, fun _ => ⟨h, rfl⟩⟩

section Stages

variable {before after : List String} {name : String} {st : SecretState} {b : Bool}
  {p : Option Prompt} {snap : Snapshot}

theorem states_getElem? {j : Nat} {e : SecretStatus} (h : snap.secrets[j]? = some e) :
    snap.states[j]? = some (e.name, e.state) := by
  rw [Snapshot.states, List.getElem?_map, h, Option.map_some]

theorem stage_before {j : Nat} {n : String} {t : SecretState} (hj : j < before.length)
    (h : (stage before name after st)[j]? = some (n, t)) : t = .satisfied := by
  rw [stage, List.getElem?_append_left (by simpa using hj), List.getElem?_map] at h
  obtain ⟨_, -, he⟩ := Option.map_eq_some_iff.mp h
  exact (Prod.mk.inj he).2.symm

theorem stage_at : (stage before name after st)[before.length]? = some (name, st) := by
  rw [stage, List.getElem?_append_right (by simp)]
  simp

theorem stage_after {j : Nat} {n : String} {t : SecretState} (hj : before.length < j)
    (h : (stage before name after st)[j]? = some (n, t)) : t = .pending := by
  obtain ⟨k, rfl⟩ : ∃ k, j = before.length + (k + 1) := ⟨j - before.length - 1, by omega⟩
  rw [stage, List.getElem?_append_right (by simp)] at h
  simp only [List.length_map, Nat.add_sub_cancel_left, List.getElem?_cons_succ,
    List.getElem?_map] at h
  obtain ⟨_, -, he⟩ := Option.map_eq_some_iff.mp h
  exact (Prod.mk.inj he).2.symm

theorem stage_names : (stage before name after st).map Prod.fst = before ++ name :: after := by
  simp [stage, Function.comp_def]

theorem names_eq (snap : Snapshot) : snap.secrets.map SecretStatus.name =
    snap.states.map Prod.fst := by
  simp [Snapshot.states, Function.comp_def]

/-- The snapshot of a secret that has its turn is consistent. -/
theorem Shows.consistent (h : Shows (stage before name after st) b p snap) (hfits : Fits name st b p) :
    Consistent (before ++ name :: after) snap := by
  have hcurrent : ∃ e, snap.secrets[before.length]? = some e ∧ e.name = name ∧ e.state = st := by
    have hstate : snap.states[before.length]? = some (name, st) := by rw [h.states, stage_at]
    rw [Snapshot.states, List.getElem?_map] at hstate
    obtain ⟨e, he, hpair⟩ := Option.map_eq_some_iff.mp hstate
    exact ⟨e, he, (Prod.mk.inj hpair).1, (Prod.mk.inj hpair).2⟩
  obtain ⟨e, he, hname, hst⟩ := hcurrent
  refine ⟨before.length, ?_, ?_, ?_, ?_, ?_, ?_⟩
  · rw [names_eq, h.states, stage_names]
  · intro j e' he' hj
    have hstate := states_getElem? he'
    rw [h.states] at hstate
    exact stage_before hj hstate
  · intro j e' he' hj
    have hstate := states_getElem? he'
    rw [h.states] at hstate
    exact stage_after hj hstate
  · intro q hq
    obtain ⟨hsecret, hneeds, hfree⟩ := hfits.prompt q (h.prompt.symm.trans hq)
    exact ⟨⟨e, he, hsecret.trans hname.symm, hst.trans hneeds⟩, h.blocked.trans hfree, h.done⟩
  · intro hblocked
    obtain ⟨hstates, hnone⟩ := hfits.blocked (h.blocked.symm.trans hblocked)
    exact ⟨⟨e, he, hst ▸ hstates⟩, h.prompt.trans hnone⟩
  · intro hdone
    rw [h.done] at hdone
    cases hdone

/-- Where all secrets are satisfied, the run may be over or not. -/
theorem consistent_of_satisfied {names : List String}
    (hstates : snap.states = names.map fun n => (n, .satisfied)) (hblocked : snap.blocked = false)
    (hprompt : snap.prompt = none) : Consistent names snap := by
  have hall : ∀ e ∈ snap.secrets, e.state = .satisfied := by
    intro e he
    have hmem : (e.name, e.state) ∈ snap.states := List.mem_map_of_mem he
    rw [hstates] at hmem
    obtain ⟨n, -, hn⟩ := List.mem_map.mp hmem
    exact (Prod.mk.inj hn).2.symm
  refine ⟨snap.secrets.length, ?_, ?_, ?_, ?_, ?_, fun _ => ⟨hall, hblocked, hprompt⟩⟩
  · rw [names_eq, hstates]
    simp [Function.comp_def]
  · intro j e he _
    exact hall e (List.mem_of_getElem? he)
  · intro j e he hj
    obtain ⟨hlt, -⟩ := List.getElem?_eq_some_iff.mp he
    omega
  · intro p hp
    rw [hprompt] at hp
    cases hp
  · intro hb
    rw [hblocked] at hb
    cases hb

/-- Where all secrets are pending, the first one has its turn. -/
theorem consistent_of_pending {names : List String}
    (h : Shows (names.map fun n => (n, .pending)) false none snap) : Consistent names snap := by
  cases names with
  | nil => exact consistent_of_satisfied h.states h.blocked h.prompt
  | cons n names =>
    have hfirst : Shows (stage [] n names .pending) false none snap := h
    exact hfirst.consistent (fits_free n .pending)

/-- Only the secret of the name changes its state. -/
theorem setStatus_states {l : List SecretStatus} {st' : SecretState} {detail : String}
    (hname : name ∉ before) (h : l.map (fun e => (e.name, e.state)) = stage before name after st) :
    (setStatus name st' detail l).map (fun e => (e.name, e.state)) =
      stage before name after st' := by
  induction before generalizing l with
  | nil =>
    cases l with
    | nil => cases h
    | cons e l =>
      obtain ⟨hfirst, hrest⟩ := List.cons.inj h
      have hsame : e.name = name := (Prod.mk.inj hfirst).1
      simp only [setStatus, hsame, beq_self_eq_true, if_true, List.map_cons, hrest]
      rfl
  | cons n before ih =>
    cases l with
    | nil => cases h
    | cons e l =>
      obtain ⟨hfirst, hrest⟩ := List.cons.inj h
      have hother : ¬ (e.name == name) = true := by
        rw [(Prod.mk.inj hfirst).1, beq_iff_eq]
        exact fun hn => hname (hn ▸ List.mem_cons_self)
      have htail := ih (fun hn => hname (List.mem_cons_of_mem _ hn)) hrest
      rw [setStatus, if_neg hother, List.map_cons, htail]
      exact congrArg (· :: stage before name after st') hfirst

end Stages

/-! ## Operations -/

/-- Everything but a change of the snapshot. -/
def Quiet : {β : Type} → Op β → Prop
  | _, .mutate _ => False
  | _, _ => True

section Points

variable {names : List String} {w : World}

theorem quiet_step {β : Type} {e : Op β} {x y : World} {r : β} (he : Quiet e)
    (hs : world.step e x r y) : y.snapshot = x.snapshot ∧ y.sent = x.sent := by
  change Answer e x r y at hs
  cases e with
  | mutate f => exact he.elim
  | nextPromptId =>
    rw [hs.2]
    exact ⟨rfl, rfl⟩
  | eprintln line =>
    obtain rfl := hs
    exact ⟨rfl, rfl⟩
  | writeState line =>
    obtain ⟨how, -, rfl⟩ := hs
    exact ⟨rfl, rfl⟩
  | _ =>
    rw [answer_mute (by trivial) hs]
    exact ⟨rfl, rfl⟩

/-- A program that does not change the snapshot. -/
theorem quiet_stages {α : Type} {p : Daemon α} (hp : p.Only Quiet) (hw : Published names w) :
    wp world (Published names) p (fun _ w' => w'.snapshot = w.snapshot) w := by
  have h : wp world (fun w' => w'.snapshot = w.snapshot ∧ w'.sent = w.sent) p
      (fun _ w' => w'.snapshot = w.snapshot ∧ w'.sent = w.sent) w := by
    refine wp_only hp (fun e x r y he hx hs => ?_) ⟨rfl, rfl⟩
    obtain ⟨hsnapshot, hsent⟩ := quiet_step he hs
    exact ⟨hsnapshot.trans hx.1, hsent.trans hx.2⟩
  refine wp_mono (wp_always_mono h fun w' hw' => ?_) fun _ _ _ hw' => hw'.1
  rw [Published, hw'.2]
  exact hw

theorem quiet_ok {α : Type} {p : Daemon α} (hp : p.Only Quiet) (hw : Published names w) :
    wpOk world (Published names) p (fun _ w' => w'.snapshot = w.snapshot) w :=
  wp_mono (quiet_stages hp hw) fun _ _ _ hsame _ _ => hsame

/-- A change of the snapshot to a consistent one. -/
theorem mutate_stages {f : Snapshot → Snapshot} (hw : Published names w)
    (hf : Consistent names (f w.snapshot)) :
    wpOk world (Published names) (Ui.mutate f) (fun _ w' => w'.snapshot = f w.snapshot) w := by
  refine wp_perform hw fun u w' hs => ?_
  obtain ⟨how, -, rfl⟩ := hs
  refine ⟨fun snap hsnap => ?_, fun _ _ => rfl⟩
  rcases List.mem_append.mp hsnap with hsnap | hsnap
  · exact hw snap hsnap
  · exact List.mem_singleton.mp hsnap ▸ hf

/-- A headline. -/
theorem state_stages {phase message : String} (hw : Published names w)
    (h : Consistent names { w.snapshot with phase := phase, message := message }) :
    wpOk world (Published names) (Ui.state phase message)
      (fun _ w' => w'.snapshot = { w.snapshot with phase := phase, message := message }) w := by
  refine wpOk_seq (quiet_ok (Prog.only_perform trivial) hw) fun _ w' hw' hsame => ?_
  rw [← hsame] at h ⊢
  exact mutate_stages hw' h

end Points

/-! ## While a secret has its turn -/

section Turn

variable {before after : List String} {name : String} {st : SecretState} {b : Bool}
  {p : Option Prompt} {w : World}

/-- What is known while the secret `name` has its turn: its state, the flag and the prompt. -/
structure Turn (before : List String) (name : String) (after : List String) (st : SecretState)
    (b : Bool) (p : Option Prompt) (w : World) : Prop where
  published : Published (before ++ name :: after) w
  shows_ : Shows (stage before name after st) b p w.snapshot

theorem setSecret_turn {st' : SecretState} (h : Turn before name after st b p w)
    (hname : name ∉ before) (hfits : Fits name st' b p) (detail : String) :
    wpOk world (Published (before ++ name :: after)) (Ui.setSecret name st' detail)
      (fun _ w' => Turn before name after st' b p w') w := by
  have hshows : Shows (stage before name after st') b p
      { w.snapshot with secrets := setStatus name st' detail w.snapshot.secrets } :=
    ⟨setStatus_states hname h.shows_.states, h.shows_.blocked, h.shows_.prompt, h.shows_.done⟩
  refine wpOk_mono (mutate_stages h.published (hshows.consistent hfits)) fun _ w' hw' hsame => ?_
  exact ⟨hw', hsame ▸ hshows⟩

theorem blocked_turn {b' : Bool} (h : Turn before name after st b p w) (hfits : Fits name st b' p) :
    wpOk world (Published (before ++ name :: after)) (Ui.blocked b')
      (fun _ w' => Turn before name after st b' p w') w := by
  have hshows : Shows (stage before name after st) b' p { w.snapshot with blocked := b' } :=
    ⟨h.shows_.states, rfl, h.shows_.prompt, h.shows_.done⟩
  refine wpOk_mono (mutate_stages h.published (hshows.consistent hfits)) fun _ w' hw' hsame => ?_
  exact ⟨hw', hsame ▸ hshows⟩

theorem prompt_turn {p' : Option Prompt} (h : Turn before name after st b p w)
    (hfits : Fits name st b p') :
    wpOk world (Published (before ++ name :: after)) (Ui.mutate fun s => { s with prompt := p' })
      (fun _ w' => Turn before name after st b p' w') w := by
  have hshows : Shows (stage before name after st) b p' { w.snapshot with prompt := p' } :=
    ⟨h.shows_.states, h.shows_.blocked, rfl, h.shows_.done⟩
  refine wpOk_mono (mutate_stages h.published (hshows.consistent hfits)) fun _ w' hw' hsame => ?_
  exact ⟨hw', hsame ▸ hshows⟩

theorem quiet_turn {α : Type} {q : Daemon α} (hq : q.Only Quiet)
    (h : Turn before name after st b p w) :
    wpOk world (Published (before ++ name :: after)) q
      (fun _ w' => Turn before name after st b p w') w := by
  refine wpOk_mono (quiet_ok hq h.published) fun _ w' hw' hsame => ?_
  exact ⟨hw', hsame ▸ h.shows_⟩

/-- The headline changes nothing else. -/
theorem state_turn (h : Turn before name after st b p w) (hfits : Fits name st b p)
    (phase message : String) :
    wpOk world (Published (before ++ name :: after)) (Ui.state phase message)
      (fun _ w' => Turn before name after st b p w') w := by
  have hshows : Shows (stage before name after st) b p
      { w.snapshot with phase := phase, message := message } :=
    ⟨h.shows_.states, h.shows_.blocked, h.shows_.prompt, h.shows_.done⟩
  refine wpOk_mono (state_stages h.published (hshows.consistent hfits)) fun _ w' hw' hsame => ?_
  exact ⟨hw', hsame ▸ hshows⟩

end Turn

/-! ## Functions that leave the snapshot alone -/

theorem waitForSubmission_quiet (id : Nat) : (Ui.waitForSubmission id).Only Quiet := by
  refine Prog.only_iterate fun _ => Prog.only_bind (Prog.only_perform trivial) fun m => ?_
  rcases m with _ | ⟨promptId, values⟩ | secret
  · exact Prog.only_bind (Prog.only_perform trivial) fun _ => trivial
  · dsimp only
    split <;> trivial
  · trivial

theorem withContext_quiet (context : String) {e : Op (Except IoError Unit)} (he : Quiet e) :
    (Daemon.withContext context e).Only Quiet := by
  refine Prog.only_bind (Prog.only_perform he) fun r => ?_
  cases r <;> trivial

theorem orCleanup_quiet (tmp context : String) (c : FileOp) :
    (orCleanup tmp context c).Only Quiet := by
  refine Prog.only_bind (Prog.only_perform trivial) fun r => ?_
  cases r with
  | ok u => trivial
  | error e => exact Prog.only_bind (Prog.only_perform trivial) fun _ => trivial

theorem writeSecret_quiet (pid : Nat) (spec : SecretSpec) (ids : Ids) (values : Values) :
    (writeSecret pid spec ids values).Only Quiet := by
  unfold writeSecret
  cases parent spec.path with
  | none => trivial
  | some dir =>
    refine Prog.only_bind (withContext_quiet _ trivial) fun _ => ?_
    cases parseMode spec.mode with
    | none => trivial
    | some mode =>
      refine Prog.only_bind (Prog.only_perform trivial) fun _ => ?_
      refine Prog.only_bind (withContext_quiet _ trivial) fun _ => ?_
      refine Prog.only_bind (withContext_quiet _ trivial) fun _ => ?_
      refine Prog.only_bind (withContext_quiet _ trivial) fun _ => ?_
      refine Prog.only_bind (orCleanup_quiet _ _ _) fun _ => ?_
      refine Prog.only_bind (orCleanup_quiet _ _ _) fun _ => ?_
      exact Prog.only_bind (orCleanup_quiet _ _ _) fun _ => Prog.only_perform trivial

theorem contextOf_quiet {α : Type} (context : String) {q : Daemon α} (hq : q.Only Quiet) :
    (contextOf context q).Only Quiet := by
  refine Prog.only_bind (Prog.only_attempt hq) fun r => ?_
  rcases r with (e | m) | a <;> trivial

theorem quiet_of_setup {α : Type} {q : Daemon α} (hq : q.Only Setup) : q.Only Quiet := by
  refine hq.mono fun e he => ?_
  cases e with
  | mutate => exact he.elim
  | _ => trivial

section Conduct

variable [Externals] {before after : List String} {st : SecretState} {w : World}

theorem validate_quiet (spec : SecretSpec) (values : Values) (timeout : Nat) :
    (validate spec values timeout).Only Quiet := by
  unfold validate
  cases spec.validateCommand with
  | none => trivial
  | some argv =>
    cases argv with
    | nil => trivial
    | cons program args => exact Prog.only_bind (Prog.only_perform trivial) fun _ => trivial

/-! ## One secret -/

/-- The prompt of a secret is up while an answer is awaited, and down afterwards. -/
theorem ask_stages (spec : SecretSpec) (reason : String) (known : EnvMap)
    (h : Turn before spec.name after .needsInput false none w) :
    wpOk world (Published (before ++ spec.name :: after)) (Ui.ask spec reason known)
      (fun _ w' => Turn before spec.name after .needsInput false none w') w := by
  refine wpOk_iterate (fun _ w' => Turn before spec.name after .needsInput false none w') h ?_
  rintro ⟨known, reason⟩ w h
  refine wpOk_seq (quiet_turn (Prog.only_perform trivial) h) fun id w₁ _ h₁ => ?_
  have hfits : Fits spec.name .needsInput false (some (Ui.form spec id reason known)) := by
    refine ⟨fun q hq => ?_, nofun⟩
    obtain rfl := Option.some.inj hq
    exact ⟨rfl, rfl, rfl⟩
  refine wpOk_seq (prompt_turn h₁ hfits) fun _ w₂ _ h₂ => ?_
  refine wpOk_seq (quiet_turn (waitForSubmission_quiet id) h₂) fun values w₃ _ h₃ => ?_
  refine wpOk_seq (prompt_turn h₃ (fits_free _ _)) fun _ w₄ hw₄ h₄ => ?_
  dsimp only
  cases acceptSubmission spec values with
  | ok v => exact wpOk_pure hw₄ h₄
  | error e =>
    refine wpOk_seq (state_turn h₄ (fits_free _ _) _ _) fun _ w₅ hw₅ h₅ => ?_
    exact wpOk_pure hw₅ h₅

/-- The flag is up from a verdict that cannot decide to the next one that can. -/
theorem validateUntilDecided_stages (spec : SecretSpec) (hname : spec.name ∉ before)
    (values : Values) (what : String) (timeout retry : Nat)
    (h : Turn before spec.name after st false none w) :
    wpOk world (Published (before ++ spec.name :: after))
      (validateUntilDecided spec values what timeout retry)
      (fun _ w' => Turn before spec.name after .validating false none w') w := by
  refine wpOk_iterate (fun attempt w' =>
    ∃ st, Turn before spec.name after st (decide (0 < attempt)) none w') ⟨st, h⟩ ?_
  rintro attempt w ⟨st, h⟩
  refine wpOk_seq (setSecret_turn h hname (fits_blocked (Or.inr rfl)) _) fun _ w₁ _ h₁ => ?_
  refine wpOk_seq (quiet_turn (validate_quiet spec values timeout) h₁) fun verdict w₂ hw₂ h₂ => ?_
  by_cases hdecided : verdict.status ≠ .error
  · rw [if_pos hdecided]
    by_cases hmore : attempt + 1 > 1
    · rw [if_pos hmore]
      refine wpOk_seq (blocked_turn h₂ (fits_free _ _)) fun _ w₃ hw₃ h₃ => ?_
      exact wpOk_pure hw₃ h₃
    · rw [if_neg hmore]
      obtain rfl : attempt = 0 := by omega
      exact wpOk_pure hw₂ h₂
  · rw [if_neg hdecided]
    refine wpOk_seq (setSecret_turn h₂ hname (fits_blocked (Or.inl rfl)) _) fun _ w₃ _ h₃ => ?_
    refine wpOk_seq (blocked_turn h₃ (fits_blocked (Or.inl rfl))) fun _ w₄ _ h₄ => ?_
    refine wpOk_seq (state_turn h₄ (fits_blocked (Or.inl rfl)) _ _) fun _ w₅ _ h₅ => ?_
    refine wpOk_seq (quiet_turn (Prog.only_perform trivial) h₅) fun _ w₆ hw₆ h₆ => ?_
    refine wpOk_pure hw₆ ⟨.undecided, ?_⟩
    simpa using h₆

theorem promptUntilAccepted_stages {pid : Nat} (spec : SecretSpec) (hname : spec.name ∉ before)
    (ids : Ids) (known : EnvMap) (reason : String) (timeout retry : Nat)
    (h : Turn before spec.name after st false none w) :
    wpOk world (Published (before ++ spec.name :: after))
      (promptUntilAccepted pid spec ids known reason timeout retry)
      (fun _ w' => Turn before spec.name after .satisfied false none w') w := by
  refine wpOk_iterate (fun _ w' => ∃ st, Turn before spec.name after st false none w') ⟨st, h⟩ ?_
  rintro ⟨known, reason⟩ w ⟨st, h⟩
  refine wpOk_seq (setSecret_turn h hname (fits_free _ _) _) fun _ w₁ _ h₁ => ?_
  refine wpOk_seq (ask_stages spec reason known h₁) fun values w₂ _ h₂ => ?_
  refine wpOk_seq (validateUntilDecided_stages spec hname values _ timeout retry h₂)
    fun verdict w₃ hw₃ h₃ => ?_
  dsimp only
  cases verdict.status with
  | valid =>
    refine wpOk_seq (quiet_turn (contextOf_quiet _ (writeSecret_quiet _ _ _ _)) h₃)
      fun _ w₄ _ h₄ => ?_
    refine wpOk_seq (setSecret_turn h₄ hname (fits_free _ _) _) fun _ w₅ _ h₅ => ?_
    refine wpOk_seq (state_turn h₅ (fits_free _ _) _ _) fun _ w₆ hw₆ h₆ => ?_
    exact wpOk_pure hw₆ h₆
  | invalid =>
    refine wpOk_seq (state_turn h₃ (fits_free _ _) _ _) fun _ w₄ hw₄ h₄ => ?_
    exact wpOk_pure hw₄ ⟨_, h₄⟩
  | error => exact wpOk_fail hw₃

theorem satisfyStored_stages {pid : Nat} (spec : SecretSpec) (hname : spec.name ∉ before)
    (ids : Ids) (timeout retry : Nat) (stored : Option EnvMap)
    (h : Turn before spec.name after st false none w) :
    wpOk world (Published (before ++ spec.name :: after))
      (satisfyStored pid spec ids timeout retry stored)
      (fun _ w' => Turn before spec.name after .satisfied false none w') w := by
  unfold satisfyStored
  cases classifyStored spec stored with
  | absent =>
    refine wpOk_seq (state_turn h (fits_free _ _) _ _) fun _ w₁ _ h₁ => ?_
    exact promptUntilAccepted_stages spec hname ids _ _ timeout retry h₁
  | incomplete reason usable =>
    refine wpOk_seq (state_turn h (fits_free _ _) _ _) fun _ w₁ _ h₁ => ?_
    exact promptUntilAccepted_stages spec hname ids _ _ timeout retry h₁
  | complete values =>
    refine wpOk_seq (validateUntilDecided_stages spec hname values _ timeout retry h)
      fun verdict w₁ hw₁ h₁ => ?_
    dsimp only
    cases verdict.status with
    | valid =>
      refine wpOk_seq (setSecret_turn h₁ hname (fits_free _ _) _) fun _ w₂ _ h₂ => ?_
      exact state_turn h₂ (fits_free _ _) _ _
    | invalid =>
      refine wpOk_seq (state_turn h₁ (fits_free _ _) _ _) fun _ w₂ _ h₂ => ?_
      exact promptUntilAccepted_stages spec hname ids _ _ timeout retry h₂
    | error => exact wpOk_fail hw₁

/-- From its turn on until it is satisfied, the other secrets stay as they are. -/
theorem satisfy_stages {pid : Nat} (spec : SecretSpec) (hname : spec.name ∉ before) (ids : Ids)
    (timeout retry : Nat) (h : Turn before spec.name after st false none w) :
    wpOk world (Published (before ++ spec.name :: after)) (satisfy pid spec ids timeout retry)
      (fun _ w' => Turn before spec.name after .satisfied false none w') w := by
  refine wpOk_seq (setSecret_turn h hname (fits_free _ _) _) fun _ w₁ _ h₁ => ?_
  refine wpOk_seq (state_turn h₁ (fits_free _ _) _ _) fun _ w₂ _ h₂ => ?_
  refine wpOk_seq (quiet_turn (Prog.only_perform trivial) h₂) fun r w₃ hw₃ h₃ => ?_
  cases r with
  | ok text => exact satisfyStored_stages spec hname ids timeout retry _ h₃
  | error e =>
    dsimp only
    split
    · exact satisfyStored_stages spec hname ids timeout retry _ h₃
    · exact wpOk_fail hw₃

/-! ## All secrets -/

/-- Between two secrets: some are satisfied, the others pending. -/
structure Between (before rest : List String) (w : World) : Prop where
  published : Published (before ++ rest) w
  shows_ : Shows (before.map (fun n => (n, .satisfied)) ++ rest.map fun n => (n, .pending))
    false none w.snapshot

omit [Externals] in
theorem Turn.between {name : String} (h : Turn before name after .satisfied false none w) :
    Between (before ++ [name]) after w := by
  refine ⟨?_, ?_⟩
  · rw [List.append_assoc]
    exact h.published
  · have hstates := h.shows_
    unfold stage at hstates
    simpa using hstates

theorem satisfyAll_stages (pid timeout retry : Nat) (before : List String) (l : List (SecretSpec × Ids))
    (hnames : (before ++ l.map fun s => s.1.name).Nodup)
    (h : Between before (l.map fun s => s.1.name) w) :
    wpOk world (Published (before ++ l.map fun s => s.1.name)) (satisfyAll pid timeout retry l)
      (fun _ w' => Between (before ++ l.map fun s => s.1.name) [] w') w := by
  induction l generalizing before w with
  | nil =>
    refine wpOk_pure h.published ?_
    simpa using h
  | cons s l ih =>
    obtain ⟨s, ids⟩ := s
    have hsplit : before ++ ((s, ids) :: l).map (fun s => s.1.name) =
        (before ++ [s.name]) ++ l.map fun s => s.1.name := by simp
    have hname : s.name ∉ before := by
      rw [hsplit] at hnames
      intro hmem
      have hnodup := (List.nodup_append.mp hnames).1
      exact (List.nodup_append.mp hnodup).2.2 s.name hmem s.name (List.mem_singleton_self _) rfl
    have hturn : Turn before s.name (l.map fun s => s.1.name) .pending false none w :=
      ⟨h.published, h.shows_⟩
    refine wpOk_seq (satisfy_stages s hname ids timeout retry hturn) fun _ w₁ _ h₁ => ?_
    rw [hsplit] at hnames ⊢
    exact ih _ hnames h₁.between

/-! ## The run -/

theorem resolveAll_stages {names : List String} (l : List SecretSpec) (hw : Published names w) :
    wpOk world (Published names) (resolveAll l)
      (fun ids w' => ids.length = l.length ∧ w'.snapshot = w.snapshot) w := by
  induction l generalizing w with
  | nil => exact wpOk_pure hw ⟨rfl, rfl⟩
  | cons s l ih =>
    refine wpOk_seq (quiet_ok (quiet_of_setup (resolveIds_setup s)) hw) fun ids w₁ hw₁ h₁ => ?_
    refine wpOk_seq (ih hw₁) fun more w₂ hw₂ h₂ => ?_
    refine wpOk_pure hw₂ ⟨?_, h₂.2.trans h₁⟩
    rw [List.length_cons, List.length_cons, h₂.1]

/-- The secrets are published, worked through, and the run is over. -/
theorem run_stages (pid : Nat) {cli : Cli} {text : String} {spec : Spec}
    (hboot : cli.edit = false) (hspec : Spec.parse text = .ok spec)
    (hnames : (spec.secrets.map SecretSpec.name).Nodup) (files : Files) :
    wpOk world (Published (spec.secrets.map SecretSpec.name)) (run pid cli) (fun _ _ => True)
      (World.initial cli.socket (.ok text) files) := by
  have hw : Published (spec.secrets.map SecretSpec.name)
      (World.initial cli.socket (.ok text) files) := nofun
  refine wpOk_step hw fun r w₀ hs => ?_
  obtain ⟨rfl, rfl⟩ := hs
  simp only [World.initial, hspec]
  refine wpOk_seq (resolveAll_stages spec.secrets hw) fun ids w₁ hw₁ h₁ => ?_
  obtain ⟨hlength, h₁⟩ := h₁
  refine wpOk_seq (quiet_ok (quiet_of_setup (prepareSocketParent_setup _)) hw₁) fun _ w₂ hw₂ h₂ => ?_
  refine wpOk_seq (quiet_ok (Prog.only_perform trivial) hw₂) fun _ w₃ hw₃ h₃ => ?_
  refine wpOk_seq (quiet_ok (withContext_quiet _ trivial) hw₃) fun _ w₄ hw₄ h₄ => ?_
  refine wpOk_seq (quiet_ok (withContext_quiet _ trivial) hw₄) fun _ w₅ hw₅ h₅ => ?_
  have hempty : w₅.snapshot = {} := by rw [h₅, h₄, h₃, h₂, h₁]
  have hzip : ((spec.secrets.zip ids).map fun s => s.1.name) = spec.secrets.map SecretSpec.name := by
    have hcomp : (fun s : SecretSpec × Ids => s.1.name) = SecretSpec.name ∘ Prod.fst := rfl
    rw [hcomp, ← List.map_map, List.map_fst_zip (by omega)]
  have hshows : Shows ((spec.secrets.map SecretSpec.name).map fun n => (n, .pending)) false none
      { w₅.snapshot with secrets := spec.secrets.map initialStatus } := by
    rw [hempty]
    refine ⟨?_, rfl, rfl, rfl⟩
    simp [Snapshot.states, initialStatus, Function.comp_def]
  refine wpOk_seq (mutate_stages hw₅ (consistent_of_pending hshows)) fun _ w₆ hw₆ h₆ => ?_
  rw [hboot]
  have hbetween : Between [] ((spec.secrets.zip ids).map fun s => s.1.name) w₆ := by
    rw [hzip]
    exact ⟨hw₆, h₆ ▸ hshows⟩
  have hall := satisfyAll_stages pid cli.validatorTimeoutSecs cli.retryIntervalSecs []
    (spec.secrets.zip ids) (by rw [hzip]; exact hnames) hbetween
  rw [hzip, List.nil_append] at hall
  refine wpOk_seq hall fun _ w₇ hw₇ h₇ => ?_
  have hstates : w₇.snapshot.states =
      (spec.secrets.map SecretSpec.name).map fun n => (n, .satisfied) := by
    have hend := h₇.shows_.states
    rwa [List.map_nil, List.append_nil] at hend
  refine wpOk_seq (mutate_stages hw₇ (consistent_of_satisfied hstates rfl rfl))
    fun _ w₈ hw₈ h₈ => ?_
  refine wpOk_seq (state_stages hw₈ ?_) fun _ w₉ hw₉ _ => ?_
  · rw [h₈]
    exact consistent_of_satisfied hstates rfl rfl
  refine wpOk_mono (quiet_ok (Prog.only_bind (Prog.only_perform trivial) fun _ =>
    Prog.only_perform trivial) hw₉) fun _ _ _ _ => trivial

/-- Every snapshot that a boot run sends describes one stage, wherever the run is. -/
theorem snapshots_describe_one_stage {pid : Nat} {cli : Cli} {text : String} {spec : Spec}
    (hboot : cli.edit = false) (hspec : Spec.parse text = .ok spec)
    (hnames : (spec.secrets.map SecretSpec.name).Nodup) {files : Files}
    {o : Option (Except Stop Nat)} {w : World}
    (h : Run world (main pid cli) (World.initial cli.socket (.ok text) files) o w) :
    ∀ snap ∈ w.sent, Consistent (spec.secrets.map SecretSpec.name) snap := by
  have hrun := run_stages pid hboot hspec hnames files
  have hmain : wpOk world (Published (spec.secrets.map SecretSpec.name)) (main pid cli)
      (fun _ _ => True) (World.initial cli.socket (.ok text) files) := by
    refine wpOk_seq (wpOk_attempt (Q := fun _ _ => True) (wp_mono hrun fun _ _ _ _ => trivial))
      fun r w₁ hw₁ _ => ?_
    rcases r with (e | m) | u
    · refine wpOk_mono (quiet_ok (Prog.only_bind (Prog.only_perform trivial) fun _ =>
        Prog.only_bind (Prog.only_perform trivial) fun _ => trivial) hw₁) fun _ _ _ _ => trivial
    · exact wpOk_fail hw₁
    · exact wpOk_pure hw₁ trivial
  exact hmain.1 _ h.toCut

end Conduct

/-- The process with two secrets, where the operator answers the prompt for the second. -/
def twoProcess : Option (Except Stop Nat) × (World × List Event) :=
  letI := samplePrograms twoText twoSpec
  (main 7 sampleCli).exec (scripted { messages := [.submit 1 [("B", "y")]] }) 200
    (World.initial sampleCli.socket (.ok twoText) twoFiles, [])

/-- The snapshots of that process, the last of which says that the run is over. -/
theorem snapshots_describe_one_stage_sample :
    (twoProcess.2.1.sent.map Snapshot.done).getLast? = some true ∧
      ∀ snap ∈ twoProcess.2.1.sent, Consistent ["a", "b"] snap := by
  let _ := samplePrograms twoText twoSpec
  have hrun : Run observed (main 7 sampleCli) (World.initial sampleCli.socket (.ok twoText) twoFiles, [])
      twoProcess.1 twoProcess.2 := scripted_run _ _ _ _
  have hworld : Run world (main 7 sampleCli) (World.initial sampleCli.socket (.ok twoText) twoFiles)
      twoProcess.1 twoProcess.2.1 := by
    refine Run.map (f := Prod.fst) (fun e x b y hs => ?_) hrun
    exact hs.1
  constructor
  · decide +kernel
  · exact snapshots_describe_one_stage rfl two_parse (by decide) hworld

end Foundrix.OperatorSecrets

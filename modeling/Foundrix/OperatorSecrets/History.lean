import Foundrix.Effect.Wp
import Foundrix.OperatorSecrets.Daemon

/-!
# The history of a run

What a run of the daemon does, as a list of events: the prompts it posts, the messages it
takes, the verdicts it gets, the files it reads and the file operations it performs.

* `Event`, `record`, `observed`: the events, and the world with a log of them.
* `Answered`, `Decides`, `Proven`: what a history says of a value list.
* `Inv`: what holds of the history and the world throughout every run.
-/

namespace Foundrix.OperatorSecrets

open Effect

/-! ## Events -/

inductive Event where
  /-- The prompt was put up: a snapshot shows it and the one before did not. -/
  | asked (p : Prompt)
  | received (m : ClientMsg)
  | judged (argv : List String) (values : Values) (v : Verdict)
  | read (path : String)
  | file (c : FileOp) (r : Except IoError Unit)

/-- The event of an operation, if it is one. -/
def record [Externals] : {β : Type} → Op β → World → β → Option Event
  | _, .mutate f, w, _ =>
    if (f w.snapshot).prompt = w.snapshot.prompt then none
    else (f w.snapshot).prompt.map .asked
  | _, .tryRecv, _, m => m.map .received
  | _, .runValidator argv values timeout, _, outcome =>
    some (.judged argv values (verdictOf (argv.headD "") values timeout outcome))
  | _, .readToString path, _, _ => some (.read path)
  | _, .file c, _, r => some (.file c r)
  | _, _, _, _ => none

/-- The world with the history of the run. -/
def observed [Externals] : Handler Op (World × List Event) := world.logged record

/-- The world in which the process starts. -/
def World.initial (socket : String) (specText : Except IoError String) (files : Files) : World :=
  { home := homeOf socket, specText, files }

/-! ## What a history says of values -/

/-- Messages other than an answer to the prompt `id`. -/
def Dropped (id : Nat) (es : List Event) : Prop :=
  ∀ e ∈ es, ∃ m, e = .received m ∧ ∀ l, m ≠ .submit id l

/-- The history ends with the answer to a prompt for this secret, and the answer was
accepted as `vs`. -/
def Answered [Externals] (spec : SecretSpec) (vs : Values) (es : List Event) : Prop :=
  ∃ before id reason known dropped l,
    es = before ++ .asked (Ui.form spec id reason known) ::
      (dropped ++ [.received (.submit id l)]) ∧
    Dropped id dropped ∧ acceptSubmission spec l = .ok vs

/-- These events are one decision of the validator of this secret on `vs`: verdicts that
cannot decide, and `v` at the end. Without a validator there is nothing to see. -/
def Decides (spec : SecretSpec) (vs : Values) (v : Verdict) (es : List Event) : Prop :=
  match spec.validateCommand with
  | none => es = [] ∧ v = presenceVerdict spec vs
  | some argv => ∃ undecided, es = undecided ++ [.judged argv vs v] ∧
      ∀ e ∈ undecided, ∃ v', e = .judged argv vs v' ∧ v'.status = .error

/-- The values are proven for the secret: a prompt for it was answered with them, and then
the last verdict on them is valid. -/
def Proven [Externals] (spec : SecretSpec) (vs : Values) (es : List Event) : Prop :=
  ∃ asked decision v, es = asked ++ decision ∧ Answered spec vs asked ∧
    Decides spec vs v decision ∧ v.status = .valid

/-- A validator found the values valid at some point of the history. -/
def JudgedValid (spec : SecretSpec) (vs : Values) (es : List Event) : Prop :=
  match spec.validateCommand with
  | none => (presenceVerdict spec vs).status = .valid
  | some argv => ∃ v, .judged argv vs v ∈ es ∧ v.status = .valid

/-- The file operations of `write_secret`. -/
def writeOps (pid : Nat) (spec : SecretSpec) (ids : Ids) (values : Values) : List FileOp :=
  match parent spec.path with
  | none => []
  | some dir =>
    .createDirAll dir ::
      match parseMode spec.mode with
      | none => []
      | some mode =>
        let tmp := tempPath pid dir spec.path
        [.removeFile tmp, .createNew tmp 0o600, .writeAll tmp (encodeEnvFile values),
          .syncAll tmp, .chown tmp ids.uid ids.gid, .setPermissions tmp mode,
          .rename tmp spec.path]

/-- The operation `c` comes from writing the secret with proven values. -/
def WritesProven [Externals] (pid : Nat) (spec : SecretSpec) (before : List Event)
    (c : FileOp) : Prop :=
  ∃ ids vs proven ops, before = proven ++ ops ∧ Proven spec vs proven ∧
    (∀ e ∈ ops, ∃ c' ∈ writeOps pid spec ids vs, ∃ r, e = .file c' r) ∧
    c ∈ writeOps pid spec ids vs

theorem Decides.judgedValid {spec : SecretSpec} {vs : Values} {v : Verdict} {es : List Event}
    (h : Decides spec vs v es) (hv : v.status = .valid) : JudgedValid spec vs es := by
  unfold Decides at h
  unfold JudgedValid
  cases hc : spec.validateCommand with
  | none =>
    rw [hc] at h
    exact h.2 ▸ hv
  | some argv =>
    rw [hc] at h
    obtain ⟨undecided, rfl, -⟩ := h
    exact ⟨v, by simp, hv⟩

theorem JudgedValid.mono {spec : SecretSpec} {vs : Values} {es es' : List Event}
    (h : JudgedValid spec vs es) (hsub : es ⊆ es') : JudgedValid spec vs es' := by
  unfold JudgedValid at *
  cases hc : spec.validateCommand with
  | none => rwa [hc] at h
  | some argv =>
    rw [hc] at h
    obtain ⟨v, hm, hv⟩ := h
    exact ⟨v, hsub hm, hv⟩

/-! ## The invariant -/

/-- `allowed before c` says that the file operation `c` may come after `before`; a prompt
has an id above those of all prompts before it. -/
def Sound (allowed : List Event → FileOp → Prop) (before : List Event) : Event → Prop
  | .asked p => ∀ q, .asked q ∈ before → q.id < p.id
  | .file c _ => c.touches ≠ [] → allowed before c
  | _ => True

structure Inv (allowed : List Event → FileOp → Prop) (x : World × List Event) : Prop where
  sound : Chronicle (Sound allowed) x.2
  bound : ∀ p, .asked p ∈ x.2 → p.id ≤ x.1.promptId
  current : ∀ p, x.1.snapshot.prompt = some p → .asked p ∈ x.2

/-- Nothing has happened that the history shows, or the files that are not the daemon's own. -/
structure Still (x y : World × List Event) : Prop where
  log : y.2 = x.2
  kept : Kept x.1 y.1

theorem Still.trans {x y z : World × List Event} (h : Still x y) (h' : Still y z) : Still x z :=
  ⟨h'.log.trans h.log, h.kept.trans h'.kept⟩

variable {allowed : List Event → FileOp → Prop}

theorem inv_initial (socket : String) (specText : Except IoError String) (files : Files) :
    Inv allowed (World.initial socket specText files, []) :=
  ⟨chronicle_nil _, by simp, nofun⟩

/-- The operations that leave no event and no other trace than a snapshot without a prompt
of its own. -/
def Silent : {β : Type} → Op β → Prop
  | _, .mutate f => ∀ s, (f s).prompt = s.prompt ∨ (f s).prompt = none
  | _, .nextPromptId | _, .tryRecv | _, .runValidator _ _ _ => False
  | _, .readToString _ | _, .file _ => False
  | _, _ => True

/-- A silent operation is no event, and it touches no file but the daemon's own. -/
theorem record_silent [Externals] {β : Type} {e : Op β} {w : World} {b : β} (he : Silent e) :
    record e w b = none ∧ e.touches = [] := by
  cases e with
  | mutate f => rcases he w.snapshot with h | h <;> simp [record, h, Op.touches]
  | nextPromptId => exact he.elim
  | tryRecv => exact he.elim
  | runValidator => exact he.elim
  | readToString => exact he.elim
  | file => exact he.elim
  | _ => exact ⟨rfl, rfl⟩

theorem silent_step [Externals] {β : Type} {e : Op β} {x y : World × List Event} {b : β}
    (he : Silent e) (hI : Inv allowed x) (hs : observed.step e x b y) :
    Inv allowed y ∧ Still x y := by
  obtain ⟨w, h⟩ := x
  obtain ⟨w', h'⟩ := y
  obtain ⟨hsound, hbound, hcurrent⟩ := hI
  obtain ⟨hans : Answer e w b w', hlog⟩ := hs
  obtain ⟨hnone, htouch⟩ := record_silent (w := w) (b := b) he
  obtain rfl : h' = h := by simpa [hnone] using hlog
  obtain ⟨hhome, hframe⟩ := answer_kept hans
  have hkept : Kept w w' := ⟨hhome, fun l hl => hframe l hl (by simp [htouch])⟩
  have same : w'.promptId = w.promptId → w'.snapshot = w.snapshot →
      Inv allowed (w', h') ∧ Still (w, h') (w', h') := fun h1 h2 =>
    ⟨⟨hsound, fun p hp => h1 ▸ hbound p hp, fun p hp => hcurrent p (h2 ▸ hp)⟩, rfl, hkept⟩
  cases e with
  | mutate f =>
    obtain ⟨how, -, rfl⟩ := hans
    refine ⟨⟨hsound, hbound, fun p hp => ?_⟩, rfl, hkept⟩
    rw [World.overwrite_snapshot, World.mutate_snapshot] at hp
    rcases he w.snapshot with h1 | h1
    · exact hcurrent p (h1 ▸ hp)
    · rw [h1] at hp
      cases hp
  | nextPromptId => exact he.elim
  | tryRecv => exact he.elim
  | runValidator => exact he.elim
  | readToString => exact he.elim
  | file => exact he.elim
  | eprintln =>
    obtain rfl := hans
    exact same rfl rfl
  | writeState =>
    obtain ⟨how, -, rfl⟩ := hans
    exact same rfl rfl
  | _ =>
    have hfiles := answer_mute (by trivial) hans
    exact same (by rw [hfiles]) (by rw [hfiles])

end Foundrix.OperatorSecrets

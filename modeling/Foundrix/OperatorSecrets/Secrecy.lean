import Foundrix.Effect.Lockstep
import Foundrix.Effect.Wp
import Foundrix.OperatorSecrets.Alike

/-!
# Sensitive values are not seen

Two boot runs that take the same messages and start from the same files, sensitive values
apart, and whose validators answer the same, send the same snapshots and write the same lines
to the state file, where what is told of the validators' stderr is redacted to the same text.
The two runs go in lockstep, apart from the time that messages take to arrive.

* `Inputs`, `fed`: a run and everything that comes to it from outside.
* `Trial.told`: what a run of a validator tells of its stderr.
* `Level`: two worlds that differ in hidden values only.
-/

namespace Foundrix.OperatorSecrets

open Effect Text

/-! ## What comes from outside -/

/-- The error of an I/O result. -/
def fault {α : Type} : Except IoError α → Option IoError
  | .ok _ => none
  | .error e => some e

/-- What an operation is told by the host. -/
inductive Circumstance where
  /-- The error of a file operation or of the reading of a file, if it has one. -/
  | fault (e : Option IoError)
  | text (content : String)
  | found (line : Option String)
  | done (r : Except IoError Unit)
  | info (r : Except IoError DirMeta)
  | uid (n : Nat)
  /-- How much of the text is missing in the state file, if it was opened and can be read. -/
  | overwritten (missing : Option (Option Nat))
deriving DecidableEq

/-- What is missing of the text to be written. -/
def Overwriting.missing (body : String) : Overwriting → Option (Option Nat)
  | .untouched => none
  | .wrote text => some (text.map fun t => body.toList.length - t.toList.length)

def circumstance : {β : Type} → Op β → β → Option Circumstance
  | _, .file _, r => some (.fault (fault r))
  | _, .readToString _, r => some (.fault (fault r))
  | _, .readDb _, content => some (.text content)
  | _, .getent _ _, line => some (.found line)
  | _, .createDir _ _, r => some (.done r)
  | _, .bindSocket, r => some (.done r)
  | _, .restrictSocket _, r => some (.done r)
  | _, .metadata _, r => some (.info r)
  | _, .geteuid, n => some (.uid n)
  | _, _, _ => none

/-- A run of a validator: the values that it is given, and what comes of it. -/
structure Trial where
  values : Values
  outcome : ValidatorOutcome
deriving DecidableEq

/-- What comes to a run from outside, in the order in which it is taken. -/
structure Inputs where
  messages : List ClientMsg := []
  trials : List Trial := []
  circumstances : List Circumstance := []

/-- The state file is written, as the next circumstance has it. -/
def TakesWriting (body : String) (x y : World × Inputs) : Prop :=
  ∃ how : Overwriting, how.Of body ∧ y.1.files = how.effect x.1.home.stateFile x.1.files ∧
    x.2 = { y.2 with circumstances := .overwritten (how.missing body) :: y.2.circumstances }

/-- An operation takes its answer from the inputs. -/
def Takes {β : Type} (e : Op β) (x : World × Inputs) (b : β) (y : World × Inputs) : Prop :=
  match e, b with
  | .tryRecv, m => x.2 = { y.2 with messages := m.toList ++ y.2.messages }
  | .runValidator _ values _, outcome =>
    x.2 = { y.2 with trials := ⟨values, outcome⟩ :: y.2.trials }
  | .mutate f, _ => TakesWriting ((f x.1.snapshot).message ++ "\n") x y
  | .writeState line, _ => TakesWriting (line ++ "\n") x y
  | .removeSocket, _ => ∃ r, EntryAnswers x.1.home.socket (fun _ => none) x.1.files r y.1.files ∧
      x.2 = { y.2 with circumstances := .done r :: y.2.circumstances }
  | e, b => x.2 = { y.2 with circumstances := (circumstance e b).toList ++ y.2.circumstances }

/-- The world with the inputs that are still to come. -/
def fed : Handler Op (World × Inputs) where
  step e x b y := Answer e x.1 b y.1 ∧ Takes e x b y

/-- A run on inputs is a run. -/
theorem fed_run {α : Type} {p : Daemon α} {x y : World × Inputs} {o : Option (Except Stop α)}
    (h : Run fed p x o y) : Run world p x.1 o y.1 :=
  Run.map (f := Prod.fst) (fun _ _ _ _ hs => And.left hs) h

/-! ## Worlds on a level -/

/-- Submitted pairs of the same name, with values that may differ in a sensitive field of
the prompt `id`. -/
def SubmittedAlike (hidden : Nat → String → Bool) (id : Nat) (a b : String × String) : Prop :=
  a.1 = b.1 ∧ ValueAlike (hidden id a.1) a.2 b.2

def MsgAlike (hidden : Nat → String → Bool) : ClientMsg → ClientMsg → Prop
  | .submit id₁ l₁, .submit id₂ l₂ => id₁ = id₂ ∧ List.Forall₂ (SubmittedAlike hidden id₁) l₁ l₂
  | .edit s₁, .edit s₂ => s₁ = s₂
  | _, _ => False

/-- Inputs that differ in sensitive values only: the validators write the same to both pipes and
end alike. -/
structure Inputs.Alike (hidden : Nat → String → Bool) (i₁ i₂ : Inputs) : Prop where
  messages : List.Forall₂ (MsgAlike hidden) i₁.messages i₂.messages
  outcomes : i₁.trials.map Trial.outcome = i₂.trials.map Trial.outcome
  circumstances : i₁.circumstances = i₂.circumstances

/-- What a validator that cannot decide wrote to stderr, as far as it is told: the values that it
was given are redacted. -/
def Trial.told [Externals] (t : Trial) : Option String :=
  match t.outcome with
  | .answered stdout stderr _ =>
    if (parseValidatorOutput (trim stdout)).status = .error ∧ trim stderr ≠ "" then
      some (stderrDetail (trim stderr) t.values)
    else none
  | _ => none

/-- Inputs of which the same is told. -/
structure Inputs.Told [Externals] (hidden : Nat → String → Bool) (i₁ i₂ : Inputs) : Prop
    extends Inputs.Alike hidden i₁ i₂ where
  told : i₁.trials.map Trial.told = i₂.trials.map Trial.told

/-- Files of a secret that differ in the values of its sensitive fields only. -/
def FileAlike (s : SecretSpec) (e₁ e₂ : Option FileEntry) : Prop :=
  Option.Rel (fun e₁ e₂ => Option.Rel
    (fun t₁ t₂ => StoredAlike s (parseEnvFile t₁) (parseEnvFile t₂)) e₁.text e₂.text) e₁ e₂

/-- The same has been shown: to the clients, in the state file and in the journal. -/
structure Seen (x₁ x₂ : World × Inputs) : Prop where
  sent : x₁.1.sent = x₂.1.sent
  stateFile : x₁.1.stateFile = x₂.1.stateFile
  journal : x₁.1.journal = x₂.1.journal

/-- The worlds differ in hidden values only; `rest` are the secrets that are still to be
read. -/
structure Level [Externals] (hidden : Nat → String → Bool) (rest : List SecretSpec)
    (x₁ x₂ : World × Inputs) : Prop extends Seen x₁ x₂ where
  home : x₁.1.home = x₂.1.home
  snapshot : x₁.1.snapshot = x₂.1.snapshot
  promptId : x₁.1.promptId = x₂.1.promptId
  specText : x₁.1.specText = x₂.1.specText
  inputs : x₁.2.Told hidden x₂.2
  files : ∀ s ∈ rest, FileAlike s (x₁.1.files (locate s.path)) (x₂.1.files (locate s.path))

/-- The second world has shown at least what the first one has. -/
structure Shown (x y : World × Inputs) : Prop where
  sent : x.1.sent <+: y.1.sent
  stateFile : x.1.stateFile <+: y.1.stateFile
  journal : x.1.journal <+: y.1.journal

/-- `hidden` tells for every prompt sent which of its fields are sensitive. -/
def HiddenBy (hidden : Nat → String → Bool) (x : World × Inputs) : Prop :=
  ∀ snap ∈ x.1.sent, ∀ p, snap.prompt = some p → ∀ f ∈ p.fields, hidden p.id f.name = f.sensitive

theorem Seen.shown {x₁ x₂ : World × Inputs} (h : Seen x₁ x₂) : Shown x₁ x₂ ∧ Shown x₂ x₁ :=
  ⟨⟨h.sent ▸ List.prefix_rfl, h.stateFile ▸ List.prefix_rfl, h.journal ▸ List.prefix_rfl⟩,
    ⟨h.sent ▸ List.prefix_rfl, h.stateFile ▸ List.prefix_rfl, h.journal ▸ List.prefix_rfl⟩⟩

section

variable [Externals] {hidden : Nat → String → Bool}

omit [Externals] in
/-- What has been shown stays shown. -/
theorem answer_shown {β : Type} {e : Op β} {w w' : World} {b : β} (h : Answer e w b w') :
    w.sent <+: w'.sent ∧ w.stateFile <+: w'.stateFile ∧ w.journal <+: w'.journal := by
  have same : ∀ {v : World}, v.sent = w.sent → v.stateFile = w.stateFile →
      v.journal = w.journal →
      w.sent <+: v.sent ∧ w.stateFile <+: v.stateFile ∧ w.journal <+: v.journal :=
    fun h1 h2 h3 => ⟨h1 ▸ List.prefix_rfl, h2 ▸ List.prefix_rfl, h3 ▸ List.prefix_rfl⟩
  cases e with
  | mutate f =>
    obtain ⟨how, -, rfl⟩ := h
    exact ⟨List.prefix_append _ _, List.prefix_append _ _, List.prefix_rfl⟩
  | eprintln line => exact h ▸ ⟨List.prefix_rfl, List.prefix_rfl, List.prefix_append _ _⟩
  | writeState line =>
    obtain ⟨how, -, rfl⟩ := h
    exact ⟨List.prefix_rfl, List.prefix_append _ _, List.prefix_rfl⟩
  | nextPromptId => exact same (by rw [h.2]) (by rw [h.2]) (by rw [h.2])
  | _ =>
    rw [answer_mute (by trivial) h]
    exact same rfl rfl rfl

omit [Externals] in
theorem comparison : Comparison fed Shown (HiddenBy hidden) where
  refl _ := ⟨List.prefix_rfl, List.prefix_rfl, List.prefix_rfl⟩
  trans h h' := ⟨h.sent.trans h'.sent, h.stateFile.trans h'.stateFile, h.journal.trans h'.journal⟩
  shown hs :=
    have h := answer_shown hs.1
    ⟨h.1, h.2.1, h.2.2⟩
  back hs h := fun snap hsnap => h snap ((answer_shown hs.1).1.subset hsnap)

/-! ## Operations on both sides -/

/-- Both programs ended alike: with related values and the worlds on a level, or with the
same error and the same shown. -/
def Both {α₁ α₂ : Type} (R : World × Inputs → World × Inputs → Prop) (S : α₁ → α₂ → Prop) :
    Except Stop α₁ → World × Inputs → Except Stop α₂ → World × Inputs → Prop
  | .ok a₁, x₁, .ok a₂, x₂ => S a₁ a₂ ∧ R x₁ x₂
  | .error e₁, x₁, .error e₂, x₂ => e₁ = e₂ ∧ Seen x₁ x₂
  | _, _, _, _ => False

/-- The operations that answer alike in worlds on a level. -/
def Common : {β : Type} → Op β → Prop
  | _, .tryRecv | _, .runValidator _ _ _ | _, .readToString _ => False
  | _, .file c => c.touches = []
  | _, _ => True

variable {rest : List SecretSpec} {x₁ x₂ y₁ y₂ : World × Inputs}

/-- Worlds on a level that have not changed, but for what has been taken of the inputs. -/
theorem Level.next (h : Level hidden rest x₁ x₂) (hw₁ : y₁.1 = x₁.1) (hw₂ : y₂.1 = x₂.1)
    (hin : y₁.2.Told hidden y₂.2) : Level hidden rest y₁ y₂ := by
  obtain ⟨w₁, i₁⟩ := x₁
  obtain ⟨w₂, i₂⟩ := x₂
  obtain ⟨v₁, j₁⟩ := y₁
  obtain ⟨v₂, j₂⟩ := y₂
  obtain rfl : v₁ = w₁ := hw₁
  obtain rfl : v₂ = w₂ := hw₂
  exact { h with inputs := hin }

/-- Worlds on a level of which the files have changed. -/
theorem Level.refiled {w₁ w₂ : World} {i₁ i₂ j₁ j₂ : Inputs} {fs₁ fs₂ : Files}
    {rest' : List SecretSpec} (h : Level hidden rest (w₁, i₁) (w₂, i₂)) (hin : j₁.Told hidden j₂)
    (hf : ∀ s ∈ rest', FileAlike s (fs₁ (locate s.path)) (fs₂ (locate s.path))) :
    Level hidden rest' ({ w₁ with files := fs₁ }, j₁) ({ w₂ with files := fs₂ }, j₂) :=
  { h with
    inputs := hin
    files := hf }

omit [Externals] in
theorem fault_unit {r₁ r₂ : Except IoError Unit} (h : fault r₁ = fault r₂) : r₁ = r₂ := by
  rcases r₁ with e₁ | u₁ <;> rcases r₂ with e₂ | u₂
  · exact congrArg Except.error (Option.some.inj h)
  · cases h
  · cases h
  · rfl

/-- Both sides meet the same circumstance. -/
theorem circumstance_alike {i₁ i₂ j₁ j₂ : Inputs} {c₁ c₂ : Circumstance}
    (h : i₁.Told hidden i₂) (h₁ : i₁ = { j₁ with circumstances := c₁ :: j₁.circumstances })
    (h₂ : i₂ = { j₂ with circumstances := c₂ :: j₂.circumstances }) :
    c₁ = c₂ ∧ j₁.Told hidden j₂ := by
  subst h₁ h₂
  obtain ⟨hq, hrest⟩ := List.cons.inj h.circumstances
  exact ⟨hq, ⟨h.messages, h.outcomes, hrest⟩, h.told⟩

/-- A file operation on each side: the same result, and all but the files on a level. -/
theorem file_both {c₁ c₂ : FileOp} {r₁ r₂ : Except IoError Unit} (h : Level hidden rest x₁ x₂)
    (hs₁ : fed.step (.file c₁) x₁ r₁ y₁) (hs₂ : fed.step (.file c₂) x₂ r₂ y₂) :
    r₁ = r₂ ∧ Level hidden [] y₁ y₂ ∧ c₁.Answers x₁.1.files r₁ y₁.1.files ∧
      c₂.Answers x₂.1.files r₂ y₂.1.files := by
  obtain ⟨w₁, i₁⟩ := x₁
  obtain ⟨w₂, i₂⟩ := x₂
  obtain ⟨v₁, j₁⟩ := y₁
  obtain ⟨v₂, j₂⟩ := y₂
  obtain ⟨⟨fs₁, hans₁, rfl⟩, ht₁⟩ := hs₁
  obtain ⟨⟨fs₂, hans₂, rfl⟩, ht₂⟩ := hs₂
  obtain ⟨hq, hin⟩ := circumstance_alike h.inputs ht₁ ht₂
  exact ⟨fault_unit (Circumstance.fault.inj hq), h.refiled hin (by simp), hans₁, hans₂⟩

theorem Level.withFiles (h : Level hidden [] x₁ x₂)
    (hf : ∀ s ∈ rest, FileAlike s (x₁.1.files (locate s.path)) (x₂.1.files (locate s.path))) :
    Level hidden rest x₁ x₂ :=
  { h with files := hf }

/-! ## The daemon's own files on both sides -/

section Own

variable {s : SecretSpec} {fs₁ fs₂ fs₁' fs₂' : Files} {l : Location}

omit [Externals] in
theorem fileAlike_of_text {e₁ e₂ : FileEntry} (h : e₁.text = e₂.text) :
    FileAlike s (some e₁) (some e₂) := by
  refine .some ?_
  rw [h]
  cases e₂.text with
  | none => exact .none
  | some t =>
    refine .some fun f _ => ?_
    cases parseEnvFile t f.name with
    | none => exact .none
    | some v => exact .some (Or.inl rfl)

omit [Externals] in
/-- Files that are written over with the same text. -/
theorem overwrite_alike (how : Overwriting) (at_ : Location)
    (h : FileAlike s (fs₁ l) (fs₂ l)) :
    FileAlike s (how.effect at_ fs₁ l) (how.effect at_ fs₂ l) := by
  cases how with
  | untouched => exact h
  | wrote text =>
    by_cases hl : l = at_
    · rw [hl, Overwriting.effect, Overwriting.effect, Files.set_same, Files.set_same]
      refine fileAlike_of_text ?_
      cases fs₁ at_ <;> cases fs₂ at_ <;> rfl
    · rw [Overwriting.effect_frame _ _ hl, Overwriting.effect_frame _ _ hl]
      exact h

omit [Externals] in
/-- As much of the same text is the same. -/
theorem missing_alike {body : String} {how₁ how₂ : Overwriting} (h₁ : how₁.Of body)
    (h₂ : how₂.Of body) (h : how₁.missing body = how₂.missing body) : how₁ = how₂ := by
  cases how₁ with
  | untouched =>
    cases how₂ with
    | untouched => rfl
    | wrote t₂ => cases h
  | wrote t₁ =>
    cases how₂ with
    | untouched => cases h
    | wrote t₂ =>
      have hm := Option.some.inj h
      cases t₁ with
      | none =>
        cases t₂ with
        | none => rfl
        | some t₂ => cases hm
      | some t₁ =>
        cases t₂ with
        | none => cases hm
        | some t₂ =>
          have hp₁ := h₁ t₁ rfl
          have hp₂ := h₂ t₂ rfl
          have hlen : t₁.toList.length = t₂.toList.length := by
            have hle₁ := hp₁.length_le
            have hle₂ := hp₂.length_le
            have hsub : body.toList.length - t₁.toList.length =
                body.toList.length - t₂.toList.length := Option.some.inj hm
            omega
          have hpre := List.prefix_of_prefix_length_le hp₁ hp₂ hlen.le
          rw [String.toList_inj.mp (hpre.eq_of_length hlen)]

/-- The same text is written to the state file on both sides. -/
theorem writing_alike {body₁ body₂ : String} {w₁ w₂ v₁ v₂ : World} {i₁ i₂ j₁ j₂ : Inputs}
    {rest : List SecretSpec}
    (h : Level hidden rest (w₁, i₁) (w₂, i₂)) (hbody : body₁ = body₂)
    (h₁ : TakesWriting body₁ (w₁, i₁) (v₁, j₁)) (h₂ : TakesWriting body₂ (w₂, i₂) (v₂, j₂)) :
    j₁.Told hidden j₂ ∧
      ∀ s ∈ rest, FileAlike s (v₁.files (locate s.path)) (v₂.files (locate s.path)) := by
  subst hbody
  obtain ⟨how₁, hof₁, hf₁, ht₁⟩ := h₁
  obtain ⟨how₂, hof₂, hf₂, ht₂⟩ := h₂
  obtain ⟨hq, hin⟩ := circumstance_alike h.inputs ht₁ ht₂
  obtain rfl := missing_alike hof₁ hof₂ (Circumstance.overwritten.inj hq)
  refine ⟨hin, fun s hs => ?_⟩
  have hhome : w₁.home = w₂.home := h.home
  dsimp only at hf₁ hf₂
  rw [hf₁, hf₂, hhome]
  exact overwrite_alike _ _ (h.files s hs)

omit [Externals] in
/-- An operation that keeps the text of a file, or removes the file. -/
theorem entry_alike {at_ : Location} {f : FileEntry → Option FileEntry} {r : Except IoError Unit}
    (hf : (∀ e, f e = none) ∨ ∀ e, ∃ e', f e = some e' ∧ e'.text = e.text)
    (h₁ : EntryAnswers at_ f fs₁ r fs₁') (h₂ : EntryAnswers at_ f fs₂ r fs₂')
    (h : FileAlike s (fs₁ l) (fs₂ l)) : FileAlike s (fs₁' l) (fs₂' l) := by
  cases r with
  | error e =>
    rw [show fs₁' = fs₁ from h₁, show fs₂' = fs₂ from h₂]
    exact h
  | ok u =>
    rw [h₁.2, h₂.2]
    by_cases hl : l = at_
    · subst hl
      rw [Files.set_same, Files.set_same]
      generalize fs₁ l = a, fs₂ l = b at h
      cases h with
      | none => exact .none
      | @some e₁ e₂ htext =>
        rw [Option.bind_some, Option.bind_some]
        rcases hf with hnone | hkeep
        · rw [hnone, hnone]
          exact .none
        · obtain ⟨e₁', he₁, ht₁⟩ := hkeep e₁
          obtain ⟨e₂', he₂, ht₂⟩ := hkeep e₂
          rw [he₁, he₂]
          exact .some (ht₁ ▸ ht₂ ▸ htext)
    · rw [Files.set_other hl, Files.set_other hl]
      exact h

omit [Externals] in
theorem bound_alike {at_ : Location} {r : Except IoError Unit} (h₁ : BindAnswers at_ fs₁ r fs₁')
    (h₂ : BindAnswers at_ fs₂ r fs₂') (h : FileAlike s (fs₁ l) (fs₂ l)) :
    FileAlike s (fs₁' l) (fs₂' l) := by
  cases r with
  | error e =>
    rw [show fs₁' = fs₁ from h₁, show fs₂' = fs₂ from h₂]
    exact h
  | ok u =>
    rw [h₁.2, h₂.2]
    by_cases hl : l = at_
    · rw [hl, Files.set_same, Files.set_same]
      exact fileAlike_of_text rfl
    · rw [Files.set_other hl, Files.set_other hl]
      exact h

end Own

theorem common_step {β : Type} {e : Op β} {b₁ b₂ : β} (he : Common e)
    (h : Level hidden rest x₁ x₂) (hs₁ : fed.step e x₁ b₁ y₁) (hs₂ : fed.step e x₂ b₂ y₂) :
    b₁ = b₂ ∧ Level hidden rest y₁ y₂ := by
  obtain ⟨w₁, i₁⟩ := x₁
  obtain ⟨w₂, i₂⟩ := x₂
  obtain ⟨v₁, j₁⟩ := y₁
  obtain ⟨v₂, j₂⟩ := y₂
  obtain ⟨ha₁, ht₁⟩ := hs₁
  obtain ⟨ha₂, ht₂⟩ := hs₂
  have hhome : w₁.home = w₂.home := h.home
  have hsnap : w₁.snapshot = w₂.snapshot := h.snapshot
  have hid : w₁.promptId = w₂.promptId := h.promptId
  cases e with
  | mutate f =>
    obtain ⟨_, -, rfl⟩ := ha₁
    obtain ⟨_, -, rfl⟩ := ha₂
    obtain ⟨hin, hfiles⟩ := writing_alike h (congrArg (fun s => (f s).message ++ "\n") hsnap) ht₁ ht₂
    exact ⟨rfl, { h with
      sent := congrArg₂ (fun l s => l ++ [f s]) h.sent hsnap
      stateFile := congrArg₂ (fun l s => l ++ [(f s).message]) h.stateFile hsnap
      snapshot := congrArg f hsnap
      inputs := hin
      files := hfiles }⟩
  | writeState line =>
    obtain ⟨_, -, rfl⟩ := ha₁
    obtain ⟨_, -, rfl⟩ := ha₂
    obtain ⟨hin, hfiles⟩ := writing_alike h rfl ht₁ ht₂
    exact ⟨rfl, { h with
      stateFile := congrArg (· ++ [line]) h.stateFile
      inputs := hin
      files := hfiles }⟩
  | eprintln line =>
    obtain rfl : i₁ = j₁ := ht₁
    obtain rfl : i₂ = j₂ := ht₂
    obtain rfl := ha₁
    obtain rfl := ha₂
    exact ⟨rfl, { h with journal := congrArg (· ++ [line]) h.journal }⟩
  | nextPromptId =>
    obtain rfl : i₁ = j₁ := ht₁
    obtain rfl : i₂ = j₂ := ht₂
    obtain ⟨rfl, rfl⟩ := ha₁
    obtain ⟨rfl, rfl⟩ := ha₂
    exact ⟨congrArg (· + 1) hid, { h with promptId := congrArg (· + 1) hid }⟩
  | tryRecv => exact he.elim
  | runValidator => exact he.elim
  | readToString => exact he.elim
  | readSpec path =>
    obtain rfl : i₁ = j₁ := ht₁
    obtain rfl : i₂ = j₂ := ht₂
    obtain ⟨rfl, hv₁⟩ := ha₁
    obtain ⟨rfl, hv₂⟩ := ha₂
    exact ⟨h.specText, h.next hv₁ hv₂ h.inputs⟩
  | file c =>
    obtain ⟨hr, hlevel, hans₁, hans₂⟩ := file_both h ⟨ha₁, ht₁⟩ ⟨ha₂, ht₂⟩
    have htouch : ∀ l, l ∉ c.touches := fun l => by rw [show c.touches = [] from he]; simp
    refine ⟨hr, hlevel.withFiles fun s hs => ?_⟩
    rw [hans₁.frame (htouch _), hans₂.frame (htouch _)]
    exact h.files s hs
  | sleep | syncDir =>
    obtain rfl : i₁ = j₁ := ht₁
    obtain rfl : i₂ = j₂ := ht₂
    exact ⟨rfl, h.next ha₁ ha₂ h.inputs⟩
  | removeSocket =>
    obtain ⟨_, fs₁, -, rfl⟩ := ha₁
    obtain ⟨_, fs₂, -, rfl⟩ := ha₂
    obtain ⟨r₁, hans₁, ht₁⟩ := ht₁
    obtain ⟨r₂, hans₂, ht₂⟩ := ht₂
    obtain ⟨hq, hin⟩ := circumstance_alike h.inputs ht₁ ht₂
    obtain rfl := Circumstance.done.inj hq
    dsimp only at hans₁ hans₂
    rw [hhome] at hans₁
    exact ⟨rfl, h.refiled hin fun s hs => entry_alike (Or.inl fun _ => rfl) hans₁
      hans₂ (h.files s hs)⟩
  | bindSocket =>
    obtain ⟨fs₁, hans₁, rfl⟩ := ha₁
    obtain ⟨fs₂, hans₂, rfl⟩ := ha₂
    obtain ⟨hq, hin⟩ := circumstance_alike h.inputs ht₁ ht₂
    obtain rfl := Circumstance.done.inj hq
    dsimp only at hans₁ hans₂
    rw [hhome] at hans₁
    exact ⟨rfl, h.refiled hin fun s hs => bound_alike hans₁ hans₂ (h.files s hs)⟩
  | restrictSocket mode =>
    obtain ⟨fs₁, hans₁, rfl⟩ := ha₁
    obtain ⟨fs₂, hans₂, rfl⟩ := ha₂
    obtain ⟨hq, hin⟩ := circumstance_alike h.inputs ht₁ ht₂
    obtain rfl := Circumstance.done.inj hq
    dsimp only at hans₁ hans₂
    rw [hhome] at hans₁
    exact ⟨rfl, h.refiled hin fun s hs => entry_alike
      (Or.inr fun e => ⟨{ e with mode }, rfl, rfl⟩) hans₁ hans₂ (h.files s hs)⟩
  | _ =>
    obtain ⟨hc, hin⟩ := circumstance_alike h.inputs ht₁ ht₂
    exact ⟨by injection hc, h.next ha₁ ha₂ hin⟩

/-- A program of common operations does the same on both sides. -/
theorem common_spec {α : Type} {p : Daemon α} (hp : p.Only Common)
    (h : Level hidden rest x₁ x₂) :
    Together fed Shown (HiddenBy hidden) p p (Both (Level hidden rest) Eq) x₁ x₂ := by
  refine together_mono (together_same comparison hp (fun h => h.toSeen.shown)
    (fun e _ _ _ _ _ _ he h hs₁ hs₂ => common_step he h hs₁ hs₂) h) ?_
  rintro (e | a) v₁ _ v₂ - ⟨rfl, hv⟩
  · exact ⟨rfl, hv.toSeen⟩
  · exact ⟨rfl, hv⟩

/-- Two sequences that begin with a program of common operations. -/
theorem common_seq {α β₁ β₂ : Type} {p : Daemon α} {f₁ : α → Daemon β₁} {f₂ : α → Daemon β₂}
    {R : World × Inputs → World × Inputs → Prop} {S : β₁ → β₂ → Prop} (hp : p.Only Common)
    (h : Level hidden rest x₁ x₂)
    (hf : ∀ a v₁ v₂, HiddenBy hidden v₁ → Level hidden rest v₁ v₂ →
      Together fed Shown (HiddenBy hidden) (f₁ a) (f₂ a) (Both R S) v₁ v₂) :
    Together fed Shown (HiddenBy hidden) (p.bind f₁) (p.bind f₂) (Both R S) x₁ x₂ := by
  refine together_seq comparison (common_spec hp h) ?_
  rintro (e₁ | a) v₁ (e₂ | b) v₂ hA hv
  · exact hv
  · exact hv
  · exact hv
  · obtain ⟨rfl, hv⟩ := hv
    exact hf a v₁ v₂ hA hv

/-- Two loops that go round with the same state. -/
theorem loop_both {σ α₁ α₂ : Type} {body₁ : σ → Daemon (σ ⊕ α₁)} {body₂ : σ → Daemon (σ ⊕ α₂)}
    {S : α₁ → α₂ → Prop} (s : σ) (h : Level hidden rest x₁ x₂)
    (turn : ∀ s v₁ v₂, Level hidden rest v₁ v₂ → Together fed Shown (HiddenBy hidden)
      (body₁ s) (body₂ s) (Both (Level hidden rest) (Sum.LiftRel Eq S)) v₁ v₂) :
    Together fed Shown (HiddenBy hidden) (Prog.iterate body₁ s) (Prog.iterate body₂ s)
      (Both (Level hidden rest) S) x₁ x₂ := by
  refine together_iterate comparison (fun s₁ v₁ s₂ v₂ => s₁ = s₂ ∧ Level hidden rest v₁ v₂)
    ⟨rfl, h⟩ (fun _ _ _ _ hj => hj.2.toSeen.shown) ?_
  rintro s v₁ _ v₂ - ⟨rfl, hv⟩
  refine together_mono (turn s v₁ v₂ hv) ?_
  rintro (e₁ | s₁ | a) u₁ (e₂ | s₂ | b) u₂ - hu
  · exact hu
  · exact hu
  · exact hu
  · exact hu
  · exact ⟨Sum.liftRel_inl_inl.mp hu.1, hu.2⟩
  · cases hu.1
  · exact hu
  · cases hu.1
  · exact ⟨Sum.liftRel_inr_inr.mp hu.1, hu.2⟩

/-! ## Taking messages -/

omit [Externals] in
/-- Waiting takes the messages up to the first answer to the prompt, and shows nothing. -/
theorem wait_takes (id : Nat) (x : World × Inputs) :
    wp fed (fun y => y.1 = x.1) (Ui.waitForSubmission id) (fun r y => y.1 = x.1 ∧
      ∃ l skipped, r = .ok l ∧
        x.2 = { y.2 with messages := skipped ++ .submit id l :: y.2.messages } ∧
        ∀ m ∈ skipped, ∀ l, m ≠ .submit id l) x := by
  refine wp_iterate (fun _ y => y.1 = x.1 ∧ ∃ skipped,
    x.2 = { y.2 with messages := skipped ++ y.2.messages } ∧
      ∀ m ∈ skipped, ∀ l, m ≠ .submit id l) ⟨rfl, [], rfl, by simp⟩ ?_
  rintro _ y ⟨hy, skipped, hin, hskip⟩
  refine wp_step hy fun m z hs => ?_
  obtain ⟨hz : z.1 = y.1, ht : y.2 = { z.2 with messages := m.toList ++ z.2.messages }⟩ := hs
  have hzx : z.1 = x.1 := hz.trans hy
  have again : ∀ m', m = some m' → (∀ l, m' ≠ .submit id l) → z.1 = x.1 ∧ ∃ skipped,
      x.2 = { z.2 with messages := skipped ++ z.2.messages } ∧
        ∀ m ∈ skipped, ∀ l, m ≠ .submit id l := by
    rintro m' rfl hm
    refine ⟨hzx, skipped ++ [m'], by rw [hin, ht]; simp, fun m hm' => ?_⟩
    rcases List.mem_append.mp hm' with hm' | hm'
    · exact hskip m hm'
    · exact List.mem_singleton.mp hm' ▸ hm
  rcases m with _ | ⟨promptId, values⟩ | secret
  · refine wp_step hzx fun _ v hv => ?_
    obtain ⟨hv₁ : v.1 = z.1, hv₂ : z.2 = v.2⟩ := hv
    refine wp_pure.mpr ⟨hv₁.trans hzx, hv₁.trans hzx, skipped, ?_, hskip⟩
    rw [← hv₂, hin, ht]
    rfl
  · dsimp only
    split
    · rename_i hid
      subst hid
      exact wp_pure.mpr ⟨hzx, hzx, values, skipped, rfl, by rw [hin, ht]; rfl, hskip⟩
    · rename_i hid
      exact wp_pure.mpr ⟨hzx, again _ rfl fun l h => hid (ClientMsg.submit.inj h).1⟩
  · exact wp_pure.mpr ⟨hzx, again _ rfl fun l h => nomatch h⟩

omit [Externals] in
/-- In alike lists of messages the first answers to a prompt are alike. -/
theorem firstAnswer_alike {id : Nat} {s₁ s₂ rest₁ rest₂ : List ClientMsg} {l₁ l₂ : Values}
    (h₁ : ∀ m ∈ s₁, ∀ l, m ≠ .submit id l) (h₂ : ∀ m ∈ s₂, ∀ l, m ≠ .submit id l)
    (h : List.Forall₂ (MsgAlike hidden) (s₁ ++ .submit id l₁ :: rest₁)
      (s₂ ++ .submit id l₂ :: rest₂)) :
    List.Forall₂ (SubmittedAlike hidden id) l₁ l₂ ∧
      List.Forall₂ (MsgAlike hidden) rest₁ rest₂ := by
  -- a message alike to an answer is an answer
  have answer : ∀ {m : ClientMsg} {l : Values}, MsgAlike hidden m (.submit id l) ∨
      MsgAlike hidden (.submit id l) m → ∃ l', m = .submit id l' := by
    rintro (⟨i, l'⟩ | s) l (h | h)
    · exact ⟨l', by rw [h.1]⟩
    · exact ⟨l', by rw [← h.1]⟩
    · exact h.elim
    · exact h.elim
  induction s₁ generalizing s₂ with
  | nil =>
    cases s₂ with
    | nil =>
      rw [List.nil_append, List.nil_append, List.forall₂_cons] at h
      exact ⟨h.1.2, h.2⟩
    | cons m s₂ =>
      rw [List.nil_append, List.cons_append, List.forall₂_cons] at h
      obtain ⟨l', rfl⟩ := answer (Or.inr h.1)
      exact absurd rfl (h₂ _ List.mem_cons_self l')
  | cons m s₁ ih =>
    cases s₂ with
    | nil =>
      rw [List.nil_append, List.cons_append, List.forall₂_cons] at h
      obtain ⟨l', rfl⟩ := answer (Or.inl h.1)
      exact absurd rfl (h₁ _ List.mem_cons_self l')
    | cons m' s₂ =>
      rw [List.cons_append, List.cons_append, List.forall₂_cons] at h
      exact ih (fun m hm => h₁ m (List.mem_cons_of_mem _ hm))
        (fun m hm => h₂ m (List.mem_cons_of_mem _ hm)) h.2

/-- Both sides wait for alike answers, however long each waits. -/
theorem wait_both (id : Nat) (h : Level hidden rest x₁ x₂) :
    Together fed Shown (HiddenBy hidden) (Ui.waitForSubmission id) (Ui.waitForSubmission id)
      (Both (Level hidden rest) (List.Forall₂ (SubmittedAlike hidden id))) x₁ x₂ := by
  intro o₁ y₁ o₂ y₂ run₁ run₂ _
  have hw₁ : y₁.1 = x₁.1 := (wait_takes id x₁).1 y₁ run₁.toCut
  have hw₂ : y₂.1 = x₂.1 := (wait_takes id x₂).1 y₂ run₂.toCut
  have hseen : Seen y₁ y₂ := by
    refine ⟨?_, ?_, ?_⟩ <;> rw [hw₁, hw₂]
    · exact h.sent
    · exact h.stateFile
    · exact h.journal
  rcases o₁ with _ | r₁ <;> rcases o₂ with _ | r₂
  · exact Or.inl hseen.shown.1
  · exact hseen.shown.1
  · exact hseen.shown.2
  · obtain ⟨-, l₁, s₁, rfl, hin₁, hs₁⟩ := (wait_takes id x₁).2 r₁ y₁ run₁
    obtain ⟨-, l₂, s₂, rfl, hin₂, hs₂⟩ := (wait_takes id x₂).2 r₂ y₂ run₂
    have hin := h.inputs
    rw [hin₁, hin₂] at hin
    obtain ⟨hl, hrest⟩ := firstAnswer_alike hs₁ hs₂ hin.messages
    exact ⟨hl, h.next hw₁ hw₂ ⟨⟨hrest, hin.outcomes, hin.circumstances⟩, hin.told⟩⟩

/-! ## Prompts -/

/-- Alike values that fill the fields of the secret. -/
structure Entered (spec : SecretSpec) (vs₁ vs₂ : Values) : Prop where
  alike : ValuesAlike spec vs₁ vs₂
  fills₁ : ∃ m, Fills spec.fieldNames m vs₁
  fills₂ : ∃ m, Fills spec.fieldNames m vs₂

omit [Externals] in
/-- What may differ in the answer to a form is not shown again. -/
theorem SubmittedAlike.pair {spec : SecretSpec} {id : Nat}
    (hid : ∀ f ∈ spec.fields, hidden id f.name = f.sensitive) {a b : String × String}
    (h : SubmittedAlike hidden id a b) : PairAlike spec a b := by
  refine ⟨h.1, ?_⟩
  rcases h.2 with hv | ⟨hhid, hcheck⟩
  · exact Or.inl hv
  refine Or.inr ⟨?_, hcheck⟩
  unfold SecretSpec.shows
  cases hf : spec.field a.1 with
  | none => rfl
  | some f =>
    have hname : f.name = a.1 := by simpa using List.find?_some hf
    have := hid f (List.mem_of_find?_eq_some hf)
    rw [hname, hhid] at this
    simp [← this]

theorem ask_both {spec : SecretSpec} (reason : String) (known : EnvMap)
    (h : Level hidden rest x₁ x₂) :
    Together fed Shown (HiddenBy hidden) (Ui.ask spec reason known) (Ui.ask spec reason known)
      (Both (Level hidden rest) (Entered spec)) x₁ x₂ := by
  refine loop_both _ h ?_
  rintro ⟨known, reason⟩ y₁ y₂ hy
  refine common_seq (Prog.only_perform trivial) hy fun id y₁ y₂ _ hy => ?_
  refine together_step comparison hy.toSeen.shown.1 hy.toSeen.shown.2
    fun _ z₁ _ z₂ hs₁ hs₂ hA => ?_
  have hz := (common_step (by trivial) hy hs₁ hs₂).2
  have hid : ∀ f ∈ spec.fields, hidden id f.name = f.sensitive := by
    intro f hf
    have hsent : { y₁.1.snapshot with prompt := some (Ui.form spec id reason known) } ∈
        z₁.1.sent := by
      obtain ⟨⟨how, -, hw⟩, -⟩ := hs₁
      rw [hw, World.overwrite_sent, World.mutate_sent]
      exact List.mem_append_right _ List.mem_cons_self
    exact hA _ hsent _ rfl ⟨f.name, f.description, f.sensitive, _⟩
      (List.mem_map.mpr ⟨f, hf, rfl⟩)
  refine together_seq comparison (wait_both id hz) ?_
  rintro (e₁ | l₁) v₁ (e₂ | l₂) v₂ - hv
  · exact hv
  · exact hv
  · exact hv
  obtain ⟨hl, hv⟩ := hv
  refine common_seq (Prog.only_perform trivial) hv fun _ v₁ v₂ _ hv => ?_
  have hpairs : ValuesAlike spec l₁ l₂ := hl.imp fun a b hab => hab.pair hid
  have hacc := acceptSubmission_alike hpairs
  cases ha₁ : acceptSubmission spec l₁ with
  | ok vs₁ =>
    cases ha₂ : acceptSubmission spec l₂ with
    | error e₂ =>
      rw [ha₁, ha₂] at hacc
      exact hacc.elim
    | ok vs₂ =>
      rw [ha₁, ha₂] at hacc
      exact together_pure hv.toSeen.shown.1 hv.toSeen.shown.2 ⟨.inr ⟨hacc,
        ⟨_, (acceptSubmission_ok ha₁).2.2⟩, ⟨_, (acceptSubmission_ok ha₂).2.2⟩⟩, hv⟩
  | error e₁ =>
    cases ha₂ : acceptSubmission spec l₂ with
    | ok vs₂ =>
      rw [ha₁, ha₂] at hacc
      exact hacc.elim
    | error e₂ =>
      rw [ha₁, ha₂] at hacc
      obtain rfl : e₁ = e₂ := hacc
      refine common_seq (Prog.only_bind (Prog.only_perform trivial) fun _ =>
        Prog.only_perform trivial) hv fun _ v₁ v₂ _ hv => ?_
      exact together_pure hv.toSeen.shown.1 hv.toSeen.shown.2
        ⟨.inl (by rw [shownValues_alike hpairs]), hv⟩

/-! ## The validator -/

omit [Externals] in
theorem Entered.presence {spec : SecretSpec} {vs₁ vs₂ : Values} (h : Entered spec vs₁ vs₂) :
    presenceVerdict spec vs₁ = presenceVerdict spec vs₂ := by
  obtain ⟨-, ⟨m₁, h₁⟩, ⟨m₂, h₂⟩⟩ := h
  rw [presenceVerdict_of_fills h₁, presenceVerdict_of_fills h₂]

/-- Trials of which the same is told give the same verdict. -/
theorem verdictOf_told {t₁ t₂ : Trial} (program : String) (timeout : Nat)
    (houtcome : t₁.outcome = t₂.outcome) (htold : t₁.told = t₂.told) :
    verdictOf program t₁.values timeout t₁.outcome =
      verdictOf program t₂.values timeout t₂.outcome := by
  rw [← houtcome]
  unfold Trial.told at htold
  rw [← houtcome] at htold
  cases hout : t₁.outcome with
  | answered stdout stderr status =>
    rw [hout] at htold
    dsimp only at htold
    simp only [verdictOf]
    by_cases herror : (parseValidatorOutput (trim stdout)).status = .error
    · by_cases hsilent : trim stderr = ""
      · simp [hsilent]
      · rw [if_pos ⟨herror, hsilent⟩, if_pos ⟨herror, hsilent⟩] at htold
        rw [Option.some.inj htold]
    · rw [if_neg herror, if_neg herror]
  | _ => rfl

theorem validate_both {spec : SecretSpec} {vs₁ vs₂ : Values} (hvs : Entered spec vs₁ vs₂)
    (timeout : Nat) (h : Level hidden rest x₁ x₂) :
    Together fed Shown (HiddenBy hidden) (validate spec vs₁ timeout) (validate spec vs₂ timeout)
      (Both (Level hidden rest) Eq) x₁ x₂ := by
  unfold validate
  rcases spec.validateCommand with _ | _ | ⟨program, args⟩
  · exact together_pure h.toSeen.shown.1 h.toSeen.shown.2 ⟨hvs.presence, h⟩
  · exact together_fail h.toSeen.shown.1 h.toSeen.shown.2 ⟨rfl, h.toSeen⟩
  · refine together_step comparison h.toSeen.shown.1 h.toSeen.shown.2
      fun o₁ y₁ o₂ y₂ hs₁ hs₂ _ => ?_
    obtain ⟨hw₁ : y₁.1 = x₁.1, ht₁⟩ := hs₁
    obtain ⟨hw₂ : y₂.1 = x₂.1, ht₂⟩ := hs₂
    have hin := h.inputs
    rw [ht₁, ht₂] at hin
    obtain ⟨houtcome, houtcomes⟩ := List.cons.inj hin.outcomes
    obtain ⟨htold, htolds⟩ := List.cons.inj hin.told
    have hy : Level hidden rest y₁ y₂ :=
      h.next hw₁ hw₂ ⟨⟨hin.messages, houtcomes, hin.circumstances⟩, htolds⟩
    exact together_pure hy.toSeen.shown.1 hy.toSeen.shown.2
      ⟨verdictOf_told program timeout houtcome htold, hy⟩

theorem validateUntilDecided_both {spec : SecretSpec} {vs₁ vs₂ : Values}
    (hvs : Entered spec vs₁ vs₂) (what : String) (timeout retry : Nat)
    (h : Level hidden rest x₁ x₂) :
    Together fed Shown (HiddenBy hidden) (validateUntilDecided spec vs₁ what timeout retry)
      (validateUntilDecided spec vs₂ what timeout retry) (Both (Level hidden rest) Eq) x₁ x₂ := by
  refine loop_both _ h ?_
  rintro attempt y₁ y₂ hy
  refine common_seq (Prog.only_perform trivial) hy fun _ y₁ y₂ _ hy => ?_
  refine together_seq comparison (validate_both hvs timeout hy) ?_
  rintro (e₁ | v) v₁ (e₂ | v') v₂ - hv
  · exact hv
  · exact hv
  · exact hv
  obtain ⟨rfl, hv⟩ := hv
  dsimp only
  split
  · split
    · refine common_seq (Prog.only_perform trivial) hv fun _ v₁ v₂ _ hv => ?_
      exact together_pure hv.toSeen.shown.1 hv.toSeen.shown.2 ⟨.inr rfl, hv⟩
    · exact together_pure hv.toSeen.shown.1 hv.toSeen.shown.2 ⟨.inr rfl, hv⟩
  · refine common_seq (Prog.only_perform trivial) hv fun _ v₁ v₂ _ hv => ?_
    refine common_seq (Prog.only_perform trivial) hv fun _ v₁ v₂ _ hv => ?_
    refine common_seq (Prog.only_bind (Prog.only_perform trivial) fun _ =>
      Prog.only_perform trivial) hv fun _ v₁ v₂ _ hv => ?_
    refine common_seq (Prog.only_perform trivial) hv fun _ v₁ v₂ _ hv => ?_
    exact together_pure hv.toSeen.shown.1 hv.toSeen.shown.2 ⟨.inl rfl, hv⟩

/-! ## Writing -/

/-- In the middle of a write: on a level but for the temp file, which holds `e₁` and `e₂`. -/
structure Temp (hidden : Nat → String → Bool) (rest : List SecretSpec) (tmp : Location)
    (e₁ e₂ : Option FileEntry) (x₁ x₂ : World × Inputs) : Prop where
  level : Level hidden [] x₁ x₂
  files : ∀ s ∈ rest, locate s.path ≠ tmp →
    FileAlike s (x₁.1.files (locate s.path)) (x₂.1.files (locate s.path))
  temp₁ : x₁.1.files tmp = e₁
  temp₂ : x₂.1.files tmp = e₂

variable {tmp : Location} {e₁ e₂ : Option FileEntry}

/-- An operation on the temp file on both sides. -/
theorem temp_step {c₁ c₂ : FileOp} {r₁ r₂ : Except IoError Unit}
    (h : Temp hidden rest tmp e₁ e₂ x₁ x₂) (hc₁ : ∀ l ∈ c₁.touches, l = tmp)
    (hc₂ : ∀ l ∈ c₂.touches, l = tmp) (hs₁ : fed.step (.file c₁) x₁ r₁ y₁)
    (hs₂ : fed.step (.file c₂) x₂ r₂ y₂) :
    r₁ = r₂ ∧ Temp hidden rest tmp (y₁.1.files tmp) (y₂.1.files tmp) y₁ y₂ ∧
      (r₁ = .ok () → y₁.1.files = c₁.effect x₁.1.files ∧ y₂.1.files = c₂.effect x₂.1.files) := by
  obtain ⟨rfl, hlevel, hans₁, hans₂⟩ := file_both h.level hs₁ hs₂
  refine ⟨rfl, ⟨hlevel, fun s hs hne => ?_, rfl, rfl⟩, ?_⟩
  · rw [hans₁.frame fun hl => hne (hc₁ _ hl), hans₂.frame fun hl => hne (hc₂ _ hl)]
    exact h.files s hs hne
  · rintro rfl
    exact ⟨hans₁.2, hans₂.2⟩

/-- What an operation makes of the temp file. -/
def FileOp.Makes (c : FileOp) (tmp : Location) (e e' : Option FileEntry) : Prop :=
  (∀ l ∈ c.touches, l = tmp) ∧ ∀ fs, fs tmp = e → c.effect fs tmp = e'

section Makes

variable (p : String) (e : Option FileEntry)

omit [Externals] in
theorem makes_createNew (mode : Nat) :
    (FileOp.createNew p mode).Makes (locate p) e (some ⟨some "", 0, 0, mode⟩) :=
  ⟨by simp [FileOp.touches], fun _ _ => Files.set_same _ _ _⟩

omit [Externals] in
theorem makes_writeAll (body : String) :
    (FileOp.writeAll p body).Makes (locate p) e (e.map fun e => { e with text := some body }) :=
  ⟨by simp [FileOp.touches], fun _ he => he ▸ Files.set_same _ _ _⟩

omit [Externals] in
theorem makes_syncAll (l : Location) : (FileOp.syncAll p).Makes l e e :=
  ⟨by simp [FileOp.touches], fun _ he => he⟩

omit [Externals] in
theorem makes_chown (uid gid : Nat) :
    (FileOp.chown p uid gid).Makes (locate p) e (e.map fun e => { e with uid, gid }) :=
  ⟨by simp [FileOp.touches], fun _ he => he ▸ Files.set_same _ _ _⟩

omit [Externals] in
theorem makes_setPermissions (mode : Nat) :
    (FileOp.setPermissions p mode).Makes (locate p) e (e.map fun e => { e with mode }) :=
  ⟨by simp [FileOp.touches], fun _ he => he ▸ Files.set_same _ _ _⟩

end Makes

theorem withContext_both {c₁ c₂ : FileOp} {e₁' e₂' : Option FileEntry} (context : String)
    (h : Temp hidden rest tmp e₁ e₂ x₁ x₂) (hc₁ : c₁.Makes tmp e₁ e₁')
    (hc₂ : c₂.Makes tmp e₂ e₂') :
    Together fed Shown (HiddenBy hidden) (Daemon.withContext context (.file c₁))
      (Daemon.withContext context (.file c₂)) (Both (Temp hidden rest tmp e₁' e₂') Eq) x₁ x₂ := by
  have hseen := h.level.toSeen.shown
  refine together_step comparison hseen.1 hseen.2 fun r₁ y₁ r₂ y₂ hs₁ hs₂ _ => ?_
  obtain ⟨rfl, hy, hok⟩ := temp_step h hc₁.1 hc₂.1 hs₁ hs₂
  have hseen := hy.level.toSeen.shown
  cases r₁ with
  | error e => exact together_fail hseen.1 hseen.2 ⟨rfl, hy.level.toSeen⟩
  | ok u =>
    obtain ⟨hf₁, hf₂⟩ := hok rfl
    exact together_pure hseen.1 hseen.2 ⟨rfl, hy.level, hy.files,
      hf₁ ▸ hc₁.2 _ h.temp₁, hf₂ ▸ hc₂.2 _ h.temp₂⟩

/-- A step that cleans up behind itself: where it fails, both sides show the same. -/
theorem orCleanup_both {c₁ c₂ : FileOp} {R : World × Inputs → World × Inputs → Prop}
    (path context : String) (h : Level hidden [] x₁ x₂)
    (hok : ∀ y₁ y₂, Level hidden [] y₁ y₂ → y₁.1.files = c₁.effect x₁.1.files →
      y₂.1.files = c₂.effect x₂.1.files → R y₁ y₂) :
    Together fed Shown (HiddenBy hidden) (orCleanup path context c₁) (orCleanup path context c₂)
      (Both R Eq) x₁ x₂ := by
  refine together_step comparison h.toSeen.shown.1 h.toSeen.shown.2
    fun r₁ y₁ r₂ y₂ hs₁ hs₂ _ => ?_
  obtain ⟨rfl, hy, hans₁, hans₂⟩ := file_both h hs₁ hs₂
  cases r₁ with
  | ok u =>
    exact together_pure hy.toSeen.shown.1 hy.toSeen.shown.2 ⟨rfl, hok _ _ hy hans₁.2 hans₂.2⟩
  | error e =>
    refine together_step comparison hy.toSeen.shown.1 hy.toSeen.shown.2
      fun r₁ z₁ r₂ z₂ hs₁ hs₂ _ => ?_
    obtain ⟨-, hz, -, -⟩ := file_both hy hs₁ hs₂
    exact together_fail hz.toSeen.shown.1 hz.toSeen.shown.2 ⟨rfl, hz.toSeen⟩

theorem orCleanup_temp {c₁ c₂ : FileOp} {e₁' e₂' : Option FileEntry} (path context : String)
    (h : Temp hidden rest tmp e₁ e₂ x₁ x₂) (hc₁ : c₁.Makes tmp e₁ e₁')
    (hc₂ : c₂.Makes tmp e₂ e₂') :
    Together fed Shown (HiddenBy hidden) (orCleanup path context c₁) (orCleanup path context c₂)
      (Both (Temp hidden rest tmp e₁' e₂') Eq) x₁ x₂ := by
  refine orCleanup_both path context h.level fun y₁ y₂ hy hf₁ hf₂ => ⟨hy, fun s hs hne => ?_,
    hf₁ ▸ hc₁.2 _ h.temp₁, hf₂ ▸ hc₂.2 _ h.temp₂⟩
  rw [hf₁, hf₂, c₁.effect_frame _ fun hl => hne (hc₁.1 _ hl),
    c₂.effect_frame _ fun hl => hne (hc₂.1 _ hl)]
  exact h.files s hs hne

omit [Externals] in
/-- Two programs that end alike, and what follows where both have a value. -/
theorem both_seq {α₁ α₂ β₁ β₂ : Type} {p₁ : Daemon α₁} {p₂ : Daemon α₂} {f₁ : α₁ → Daemon β₁}
    {f₂ : α₂ → Daemon β₂} {R R' : World × Inputs → World × Inputs → Prop} {S : α₁ → α₂ → Prop}
    {S' : β₁ → β₂ → Prop} (h : Together fed Shown (HiddenBy hidden) p₁ p₂ (Both R S) x₁ x₂)
    (hf : ∀ a b v₁ v₂, S a b → R v₁ v₂ →
      Together fed Shown (HiddenBy hidden) (f₁ a) (f₂ b) (Both R' S') v₁ v₂) :
    Together fed Shown (HiddenBy hidden) (p₁.bind f₁) (p₂.bind f₂) (Both R' S') x₁ x₂ := by
  refine together_seq comparison h ?_
  rintro (e₁ | a) v₁ (e₂ | b) v₂ - hv
  · exact hv
  · exact hv
  · exact hv
  · exact hf a b v₁ v₂ hv.1 hv.2

theorem writeSecret_both (pid : Nat) {spec : SecretSpec} (hs : spec.Checked)
    (hn : spec.fieldNames.Nodup) (ids : Ids) {vs₁ vs₂ : Values} (hvs : Entered spec vs₁ vs₂)
    (hrest : ∀ s ∈ rest, s.fieldNames.Nodup)
    (hhide : ∀ s ∈ rest, locate s.path = locate spec.path → HiddenFrom spec s)
    (h : Level hidden rest x₁ x₂) :
    Together fed Shown (HiddenBy hidden) (writeSecret pid spec ids vs₁)
      (writeSecret pid spec ids vs₂) (Both (Level hidden rest) Eq) x₁ x₂ := by
  unfold writeSecret
  cases parent spec.path with
  | none => exact together_fail h.toSeen.shown.1 h.toSeen.shown.2 ⟨rfl, h.toSeen⟩
  | some dir =>
    refine common_seq (Prog.only_bind (Prog.only_perform rfl) fun r => ?_) h
      fun _ x₁ x₂ _ h => ?_
    · cases r <;> trivial
    cases parseMode spec.mode with
    | none => exact together_fail h.toSeen.shown.1 h.toSeen.shown.2 ⟨rfl, h.toSeen⟩
    | some mode =>
      refine together_step comparison h.toSeen.shown.1 h.toSeen.shown.2
        fun r₁ y₁ r₂ y₂ hs₁ hs₂ _ => ?_
      have hstart : Temp hidden rest (locate (tempPath pid dir spec.path)) _ _ x₁ x₂ :=
        ⟨{ h with files := by simp }, fun s hs _ => h.files s hs, rfl, rfl⟩
      obtain ⟨-, hy, -⟩ := temp_step hstart (by simp [FileOp.touches]) (by simp [FileOp.touches])
        hs₁ hs₂
      refine both_seq (withContext_both _ hy (makes_createNew _ _ _) (makes_createNew _ _ _))
        fun _ _ y₁ y₂ _ hy => ?_
      refine both_seq (withContext_both _ hy (makes_writeAll _ _ _) (makes_writeAll _ _ _))
        fun _ _ y₁ y₂ _ hy => ?_
      refine both_seq (withContext_both _ hy (makes_syncAll _ _ _) (makes_syncAll _ _ _))
        fun _ _ y₁ y₂ _ hy => ?_
      refine both_seq (orCleanup_temp _ _ hy (makes_chown _ _ _ _) (makes_chown _ _ _ _))
        fun _ _ y₁ y₂ _ hy => ?_
      refine both_seq (orCleanup_temp _ _ hy (makes_setPermissions _ _ _)
        (makes_setPermissions _ _ _)) fun _ _ y₁ y₂ _ hy => ?_
      refine both_seq (orCleanup_both _ _ hy.level fun z₁ z₂ hz hf₁ hf₂ => ?_)
        fun _ _ y₁ y₂ _ hy => common_spec (Prog.only_perform trivial) hy
      -- the temp file has become the destination
      obtain ⟨m₁, hm₁⟩ := hvs.fills₁
      obtain ⟨m₂, hm₂⟩ := hvs.fills₂
      refine hz.withFiles fun s hs' => ?_
      rw [hf₁, hf₂]
      simp only [FileOp.effect, hy.temp₁, hy.temp₂]
      by_cases hdst : locate s.path = locate spec.path
      · rw [hdst, Files.set_same, Files.set_same]
        exact .some (.some (parse_alike hn (hrest s hs') (hhide s hs' hdst) hvs.alike hm₁.names
          (hm₁.representable hs) (hm₂.representable hs)))
      · rw [Files.set_other hdst, Files.set_other hdst]
        by_cases htmp : locate s.path = locate (tempPath pid dir spec.path)
        · rw [htmp, Files.set_same, Files.set_same]
          exact .none
        · rw [Files.set_other htmp, Files.set_other htmp]
          exact hy.files s hs' htmp

omit [Externals] in
/-- The same context on both sides. -/
theorem contextOf_both {α : Type} {p₁ p₂ : Daemon α} (context : String)
    {R : World × Inputs → World × Inputs → Prop} {S : α → α → Prop}
    (hR : ∀ {y₁ y₂}, R y₁ y₂ → Seen y₁ y₂)
    (h : Together fed Shown (HiddenBy hidden) p₁ p₂ (Both R S) x₁ x₂) :
    Together fed Shown (HiddenBy hidden) (contextOf context p₁) (contextOf context p₂)
      (Both R S) x₁ x₂ := by
  refine together_seq comparison (together_attempt (Q := fun r₁ y₁ r₂ y₂ => match r₁, r₂ with
    | .ok a₁, .ok a₂ => Both R S a₁ y₁ a₂ y₂
    | .ok _, .error _ => False
    | .error _, _ => False) h) ?_
  rintro (_ | (e₁ | a)) y₁ (_ | (e₂ | b)) y₂ - hy
  · exact hy.elim
  · exact hy.elim
  · exact hy.elim
  · exact hy.elim
  · obtain ⟨rfl, hseen⟩ := hy
    cases e₁ <;> exact together_fail hseen.shown.1 hseen.shown.2 ⟨rfl, hseen⟩
  · exact hy.elim
  · exact hy.elim
  · exact hy.elim
  · exact together_pure (hR hy.2).shown.1 (hR hy.2).shown.2 hy

/-! ## One secret -/

theorem promptUntilAccepted_both {pid : Nat} {spec : SecretSpec} (hs : spec.Checked)
    (hn : spec.fieldNames.Nodup) (ids : Ids) (known : EnvMap) (reason : String)
    (timeout retry : Nat) (hrest : ∀ s ∈ rest, s.fieldNames.Nodup)
    (hhide : ∀ s ∈ rest, locate s.path = locate spec.path → HiddenFrom spec s)
    (h : Level hidden rest x₁ x₂) :
    Together fed Shown (HiddenBy hidden)
      (promptUntilAccepted pid spec ids known reason timeout retry)
      (promptUntilAccepted pid spec ids known reason timeout retry)
      (Both (Level hidden rest) Eq) x₁ x₂ := by
  refine together_mono (loop_both (S := Eq) _ h ?_) fun _ _ _ _ _ h => h
  rintro ⟨known, reason⟩ y₁ y₂ hy
  refine common_seq (Prog.only_perform trivial) hy fun _ y₁ y₂ _ hy => ?_
  refine both_seq (ask_both reason known hy) fun vs₁ vs₂ y₁ y₂ hvs hy => ?_
  refine both_seq (validateUntilDecided_both hvs _ timeout retry hy) fun v _ y₁ y₂ hv hy => ?_
  subst hv
  dsimp only
  cases v.status with
  | valid =>
    refine both_seq (contextOf_both _ (fun h => h.toSeen)
      (writeSecret_both pid hs hn ids hvs hrest hhide hy)) fun _ _ y₁ y₂ _ hy => ?_
    refine common_seq (Prog.only_perform trivial) hy fun _ y₁ y₂ _ hy => ?_
    refine common_seq (Prog.only_bind (Prog.only_perform trivial) fun _ =>
      Prog.only_perform trivial) hy fun _ y₁ y₂ _ hy => ?_
    exact together_pure hy.toSeen.shown.1 hy.toSeen.shown.2 ⟨.inr rfl, hy⟩
  | invalid =>
    refine common_seq (Prog.only_bind (Prog.only_perform trivial) fun _ =>
      Prog.only_perform trivial) hy fun _ y₁ y₂ _ hy => ?_
    exact together_pure hy.toSeen.shown.1 hy.toSeen.shown.2
      ⟨.inl (by rw [shownValues_alike hvs.alike]), hy⟩
  | error => exact together_fail hy.toSeen.shown.1 hy.toSeen.shown.2 ⟨rfl, hy.toSeen⟩

theorem satisfyStored_both {pid : Nat} {spec : SecretSpec} (hs : spec.Checked)
    (hn : spec.fieldNames.Nodup) (ids : Ids) (timeout retry : Nat) {m₁ m₂ : Option EnvMap}
    (hm : Option.Rel (StoredAlike spec) m₁ m₂) (hrest : ∀ s ∈ rest, s.fieldNames.Nodup)
    (hhide : ∀ s ∈ rest, locate s.path = locate spec.path → HiddenFrom spec s)
    (h : Level hidden rest x₁ x₂) :
    Together fed Shown (HiddenBy hidden) (satisfyStored pid spec ids timeout retry m₁)
      (satisfyStored pid spec ids timeout retry m₂) (Both (Level hidden rest) Eq) x₁ x₂ := by
  -- the headline, and then the prompt
  have prompt : ∀ {y₁ y₂ phase message known reason}, Level hidden rest y₁ y₂ →
      Together fed Shown (HiddenBy hidden)
        (do
          Ui.state phase message
          promptUntilAccepted pid spec ids known reason timeout retry)
        (do
          Ui.state phase message
          promptUntilAccepted pid spec ids known reason timeout retry)
        (Both (Level hidden rest) Eq) y₁ y₂ := by
    intro y₁ y₂ phase message known reason hy
    exact common_seq (Prog.only_bind (Prog.only_perform trivial) fun _ =>
      Prog.only_perform trivial) hy fun _ y₁ y₂ _ hy =>
        promptUntilAccepted_both hs hn ids known reason timeout retry hrest hhide hy
  have hclass := classifyStored_alike hn hm
  unfold satisfyStored
  cases hc₁ : classifyStored spec m₁ with
  | absent =>
    cases hc₂ : classifyStored spec m₂ with
    | absent => exact prompt h
    | _ => rw [hc₁, hc₂] at hclass; exact hclass.elim
  | incomplete r₁ u₁ =>
    cases hc₂ : classifyStored spec m₂ with
    | incomplete r₂ u₂ =>
      rw [hc₁, hc₂] at hclass
      obtain ⟨rfl, hu⟩ := hclass
      dsimp only
      rw [hu]
      exact prompt h
    | _ => rw [hc₁, hc₂] at hclass; exact hclass.elim
  | complete vs₁ =>
    cases hc₂ : classifyStored spec m₂ with
    | complete vs₂ =>
      rw [hc₁, hc₂] at hclass
      have fills : ∀ {m : Option EnvMap} {vs : Values}, classifyStored spec m = .complete vs →
          ∃ m, Fills spec.fieldNames m vs := by
        intro m vs hc
        cases m with
        | none => cases hc
        | some m => exact ⟨m, classifyStored_complete.mp hc⟩
      have hvs : Entered spec vs₁ vs₂ := ⟨hclass, fills hc₁, fills hc₂⟩
      refine both_seq (validateUntilDecided_both hvs _ timeout retry h) fun v _ y₁ y₂ hv hy => ?_
      subst hv
      dsimp only
      cases v.status with
      | valid =>
        exact common_spec (Prog.only_bind (Prog.only_perform trivial) fun _ =>
          Prog.only_bind (Prog.only_perform trivial) fun _ => Prog.only_perform trivial) hy
      | invalid =>
        dsimp only
        rw [storedShown_alike hn hclass]
        exact prompt hy
      | error => exact together_fail hy.toSeen.shown.1 hy.toSeen.shown.2 ⟨rfl, hy.toSeen⟩
    | _ => rw [hc₁, hc₂] at hclass; exact hclass.elim

/-- Reading the secret's file on both sides. -/
theorem read_both {spec : SecretSpec} {r₁ r₂ : Except IoError String}
    (h : Level hidden (spec :: rest) x₁ x₂)
    (hs₁ : fed.step (.readToString spec.path) x₁ r₁ y₁)
    (hs₂ : fed.step (.readToString spec.path) x₂ r₂ y₂) :
    Level hidden rest y₁ y₂ ∧ ((∃ t₁ t₂, r₁ = .ok t₁ ∧ r₂ = .ok t₂ ∧
      StoredAlike spec (parseEnvFile t₁) (parseEnvFile t₂)) ∨ ∃ e, r₁ = .error e ∧ r₂ = .error e) := by
  obtain ⟨w₁, i₁⟩ := x₁
  obtain ⟨w₂, i₂⟩ := x₂
  obtain ⟨v₁, j₁⟩ := y₁
  obtain ⟨v₂, j₂⟩ := y₂
  obtain ⟨⟨hr₁, rfl⟩, ht₁⟩ := hs₁
  obtain ⟨⟨hr₂, rfl⟩, ht₂⟩ := hs₂
  obtain ⟨hq, hin⟩ := circumstance_alike h.inputs ht₁ ht₂
  refine ⟨h.refiled hin fun s hs => h.files s (List.mem_cons_of_mem _ hs), ?_⟩
  rcases r₁ with e₁ | t₁ <;> rcases r₂ with e₂ | t₂
  · exact Or.inr ⟨e₁, rfl, by rw [Option.some.inj (Circumstance.fault.inj hq)]⟩
  · cases hq
  · cases hq
  · obtain ⟨e₁, hf₁, htext₁⟩ := hr₁
    obtain ⟨e₂, hf₂, htext₂⟩ := hr₂
    have hfile := h.files spec List.mem_cons_self
    dsimp only at hfile
    rw [hf₁, hf₂] at hfile
    obtain ⟨hrel⟩ := hfile
    rw [htext₁, htext₂] at hrel
    obtain ⟨hrel⟩ := hrel
    exact Or.inl ⟨t₁, t₂, rfl, rfl, hrel⟩

theorem satisfy_both {pid : Nat} {spec : SecretSpec} (hs : spec.Checked)
    (hn : spec.fieldNames.Nodup) (ids : Ids) (timeout retry : Nat)
    (hrest : ∀ s ∈ rest, s.fieldNames.Nodup)
    (hhide : ∀ s ∈ rest, locate s.path = locate spec.path → HiddenFrom spec s)
    (h : Level hidden (spec :: rest) x₁ x₂) :
    Together fed Shown (HiddenBy hidden) (satisfy pid spec ids timeout retry)
      (satisfy pid spec ids timeout retry) (Both (Level hidden rest) Eq) x₁ x₂ := by
  refine common_seq (Prog.only_perform trivial) h fun _ y₁ y₂ _ hy => ?_
  refine common_seq (Prog.only_bind (Prog.only_perform trivial) fun _ =>
    Prog.only_perform trivial) hy fun _ y₁ y₂ _ hy => ?_
  refine together_step comparison hy.toSeen.shown.1 hy.toSeen.shown.2
    fun r₁ z₁ r₂ z₂ hs₁ hs₂ _ => ?_
  obtain ⟨hz, ⟨t₁, t₂, rfl, rfl, ht⟩ | ⟨e, rfl, rfl⟩⟩ := read_both hy hs₁ hs₂
  · exact satisfyStored_both hs hn ids timeout retry (.some ht) hrest hhide hz
  · dsimp only
    split
    · exact satisfyStored_both hs hn ids timeout retry .none hrest hhide hz
    · exact together_fail hz.toSeen.shown.1 hz.toSeen.shown.2 ⟨rfl, hz.toSeen⟩

/-! ## The run -/

/-- No secret shows a field that an earlier secret in the same file hides. -/
def HiddenApart (spec : Spec) : Prop :=
  spec.secrets.Pairwise fun s s' => locate s'.path = locate s.path → HiddenFrom s s'

theorem satisfyAll_both (pid timeout retry : Nat) (l : List (SecretSpec × Ids))
    (hl : ∀ s ∈ l, s.1.Checked ∧ s.1.fieldNames.Nodup)
    (hhide : (l.map Prod.fst).Pairwise fun s s' => locate s'.path = locate s.path → HiddenFrom s s')
    (h : Level hidden (l.map Prod.fst) x₁ x₂) :
    Together fed Shown (HiddenBy hidden) (satisfyAll pid timeout retry l)
      (satisfyAll pid timeout retry l) (Both (Level hidden []) Eq) x₁ x₂ := by
  induction l generalizing x₁ x₂ with
  | nil => exact together_pure h.toSeen.shown.1 h.toSeen.shown.2 ⟨rfl, h⟩
  | cons s l ih =>
    obtain ⟨s, ids⟩ := s
    rw [List.map_cons] at hhide h
    obtain ⟨hfirst, hlater⟩ := List.pairwise_cons.mp hhide
    have hs := hl _ List.mem_cons_self
    refine both_seq (satisfy_both hs.1 hs.2 ids timeout retry (fun s' hs' => ?_) hfirst h)
      fun _ _ y₁ y₂ _ hy => ih (fun s hs => hl s (List.mem_cons_of_mem _ hs)) hlater hy
    obtain ⟨x, hx, rfl⟩ := List.mem_map.mp hs'
    exact (hl x (List.mem_cons_of_mem _ hx)).2

omit [Externals] in
theorem common_of_setup {α : Type} {p : Daemon α} (hp : p.Only Setup) : p.Only Common := by
  refine hp.mono fun e he => ?_
  cases e with
  | file c => exact he
  | tryRecv => exact he.elim
  | runValidator => exact he.elim
  | readToString => exact he.elim
  | _ => trivial

theorem resolveAll_common (l : List SecretSpec) : (resolveAll l).Only Common := by
  induction l with
  | nil => trivial
  | cons s l ih =>
    exact Prog.only_bind (common_of_setup (resolveIds_setup s)) fun _ =>
      Prog.only_bind ih fun _ => trivial

omit [Externals] in
theorem fst_zip_sublist {α β : Type} (l : List α) (m : List β) :
    ((l.zip m).map Prod.fst).Sublist l := by
  induction l generalizing m with
  | nil => exact .slnil
  | cons a l ih =>
    cases m with
    | nil => exact List.nil_sublist _
    | cons b m => exact (ih m).cons_cons a

theorem run_both {pid : Nat} {cli : Cli} {text : String} {spec : Spec}
    (hspec : Spec.parse text = .ok spec) (hboot : cli.edit = false)
    (hnames : ∀ s ∈ spec.secrets, s.fieldNames.Nodup) (hhide : HiddenApart spec)
    (htext : x₁.1.specText = .ok text) (h : Level hidden spec.secrets x₁ x₂) :
    Together fed Shown (HiddenBy hidden) (run pid cli) (run pid cli)
      (Both (Level hidden []) Eq) x₁ x₂ := by
  refine together_step comparison h.toSeen.shown.1 h.toSeen.shown.2
    fun r₁ y₁ r₂ y₂ hs₁ hs₂ _ => ?_
  obtain ⟨rfl, hy⟩ := common_step (by trivial) h hs₁ hs₂
  obtain rfl : r₁ = .ok text := hs₁.1.1.trans htext
  dsimp only
  rw [hspec]
  refine common_seq (resolveAll_common _) hy fun ids y₁ y₂ _ hy => ?_
  refine common_seq (common_of_setup (prepareSocketParent_setup _)) hy fun _ y₁ y₂ _ hy => ?_
  refine common_seq (Prog.only_perform trivial) hy fun _ y₁ y₂ _ hy => ?_
  refine common_seq (common_of_setup (withContext_setup _ trivial)) hy fun _ y₁ y₂ _ hy => ?_
  refine common_seq (common_of_setup (withContext_setup _ trivial)) hy fun _ y₁ y₂ _ hy => ?_
  refine common_seq (Prog.only_perform trivial) hy fun _ y₁ y₂ _ hy => ?_
  rw [if_neg (by simp [hboot])]
  have hsub := fst_zip_sublist spec.secrets ids
  refine both_seq (satisfyAll_both pid _ _ _ (fun s hs => ?_) (hhide.sublist hsub)
    { hy with files := fun s hs => hy.files s (hsub.subset hs) }) fun _ _ y₁ y₂ _ hy => ?_
  · have hmem := (List.of_mem_zip hs).1
    exact ⟨Spec.parse_checked hspec _ hmem, hnames _ hmem⟩
  exact common_spec (Prog.only_bind (Prog.only_perform trivial) fun _ =>
    Prog.only_bind (Prog.only_bind (Prog.only_perform trivial) fun _ => Prog.only_perform trivial)
      fun _ => Prog.only_bind (Prog.only_perform trivial) fun _ => Prog.only_perform trivial) hy

/-- The operations that only say something. -/
def Speaks : {β : Type} → Op β → Prop
  | _, .eprintln _ | _, .writeState _ => True
  | _, _ => False

omit [Externals] in
theorem seen_step {β : Type} {e : Op β} {b₁ b₂ : β} (he : Speaks e) (h : Seen x₁ x₂)
    (hs₁ : fed.step e x₁ b₁ y₁) (hs₂ : fed.step e x₂ b₂ y₂) : Seen y₁ y₂ := by
  cases e with
  | eprintln line =>
    obtain ⟨hw₁ : y₁.1 = { x₁.1 with journal := x₁.1.journal ++ [line] }, -⟩ := hs₁
    obtain ⟨hw₂ : y₂.1 = { x₂.1 with journal := x₂.1.journal ++ [line] }, -⟩ := hs₂
    exact ⟨by rw [hw₁, hw₂]; exact h.sent, by rw [hw₁, hw₂]; exact h.stateFile,
      by rw [hw₁, hw₂, h.journal]⟩
  | writeState line =>
    obtain ⟨⟨how₁, -, hw₁⟩, -⟩ := hs₁
    obtain ⟨⟨how₂, -, hw₂⟩, -⟩ := hs₂
    exact ⟨by rw [hw₁, hw₂]; exact h.sent,
      by rw [hw₁, hw₂]; exact congrArg (· ++ [line]) h.stateFile,
      by rw [hw₁, hw₂]; exact h.journal⟩
  | _ => exact he.elim

theorem main_both {pid : Nat} {cli : Cli} {text : String} {spec : Spec}
    (hspec : Spec.parse text = .ok spec) (hboot : cli.edit = false)
    (hnames : ∀ s ∈ spec.secrets, s.fieldNames.Nodup) (hhide : HiddenApart spec)
    (htext : x₁.1.specText = .ok text) (h : Level hidden spec.secrets x₁ x₂) :
    Together fed Shown (HiddenBy hidden) (main pid cli) (main pid cli)
      (fun r₁ y₁ r₂ y₂ => r₁ = r₂ ∧ Seen y₁ y₂) x₁ x₂ := by
  have hrun := @run_both _ _ _ _ pid _ _ _ hspec hboot hnames hhide htext h
  refine together_seq comparison (together_attempt (Q := fun r₁ y₁ r₂ y₂ => match r₁, r₂ with
    | .ok a₁, .ok a₂ => a₁ = a₂ ∧ Seen y₁ y₂
    | .ok _, .error _ => False
    | .error _, _ => False) (together_mono hrun ?_)) ?_
  · rintro (e₁ | u₁) y₁ (e₂ | u₂) y₂ - hy
    · exact ⟨by rw [hy.1], hy.2⟩
    · exact hy.elim
    · exact hy.elim
    · exact ⟨rfl, hy.2.toSeen⟩
  · rintro (_ | a) y₁ (_ | b) y₂ - hy
    · exact hy.elim
    · exact hy.elim
    · exact hy.elim
    · obtain ⟨rfl, hseen⟩ := hy
      rcases a with (e | m) | u
      · refine together_step comparison hseen.shown.1 hseen.shown.2
          fun _ z₁ _ z₂ hs₁ hs₂ _ => ?_
        have hz := seen_step (by trivial) hseen hs₁ hs₂
        refine together_step comparison hz.shown.1 hz.shown.2 fun _ v₁ _ v₂ hs₁ hs₂ _ => ?_
        have hv := seen_step (by trivial) hz hs₁ hs₂
        exact together_pure hv.shown.1 hv.shown.2 ⟨rfl, hv⟩
      · exact together_fail hseen.shown.1 hseen.shown.2 ⟨rfl, hseen⟩
      · exact together_pure hseen.shown.1 hseen.shown.2 ⟨rfl, hseen⟩

end

end Foundrix.OperatorSecrets

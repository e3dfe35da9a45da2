import Foundrix.OperatorSecrets.Release
import Foundrix.OperatorSecrets.Secrecy

/-!
# What the clients and the state file do not tell

The runs of `Secrecy` end with the same shown, for every spec in which no secret shows a
field that an earlier one hides in the same file. `Spec::parse` accepts others, and there a
sensitive value comes back as the pre-filled value of another secret's field. What a validator
that cannot decide writes to stderr is shown with the values redacted, so it must read the same
after the redaction of either run's values: where it names the value of one run, that run shows
the mark of the redaction and the other one the name.

* `sensitive_values_unseen`: the comparison of two boot runs.
* `redaction_told`: two runs whose snapshots differ in what the redaction left of stderr.
* `sensitive_value_prefilled`: two runs whose snapshots differ in a sensitive value.
-/

namespace Foundrix.OperatorSecrets

open Effect Text

/-- Two boot runs on messages and files that differ in values of sensitive fields only, whose
validators write and end the same, also after the redaction of stderr: whenever both have ended,
they have the same result and have shown the same to the clients, in the state file and in the
journal; before that, one has shown what the other has, or less. -/
theorem sensitive_values_unseen [Externals] (pid : Nat) (cli : Cli) (text : String) (spec : Spec)
    (hspec : Spec.parse text = .ok spec) (hboot : cli.edit = false)
    (hnames : ∀ s ∈ spec.secrets, s.fieldNames.Nodup) (hapart : HiddenApart spec)
    (hidden : Nat → String → Bool) (files₁ files₂ : Files)
    (hfiles : ∀ s ∈ spec.secrets, FileAlike s (files₁ (locate s.path)) (files₂ (locate s.path)))
    (i₁ i₂ : Inputs) (hinputs : i₁.Alike hidden i₂)
    (htold : i₁.trials.map Trial.told = i₂.trials.map Trial.told)
    (o₁ o₂ : Option (Except Stop Nat)) (y₁ y₂ : World × Inputs)
    (h₁ : Run fed (main pid cli) (World.initial cli.socket (.ok text) files₁, i₁) o₁ y₁)
    (h₂ : Run fed (main pid cli) (World.initial cli.socket (.ok text) files₂, i₂) o₂ y₂)
    (hhidden : HiddenBy hidden y₁) :
    Agree Shown (fun r₁ y₁ r₂ y₂ => r₁ = r₂ ∧ Seen y₁ y₂) o₁ y₁ o₂ y₂ := by
  have h : Level hidden spec.secrets (World.initial cli.socket (.ok text) files₁, i₁)
      (World.initial cli.socket (.ok text) files₂, i₂) :=
    ⟨⟨rfl, rfl, rfl⟩, rfl, rfl, rfl, rfl, ⟨hinputs, htold⟩, hfiles⟩
  exact main_both hspec hboot hnames hapart rfl h o₁ y₁ o₂ y₂ h₁ h₂ hhidden

/-! ## Runs on given inputs -/

/-- What the script's answer to an operation tells of the host. -/
def met {β : Type} (e : Op β) (w : World) (b : β) : List Circumstance :=
  match e, b with
  | .mutate _, _ | .writeState _, _ => [.overwritten (some (some 0))]
  | .removeSocket, _ => [.done (entryPerform w.home.socket (fun _ => none) w.files).1]
  | e, b => (circumstance e b).toList

/-- The answer of the script, if the circumstances agree with it. -/
@[irreducible]
def replyMet {β : Type} (e : Op β) (x : World × Inputs) : Option (β × World × Inputs) :=
  let r := reply {} e x.1 []
  let now := met e x.1 r.1
  if now <+: x.2.circumstances then
    some (r.1, (r.2, { x.2 with circumstances := x.2.circumstances.drop now.length }))
  else none

def scriptedInputs : Oracle Op (World × Inputs) where
  answer e x :=
    match e with
    | .tryRecv =>
      some (x.2.messages.head?, (x.1, { x.2 with messages := x.2.messages.tail }))
    | .runValidator _ values _ =>
      match x.2.trials with
      | [] => none
      | t :: ts => if t.values = values then some (t.outcome, (x.1, { x.2 with trials := ts }))
        else none
    | e => replyMet e x

variable [Externals]

theorem replyMet_sound {β : Type} {e : Op β} {x : World × Inputs} {b : β} {y : World × Inputs}
    (h : replyMet e x = some (b, y)) : (reply {} e x.1 []).2 = y.1 ∧ Answer e x.1 b y.1 ∧
      x.2 = { y.2 with circumstances := met e x.1 b ++ y.2.circumstances } := by
  unfold replyMet at h
  obtain ⟨⟨rest, hrest⟩, hout⟩ := Option.ite_none_right_eq_some.mp h
  obtain ⟨rfl, rfl⟩ := Prod.mk.inj (Option.some.inj hout)
  refine ⟨rfl, (scripted_sound {} e (x.1, []) _ _ rfl).1, ?_⟩
  dsimp only
  rw [← hrest, List.drop_left, hrest]

omit [Externals] in
/-- A state file that is written whole lacks nothing. -/
theorem writing_whole {body : String} {x y : World × Inputs}
    (hfiles : y.1.files = (Overwriting.wrote (some body)).effect x.1.home.stateFile x.1.files)
    (hin : x.2 = { y.2 with
      circumstances := .overwritten (some (some 0)) :: y.2.circumstances }) :
    TakesWriting body x y := by
  refine ⟨.wrote (some body), of_whole body, hfiles, hin.trans ?_⟩
  simp [Overwriting.missing]

theorem scriptedInputs_sound {β : Type} (e : Op β) (x : World × Inputs) (b : β)
    (y : World × Inputs) (h : scriptedInputs.answer e x = some (b, y)) : fed.step e x b y := by
  cases e with
  | tryRecv =>
    obtain ⟨w, _ | ⟨m, ms⟩, vs, cs⟩ := x
    all_goals
      obtain ⟨rfl, rfl⟩ := Prod.mk.inj (Option.some.inj h)
      exact ⟨rfl, rfl⟩
  | runValidator argv values timeout =>
    obtain ⟨w, ms, _ | ⟨t, ts⟩, cs⟩ := x
    · cases h
    · obtain ⟨rfl, hout⟩ := Option.ite_none_right_eq_some.mp h
      obtain ⟨rfl, rfl⟩ := Prod.mk.inj (Option.some.inj hout)
      exact ⟨rfl, rfl⟩
  | mutate | writeState =>
    obtain ⟨hw, ha, hin⟩ := replyMet_sound h
    exact ⟨ha, writing_whole (hw ▸ rfl) hin⟩
  | removeSocket =>
    obtain ⟨hw, ha, hin⟩ := replyMet_sound h
    exact ⟨ha, _, hw ▸ entryPerform_answers _ _ _, hin⟩
  | _ =>
    obtain ⟨-, ha, hin⟩ := replyMet_sound h
    exact ⟨ha, hin⟩

theorem scriptedInputs_run {α : Type} (n : Nat) (p : Daemon α) (x : World × Inputs) :
    Run fed p x (p.exec scriptedInputs n x).1 (p.exec scriptedInputs n x).2 :=
  exec_run (fun e x b y h => scriptedInputs_sound e x b y h) n p x

omit [Externals]

/-- A secret with one sensitive field and one that may be shown. -/
def keyedSecret : SecretSpec where
  name := "a"
  fields := [{ name := "K", sensitive := true }, { name := "U" }]
  path := "/s/f"

/-- The same with a validator. -/
def provenSecret : SecretSpec where
  name := "a"
  fields := [{ name := "K", sensitive := true }, { name := "U" }]
  path := "/s/f"
  validateCommand := some ["/bin/validate"]

def provenText : String := "\x7b\"version\":1,\"secrets\":[\x7b\"name\":\"a\",\"fields\":[" ++
  "\x7b\"name\":\"K\",\"sensitive\":true\x7d,\x7b\"name\":\"U\"\x7d],\"path\":\"/s/f\"," ++
  "\"validate_command\":[\"/bin/validate\"]\x7d]\x7d"

/-- The circumstances of resolving the owner and the group of a secret. -/
def resolvedRoot : List Circumstance :=
  [.text "", .text "", .found (some "root:x:0:0"), .found (some "root:x:0:0")]

/-- The answer where no file is. -/
def absent : IoError := ⟨.notFound, "No such file or directory (os error 2)"⟩

/-- The circumstances of preparing the control socket. -/
def preparedSocket : List Circumstance :=
  [.fault none, .done (.ok ()), .done (.error absent), .done (.ok ()), .done (.ok ())]

/-- The state file is written so many times. -/
def stated (n : Nat) : List Circumstance := List.replicate n (.overwritten (some (some 0)))

/-- The circumstances of writing a file where no temporary one is. -/
def written : List Circumstance :=
  let failed := .fault (some ⟨.other, "operation failed"⟩)
  [.fault none, failed] ++ List.replicate 6 (.fault none)

/-- An answer that leaves the sensitive field out, and one that gives it, on which the validator
cannot decide at first. -/
def keyedInputs (stderr key : String) : Inputs where
  messages := [.submit 1 [("U", "u")], .submit 2 [("K", key), ("U", "u")]]
  trials := [⟨[("K", key), ("U", "u")], .answered "" stderr .success⟩,
    ⟨[("K", key), ("U", "u")], .answered "\x7b\"status\":\"valid\"\x7d\n" "" .success⟩]
  circumstances := resolvedRoot ++ preparedSocket ++ stated 3 ++ [.fault (some absent)] ++
    stated 13 ++ written ++ stated 4 ++ [.done (.ok ())]

/-- The field that is hidden in the prompts. -/
def keyHidden (_ : Nat) (name : String) : Bool := name == "K"

/-- The boot run on this key. -/
def keyedEnd (stderr key : String) : Option (Except Stop Nat) × (World × Inputs) :=
  letI := samplePrograms provenText ⟨1, [provenSecret]⟩
  (main 7 sampleCli).exec scriptedInputs 200
    (World.initial sampleCli.socket (.ok provenText) fun _ => none, keyedInputs stderr key)

theorem keyed_run (stderr key : String) :
    letI := samplePrograms provenText ⟨1, [provenSecret]⟩
    Run fed (main 7 sampleCli)
      (World.initial sampleCli.socket (.ok provenText) fun _ => none, keyedInputs stderr key)
      (keyedEnd stderr key).1 (keyedEnd stderr key).2 :=
  letI := samplePrograms provenText ⟨1, [provenSecret]⟩
  scriptedInputs_run _ _ _

theorem proven_parse :
    @Spec.parse (samplePrograms provenText ⟨1, [provenSecret]⟩) provenText =
      .ok ⟨1, [provenSecret]⟩ := by
  unfold Spec.parse
  rw [samplePrograms_specFromStr]
  decide

theorem keyed_alike (stderr : String) {k₁ k₂ : String} (h : ValueAlike true k₁ k₂) :
    (keyedInputs stderr k₁).Alike keyHidden (keyedInputs stderr k₂) :=
  ⟨.cons ⟨rfl, .cons ⟨rfl, Or.inl rfl⟩ .nil⟩
    (.cons ⟨rfl, .cons ⟨rfl, h⟩ (.cons ⟨rfl, Or.inl rfl⟩ .nil)⟩ .nil), rfl, rfl⟩

/-- Two keys are stored after a validation that was not decided, and nothing that was shown tells
which. -/
theorem sensitive_values_unseen_sample :
    (keyedEnd "timeout" "abcd").1 = some (.ok 0) ∧ (keyedEnd "timeout" "wxyz").1 = some (.ok 0) ∧
    (keyedEnd "timeout" "abcd").2.1.files ["s", "f"] =
      some ⟨some "K=abcd\nU=u\n", 0, 0, 0o400⟩ ∧
    (keyedEnd "timeout" "wxyz").2.1.files ["s", "f"] =
      some ⟨some "K=wxyz\nU=u\n", 0, 0, 0o400⟩ ∧
    Seen (keyedEnd "timeout" "abcd").2 (keyedEnd "timeout" "wxyz").2 := by
  let _ := samplePrograms provenText ⟨1, [provenSecret]⟩
  have h₁ : (keyedEnd "timeout" "abcd").1 = some (.ok 0) := by decide +kernel
  have h₂ : (keyedEnd "timeout" "wxyz").1 = some (.ok 0) := by decide +kernel
  have hhidden : ∀ snap ∈ (keyedEnd "timeout" "abcd").2.1.sent, ∀ p ∈ snap.prompt,
      ∀ f ∈ p.fields, keyHidden p.id f.name = f.sensitive := by decide +kernel
  have hkey : ValueAlike true "abcd" "wxyz" := Or.inr ⟨rfl, by decide⟩
  have htold : (keyedInputs "timeout" "abcd").trials.map Trial.told =
      (keyedInputs "timeout" "wxyz").trials.map Trial.told := by decide +kernel
  have hfile₁ : (keyedEnd "timeout" "abcd").2.1.files ["s", "f"] =
      some ⟨some "K=abcd\nU=u\n", 0, 0, 0o400⟩ := by decide +kernel
  have hfile₂ : (keyedEnd "timeout" "wxyz").2.1.files ["s", "f"] =
      some ⟨some "K=wxyz\nU=u\n", 0, 0, 0o400⟩ := by decide +kernel
  have hrun₁ := keyed_run "timeout" "abcd"
  have hrun₂ := keyed_run "timeout" "wxyz"
  generalize keyedEnd "timeout" "abcd" = e₁, keyedEnd "timeout" "wxyz" = e₂ at *
  have hagree := sensitive_values_unseen 7 sampleCli provenText ⟨1, [provenSecret]⟩ proven_parse
    rfl (by decide) (List.pairwise_singleton _ _) keyHidden (fun _ => none) (fun _ => none)
    (fun _ _ => .none) _ _ (keyed_alike "timeout" hkey) htold e₁.1 e₂.1 e₁.2 e₂.2
    hrun₁ hrun₂ hhidden
  exact ⟨h₁, h₂, hfile₁, hfile₂, (hagree.ended h₁ h₂).2⟩

/-- The validators write the same, and what the redaction leaves of it tells the keys apart. -/
theorem redaction_told :
    (keyedEnd "lookup of abcd failed" "abcd").1 = some (.ok 0) ∧
    (keyedEnd "lookup of abcd failed" "wxyz").1 = some (.ok 0) ∧
    (keyedEnd "lookup of abcd failed" "abcd").2.1.stateFile ≠
      (keyedEnd "lookup of abcd failed" "wxyz").2.1.stateFile ∧
    (keyedInputs "lookup of abcd failed" "abcd").Alike keyHidden
      (keyedInputs "lookup of abcd failed" "wxyz") :=
  ⟨by decide +kernel, by decide +kernel, by decide +kernel,
    keyed_alike _ (Or.inr ⟨rfl, by decide⟩)⟩

/-! ## A sensitive value in another secret's form -/

/-- A second secret in the same file, which shows the field that the first one hides. -/
def openSecret : SecretSpec where
  name := "b"
  fields := [{ name := "K" }, { name := "L" }]
  path := "/s/f"

def openText : String := "\x7b\"version\":1,\"secrets\":[\x7b\"name\":\"a\",\"fields\":[" ++
  "\x7b\"name\":\"K\",\"sensitive\":true\x7d,\x7b\"name\":\"U\"\x7d],\"path\":\"/s/f\"\x7d," ++
  "\x7b\"name\":\"b\",\"fields\":[\x7b\"name\":\"K\"\x7d,\x7b\"name\":\"L\"\x7d]," ++
  "\"path\":\"/s/f\"\x7d]\x7d"

def openSpec : Spec := ⟨1, [keyedSecret, openSecret]⟩

def openInputs (key : String) : Inputs where
  messages := [.submit 1 [("K", key), ("U", "u")]]
  circumstances := resolvedRoot ++ resolvedRoot ++ preparedSocket ++ stated 3 ++
    [.fault (some absent)] ++ stated 5 ++ written ++ stated 4 ++ [.fault none] ++ stated 3

/-- The boot run up to the prompt for the second secret. -/
def openEnd (key : String) : Option (Except Stop Nat) × (World × Inputs) :=
  letI := samplePrograms openText openSpec
  (main 7 sampleCli).exec scriptedInputs 200
    (World.initial sampleCli.socket (.ok openText) fun _ => none, openInputs key)

theorem open_run (key : String) :
    letI := samplePrograms openText openSpec
    Run fed (main 7 sampleCli)
      (World.initial sampleCli.socket (.ok openText) fun _ => none, openInputs key)
      (openEnd key).1 (openEnd key).2 :=
  letI := samplePrograms openText openSpec
  scriptedInputs_run _ _ _

theorem open_parse : @Spec.parse (samplePrograms openText openSpec) openText = .ok openSpec := by
  unfold Spec.parse
  rw [samplePrograms_specFromStr]
  decide

/-- The two runs differ in the key alone, and the last prompt shows it. -/
theorem sensitive_value_prefilled :
    ¬ ∀ (_ : Externals) (pid : Nat) (cli : Cli) (text : String) (spec : Spec),
      Spec.parse text = .ok spec → cli.edit = false →
      (∀ s ∈ spec.secrets, s.fieldNames.Nodup) →
      ∀ (hidden : Nat → String → Bool) (files₁ files₂ : Files),
      (∀ s ∈ spec.secrets, FileAlike s (files₁ (locate s.path)) (files₂ (locate s.path))) →
      ∀ i₁ i₂ : Inputs, i₁.Alike hidden i₂ →
      ∀ (o₁ o₂ : Option (Except Stop Nat)) (y₁ y₂ : World × Inputs),
      Run fed (main pid cli) (World.initial cli.socket (.ok text) files₁, i₁) o₁ y₁ →
      Run fed (main pid cli) (World.initial cli.socket (.ok text) files₂, i₂) o₂ y₂ →
      HiddenBy hidden y₁ → Agree Shown (fun r₁ y₁ r₂ y₂ => r₁ = r₂ ∧ Seen y₁ y₂) o₁ y₁ o₂ y₂ := by
  intro h
  let _ := samplePrograms openText openSpec
  have hhidden : ∀ snap ∈ (openEnd "v1").2.1.sent, ∀ p ∈ snap.prompt, ∀ f ∈ p.fields,
      (p.id == 1 && f.name == "K") = f.sensitive := by decide +kernel
  have hkey : ValueAlike true "v1" "v2" := Or.inr ⟨rfl, by decide⟩
  have hinputs : (openInputs "v1").Alike (fun id name => id == 1 && name == "K")
      (openInputs "v2") :=
    ⟨.cons ⟨rfl, .cons ⟨rfl, hkey⟩ (.cons ⟨rfl, Or.inl rfl⟩ .nil)⟩ .nil, rfl, rfl⟩
  have hcut₁ : (openEnd "v1").1 = none := by decide +kernel
  have hcut₂ : (openEnd "v2").1 = none := by decide +kernel
  have hno₁ : ¬ (openEnd "v1").2.1.sent <+: (openEnd "v2").2.1.sent := by decide +kernel
  have hno₂ : ¬ (openEnd "v2").2.1.sent <+: (openEnd "v1").2.1.sent := by decide +kernel
  have hrun₁ := open_run "v1"
  have hrun₂ := open_run "v2"
  generalize openEnd "v1" = e₁, openEnd "v2" = e₂ at *
  have hagree := h _ 7 sampleCli openText openSpec open_parse rfl (by decide)
    (fun id name => id == 1 && name == "K") (fun _ => none) (fun _ => none) (fun _ _ => .none)
    (openInputs "v1") (openInputs "v2") hinputs e₁.1 e₂.1 e₁.2 e₂.2 hrun₁ hrun₂ hhidden
  rcases hagree.cut hcut₁ hcut₂ with hs | hs
  · exact hno₁ hs.sent
  · exact hno₂ hs.sent

end Foundrix.OperatorSecrets

import Foundrix.OperatorSecrets.Protocol

/-!
# operator-secrets-tui

The client of `packages/operator-secrets/src/bin/tui.rs`: what it keeps of the snapshots that it
is sent, what the keys do to the form on the screen, and what it sends.

* `App`, `adopt`, `submit`, `handle`: the functions of the client.
* `after`: the client after what has happened to it.
* `prompt_split`: the form on the screen came with a snapshot and was shown ever since.
* `alike_of_shown`: its inputs are those of a client that was shown nothing else.
* `handle_answers`: what is sent is the form on the screen.
-/

namespace Foundrix.OperatorSecrets.Tui

/-! ## The screen -/

/-- The arguments that the loop reads. -/
structure Cli where
  console : Bool := false
  secret : Option String := none
deriving DecidableEq, Repr

structure App where
  snap : Snapshot := {}
  /-- One editable buffer for each field of the prompt, in their order. -/
  inputs : List String := []
  focus : Nat := 0
  selected : Nat := 0
  choiceSent : Bool := false
  daemonGone : Bool := false
  note : String := ""
  /-- `run_tui` has returned. -/
  returned : Bool := false
deriving DecidableEq, Repr

inductive KeyCode where
  | esc
  | enter
  | tab
  | backTab
  | up
  | down
  | backspace
  | char (c : Char)
  | other
deriving DecidableEq, Repr

structure Key where
  code : KeyCode
  ctrl : Bool := false
deriving DecidableEq, Repr

/-- What the loop selects. A message that is sent meanwhile is written or not. -/
inductive Event where
  | line (snap : Snapshot) (written : Bool)
  /-- There are no more lines. -/
  | closed
  | key (key : Key) (written : Bool)
deriving DecidableEq, Repr

/-- The client after one turn of its loop, and the message that it sent. -/
structure Turn where
  app : App
  sent : Option ClientMsg := none
deriving DecidableEq, Repr

namespace App

def promptId (app : App) : Option Nat := app.snap.prompt.map Prompt.id

/-- Half-typed input is kept where the prompt is the same one, and discarded where it is not. -/
def adopt (app : App) (snap : Snapshot) : App :=
  let newId := snap.prompt.map Prompt.id
  let reset :=
    if newId ≠ app.promptId then
      { app with
        inputs := ((snap.prompt.map fun p => p.fields.map PromptField.value)).getD []
        focus := 0
        note := "" }
    else app
  { reset with snap, selected := min reset.selected (snap.secrets.length - 1) }

def fieldCount (app : App) : Nat := (app.snap.prompt.map fun p => p.fields.length).getD 0

def choosing (app : App) : Bool := app.snap.choosing && app.snap.prompt.isNone

def moveFocus (app : App) (delta : Int) : App :=
  let n := app.fieldCount
  if n = 0 then app
  else { app with focus := ((Int.ofNat (min app.focus (n - 1)) + delta) % Int.ofNat n).toNat }

def moveSelection (app : App) (delta : Int) : App :=
  let n := app.snap.secrets.length
  if n = 0 then app
  else { app with selected := ((Int.ofNat (min app.selected (n - 1)) + delta) % Int.ofNat n).toNat }

def connectionLost (app : App) : App :=
  { app with daemonGone := true, note := "daemon connection lost" }

/-- Tell the session which secret to re-enter. -/
def sendChoice (app : App) (written : Bool) (secret : String) : Turn where
  app := if written then app else app.connectionLost
  sent := some (.edit secret)

/-- The first field that is empty, with its place. -/
def emptyField (app : App) (prompt : Prompt) : Option (PromptField × Nat) :=
  prompt.fields.zipIdx.find? fun f => (app.inputs[f.2]?).all (· == "")

/-- The form as it is sent. -/
def formValues (app : App) (prompt : Prompt) : Values :=
  prompt.fields.zipIdx.map fun f => (f.1.name, (app.inputs[f.2]?).getD "")

def submit (app : App) (written : Bool) : Turn :=
  match app.snap.prompt with
  | none => { app }
  | some prompt =>
    match app.emptyField prompt with
    | some (f, i) => { app := { app with focus := i, note := s!"{f.name} is empty" } }
    | none =>
      { app :=
          if written then { app with note := "submitted; validating..." } else app.connectionLost
        sent := some (.submit prompt.id (app.formValues prompt)) }

def quit (app : App) : App := { app with returned := true }

def edit (app : App) (f : String → String) : App :=
  { app with inputs := app.inputs.modify app.focus f }

/-- A key on the screen where a secret is picked. -/
def pickKey (app : App) (key : Key) (written : Bool) : Turn :=
  match key.code with
  | .esc => { app := app.quit }
  | .char c => { app := if key.ctrl && c == 'c' then app.quit else app }
  | .down | .tab => { app := app.moveSelection 1 }
  | .up | .backTab => { app := app.moveSelection (-1) }
  | .enter =>
    match app.snap.secrets[app.selected]? with
    | some s => app.sendChoice written s.name
    | none => { app }
  | _ => { app }

/-- A key on the screen with the form. -/
def formKey (cli : Cli) (app : App) (key : Key) (written : Bool) : Turn :=
  match key.code with
  | .esc => { app := if cli.console then app else app.quit }
  | .tab | .down => { app := app.moveFocus 1 }
  | .backTab | .up => { app := app.moveFocus (-1) }
  | .enter =>
    if app.fieldCount = 0 then
      { app := if app.daemonGone && !cli.console then app.quit else app }
    else if app.focus + 1 < app.fieldCount then { app := app.moveFocus 1 }
    else app.submit written
  | .backspace => { app := app.edit fun b => String.ofList b.toList.dropLast }
  | .char c =>
    if key.ctrl && c == 'c' then
      { app :=
          if cli.console then { app with note := "Ctrl-C is disabled on the console UI" }
          else app.quit }
    else if key.ctrl && c == 's' then app.submit written
    else if key.ctrl && c == 'u' then { app := app.edit fun _ => "" }
    else { app := app.edit fun b => b.push c }
  | .other => { app }

/-- One turn of the loop of `run_tui`. -/
def handle (cli : Cli) (app : App) : Event → Turn
  | .line snap written =>
    let app := app.adopt snap
    match cli.secret with
    | some name =>
      if app.choosing && !app.choiceSent then
        { app with choiceSent := true }.sendChoice written name
      else { app }
    | none => { app }
  | .closed =>
    { app := if cli.console then { app with daemonGone := true }.quit
        else { app with daemonGone := true } }
  | .key key written =>
    if app.choosing then app.pickKey key written else app.formKey cli key written

end App

/-- The client after what has happened to it, the earliest first. -/
def after (cli : Cli) (events : List Event) : App :=
  events.foldl (fun app e => (app.handle cli e).app) {}

theorem after_concat (cli : Cli) (events : List Event) (e : Event) :
    after cli (events ++ [e]) = ((after cli events).handle cli e).app := by
  simp [after]

/-! ## The prompt on the screen -/

section Screen

variable {cli : Cli} {p : Prompt} {snap : Snapshot} {written : Bool}

theorem App.sendChoice_snap (app : App) (written : Bool) (secret : String) :
    (app.sendChoice written secret).app.snap = app.snap := by
  unfold App.sendChoice
  dsimp only
  split <;> rfl

theorem App.submit_snap (app : App) (written : Bool) :
    (app.submit written).app.snap = app.snap := by
  unfold App.submit
  split
  · rfl
  · split
    · rfl
    · dsimp only
      split <;> rfl

theorem App.moveFocus_snap (app : App) (delta : Int) : (app.moveFocus delta).snap = app.snap := by
  unfold App.moveFocus
  dsimp only
  split <;> rfl

theorem App.moveSelection_snap (app : App) (delta : Int) :
    (app.moveSelection delta).snap = app.snap := by
  unfold App.moveSelection
  dsimp only
  split <;> rfl

theorem App.pickKey_snap (app : App) (key : Key) (written : Bool) :
    (app.pickKey key written).app.snap = app.snap := by
  unfold App.pickKey
  cases key.code with
  | char c =>
    dsimp only
    split <;> rfl
  | down | tab => exact app.moveSelection_snap 1
  | up | backTab => exact app.moveSelection_snap (-1)
  | enter =>
    dsimp only
    cases app.snap.secrets[app.selected]? with
    | some s => exact app.sendChoice_snap written s.name
    | none => rfl
  | _ => rfl

theorem App.formKey_snap (cli : Cli) (app : App) (key : Key) (written : Bool) :
    (app.formKey cli key written).app.snap = app.snap := by
  unfold App.formKey
  cases key.code with
  | esc =>
    dsimp only
    split <;> rfl
  | tab | down => exact app.moveFocus_snap 1
  | backTab | up => exact app.moveFocus_snap (-1)
  | enter =>
    dsimp only
    split
    · dsimp only
      split <;> rfl
    · split
      · exact app.moveFocus_snap 1
      · exact app.submit_snap written
  | backspace => rfl
  | char c =>
    dsimp only
    split
    · dsimp only
      split <;> rfl
    · split
      · exact app.submit_snap written
      · split <;> rfl
  | other => rfl

/-- Only a line brings another snapshot. -/
theorem App.handle_snap (cli : Cli) (app : App) (e : Event) :
    (app.handle cli e).app.snap = match e with
      | .line snap _ => snap
      | _ => app.snap := by
  cases e with
  | line snap written =>
    simp only [App.handle]
    split
    · split
      · exact App.sendChoice_snap _ _ _
      · rfl
    · rfl
  | closed =>
    simp only [App.handle]
    split <;> rfl
  | key key written =>
    simp only [App.handle]
    split
    · exact app.pickKey_snap key written
    · exact app.formKey_snap cli key written

/-- The prompt of this id was shown all the time since the snapshot that brought it. -/
structure ShownSince (cli : Cli) (older : List Event) (snap : Snapshot) (during : List Event)
    (id : Nat) : Prop where
  new : (after cli older).promptId ≠ some id
  brought : snap.prompt.map Prompt.id = some id
  shown : ∀ s written, Event.line s written ∈ during → s.prompt.map Prompt.id = some id

/-- A prompt on the screen came with a snapshot, and every snapshot since then had it. -/
theorem prompt_split {events : List Event} {id : Nat} (h : (after cli events).promptId = some id) :
    ∃ older snap written during, events = older ++ .line snap written :: during ∧
      ShownSince cli older snap during id := by
  induction events using List.reverseRecOn with
  | nil => cases h
  | append_singleton events e ih =>
    rw [after_concat, App.promptId, App.handle_snap] at h
    have hkept : (after cli events).promptId = some id →
        (∀ s written, e = .line s written → s.prompt.map Prompt.id = some id) →
        ∃ older snap written during, events ++ [e] = older ++ .line snap written :: during ∧
          ShownSince cli older snap during id := by
      intro hbefore he
      obtain ⟨older, snap, written, during, rfl, hshown⟩ := ih hbefore
      refine ⟨older, snap, written, during ++ [e], by simp, hshown.new, hshown.brought, ?_⟩
      intro s written' hmem
      rcases List.mem_append.mp hmem with hmem | hmem
      · exact hshown.shown s written' hmem
      · exact he s written' (List.mem_singleton.mp hmem).symm
    cases e with
    | line snap written =>
      by_cases hbefore : (after cli events).promptId = some id
      · exact hkept hbefore fun s w he => by cases he; exact h
      · exact ⟨events, snap, written, [], rfl, hbefore, h, nofun⟩
    | closed => exact hkept h nofun
    | key key written => exact hkept h nofun

/-! ## The inputs -/

/-- Two clients with the same form on the screen. -/
structure Alike (p : Prompt) (a b : App) : Prop where
  left : a.snap.prompt = some p
  right : b.snap.prompt = some p
  inputs : a.inputs = b.inputs
  focus : a.focus = b.focus

variable {a b : App}

theorem Alike.fieldCount (h : Alike p a b) : a.fieldCount = b.fieldCount := by
  rw [App.fieldCount, App.fieldCount, h.left, h.right]

theorem Alike.moveFocus (h : Alike p a b) (delta : Int) :
    Alike p (a.moveFocus delta) (b.moveFocus delta) := by
  unfold App.moveFocus
  rw [h.fieldCount, h.focus]
  dsimp only
  split
  · exact h
  · exact ⟨h.left, h.right, h.inputs, rfl⟩

theorem Alike.edit (h : Alike p a b) (f : String → String) : Alike p (a.edit f) (b.edit f) := by
  refine ⟨h.left, h.right, ?_, h.focus⟩
  unfold App.edit
  rw [h.inputs, h.focus]

theorem Alike.submit (h : Alike p a b) (written : Bool) :
    Alike p (a.submit written).app (b.submit written).app := by
  have hempty : a.emptyField p = b.emptyField p := by
    unfold App.emptyField
    rw [h.inputs]
  unfold App.submit
  simp only [h.left, h.right, hempty]
  split
  · exact ⟨h.left, h.right, h.inputs, rfl⟩
  · dsimp only
    split
    · exact ⟨h.left, h.right, h.inputs, h.focus⟩
    · exact ⟨h.left, h.right, h.inputs, h.focus⟩

theorem Alike.formKey (h : Alike p a b) (key : Key) (written : Bool) :
    Alike p (a.formKey cli key written).app (b.formKey cli key written).app := by
  have hquit : ∀ c d : Bool, Alike p (if c then a.quit else a) (if d then b.quit else b) := by
    intro c d
    cases c <;> cases d <;> exact ⟨h.left, h.right, h.inputs, h.focus⟩
  unfold App.formKey
  cases key.code with
  | esc =>
    dsimp only
    split
    · exact h
    · exact ⟨h.left, h.right, h.inputs, h.focus⟩
  | tab => exact h.moveFocus 1
  | down => exact h.moveFocus 1
  | backTab => exact h.moveFocus (-1)
  | up => exact h.moveFocus (-1)
  | enter =>
    simp only [h.fieldCount, h.focus]
    split
    · exact hquit _ _
    · split
      · exact h.moveFocus 1
      · exact h.submit written
  | backspace => exact h.edit _
  | char c =>
    dsimp only
    split
    · split
      · exact ⟨h.left, h.right, h.inputs, h.focus⟩
      · exact ⟨h.left, h.right, h.inputs, h.focus⟩
    · split
      · exact h.submit written
      · split
        · exact h.edit _
        · exact h.edit _
  | other => exact h

/-- Where a form is up, all that changes it are keys. -/
theorem Alike.key (h : Alike p a b) (key : Key) (written : Bool) :
    Alike p (a.handle cli (.key key written)).app (b.handle cli (.key key written)).app := by
  have ha : a.choosing = false := by simp [App.choosing, h.left]
  have hb : b.choosing = false := by simp [App.choosing, h.right]
  simp only [App.handle, ha, hb]
  exact h.formKey key written

theorem App.handle_line (hsnap : snap.prompt = some p) :
    (a.handle cli (.line snap written)).app = a.adopt snap := by
  have hchoosing : (a.adopt snap).choosing = false := by simp [App.choosing, App.adopt, hsnap]
  simp only [App.handle, hchoosing]
  split <;> rfl

/-- A snapshot with the prompt that is up changes nothing of the form. -/
theorem Alike.line (h : Alike p a b) (hsnap : snap.prompt = some p) :
    Alike p (a.handle cli (.line snap written)).app b := by
  rw [App.handle_line hsnap]
  have hsame : ¬ snap.prompt.map Prompt.id ≠ a.promptId := by
    rw [App.promptId, h.left, hsnap]
    exact not_not.mpr rfl
  unfold App.adopt
  simp only [if_neg hsame]
  exact ⟨hsnap, h.right, h.inputs, h.focus⟩

theorem Alike.closed (h : Alike p a b) : Alike p (a.handle cli .closed).app b := by
  simp only [App.handle]
  split <;> exact ⟨h.left, h.right, h.inputs, h.focus⟩

/-- A prompt that is new on the screen comes as it was posted. -/
theorem alike_of_new (hsnap : snap.prompt = some p) (ha : a.promptId ≠ some p.id)
    (hb : b.promptId ≠ some p.id) :
    Alike p (a.handle cli (.line snap written)).app (b.handle cli (.line snap written)).app := by
  rw [App.handle_line hsnap, App.handle_line hsnap]
  have hreset : ∀ {app : App}, app.promptId ≠ some p.id → snap.prompt.map Prompt.id ≠ app.promptId := by
    intro app happ heq
    rw [hsnap] at heq
    exact happ heq.symm
  unfold App.adopt
  simp only [if_pos (hreset ha), if_pos (hreset hb)]
  exact ⟨hsnap, hsnap, rfl, rfl⟩

def Event.isKey : Event → Bool
  | .key _ _ => true
  | _ => false

/-- While a prompt is shown, the form is that of a client that was shown nothing else, with the
keys that were pressed since. -/
theorem alike_of_shown {older during : List Event} (hnew : (after cli older).promptId ≠ some p.id)
    (hsnap : snap.prompt = some p)
    (hshown : ∀ s w, Event.line s w ∈ during → s.prompt = some p) :
    Alike p (after cli (older ++ .line snap written :: during))
      (after cli (.line snap written :: during.filter Event.isKey)) := by
  induction during using List.reverseRecOn with
  | nil =>
    rw [after_concat]
    exact alike_of_new hsnap hnew nofun
  | append_singleton during e ih =>
    have h := ih fun s w hmem => hshown s w (List.mem_append_left _ hmem)
    rw [show older ++ .line snap written :: (during ++ [e]) =
      (older ++ .line snap written :: during) ++ [e] by simp, after_concat, List.filter_append]
    cases e with
    | line s w =>
      rw [List.filter_cons_of_neg (by simp [Event.isKey]), List.filter_nil, List.append_nil]
      exact h.line (hshown s w (List.mem_append_right _ (List.mem_singleton_self _)))
    | closed =>
      rw [List.filter_cons_of_neg (by simp [Event.isKey]), List.filter_nil, List.append_nil]
      exact h.closed
    | key key w =>
      rw [List.filter_cons_of_pos rfl, List.filter_nil, ← List.cons_append, after_concat]
      exact h.key key w

/-! ## What is sent -/

theorem formValues_names (app : App) (p : Prompt) :
    (app.formValues p).map Prod.fst = p.fields.map PromptField.name := by
  unfold App.formValues
  rw [List.map_map]
  conv_rhs => rw [← List.zipIdx_map_fst 0 p.fields, List.map_map]
  rfl

theorem Alike.formValues (h : Alike p a b) : a.formValues p = b.formValues p := by
  unfold App.formValues
  rw [h.inputs]

/-- An answer is sent by a key, and holds the form that is up. -/
def Answers (app : App) (id : Nat) (values : Values) : Prop :=
  ∃ p, app.snap.prompt = some p ∧ p.id = id ∧ values = app.formValues p

theorem submit_answers {id : Nat} {values : Values}
    (h : (a.submit written).sent = some (.submit id values)) : Answers a id values := by
  unfold App.submit at h
  split at h
  · cases h
  · rename_i p hp
    split at h
    · cases h
    · cases h
      exact ⟨p, hp, rfl, rfl⟩

theorem handle_answers {e : Event} {id : Nat} {values : Values}
    (h : (a.handle cli e).sent = some (.submit id values)) :
    Answers a id values ∧ e.isKey = true := by
  cases e with
  | line snap w =>
    simp only [App.handle] at h
    split at h
    · split at h
      · cases h
      · cases h
    · cases h
  | closed => cases h
  | key key w =>
    refine ⟨?_, rfl⟩
    simp only [App.handle] at h
    split at h
    · unfold App.pickKey at h
      cases hcode : key.code with
      | enter =>
        simp only [hcode] at h
        cases hs : a.snap.secrets[a.selected]? with
        | some s =>
          simp only [hs] at h
          cases h
        | none =>
          simp only [hs] at h
          cases h
      | _ =>
        simp only [hcode] at h
        cases h
    · unfold App.formKey at h
      cases hcode : key.code with
      | enter =>
        simp only [hcode] at h
        split at h
        · cases h
        · split at h
          · cases h
          · exact submit_answers h
      | char c =>
        simp only [hcode] at h
        split at h
        · cases h
        · split at h
          · exact submit_answers h
          · split at h
            · cases h
            · cases h
      | _ =>
        simp only [hcode] at h
        cases h

end Screen

end Foundrix.OperatorSecrets.Tui

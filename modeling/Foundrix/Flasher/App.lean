import Foundrix.Effect.Prog

/-!
# The screens of the flasher

`Disk`, `Screen`, `App`, `flash_image`, `ui` and `run` of
`packages/flasher-tui/src/main.rs`. Where the source can panic, the model fails with
`Stop.panicked`; a screen that is drawn is a `View` of the data its text is made of.

* `App`, `App.selectNext`, `App.selectPrev`: the disks on offer and the cursor on them.
* `flashImage`: the thread that writes the image, and the messages it sends.
* `ui`, `run`: one frame, and the loop over the keys and the messages.
-/

namespace Foundrix.Flasher

open Effect

structure Disk where
  path : String
  name : String
  size_bytes : Nat
  model : String
  transport : String
deriving DecidableEq, Repr

inductive Screen where
  | select
  | confirm (idx : Nat)
  | flashing (disk_idx written total : Nat)
  | done
  | error (msg : String)
deriving DecidableEq, Repr

/-- `ListState` of ratatui: the first row in sight and the row under the cursor. -/
structure ListState where
  offset : Nat := 0
  selected : Option Nat := none
deriving DecidableEq, Repr

/-- `ListState::select`. -/
def ListState.select (s : ListState) : Option Nat → ListState
  | none => ⟨0, none⟩
  | some i => { s with selected := some i }

/-- What `run` reads of the command line. -/
structure Cli where
  image : String
  image_name : String := "system image"
  image_size : Option Nat := none
deriving DecidableEq, Repr

structure App where
  disks : List Disk
  list_state : ListState
  screen : Screen
  image : String
  image_name : String
  image_size : Option Nat
deriving DecidableEq, Repr

namespace App

def new (cli : Cli) (disks : List Disk) : App where
  disks := disks
  list_state := if disks.isEmpty then {} else ListState.select {} (some 0)
  screen := .select
  image := cli.image
  image_name := cli.image_name
  image_size := cli.image_size

def selectedDisk (app : App) : Option Disk := app.list_state.selected.bind (app.disks[·]?)

def selectNext (app : App) : App :=
  if app.disks.isEmpty then app
  else
    let i := match app.list_state.selected with
      | none => 0
      | some i => if app.disks.length - 1 ≤ i then 0 else i + 1
    { app with list_state := app.list_state.select (some i) }

def selectPrev (app : App) : App :=
  if app.disks.isEmpty then app
  else
    let i := match app.list_state.selected with
      | none => 0
      | some i => if i = 0 then app.disks.length - 1 else i - 1
    { app with list_state := app.list_state.select (some i) }

@[simp] theorem selectNext_disks (app : App) : app.selectNext.disks = app.disks := by
  unfold selectNext
  split <;> rfl

@[simp] theorem selectNext_screen (app : App) : app.selectNext.screen = app.screen := by
  unfold selectNext
  split <;> rfl

@[simp] theorem selectPrev_disks (app : App) : app.selectPrev.disks = app.disks := by
  unfold selectPrev
  split <;> rfl

@[simp] theorem selectPrev_screen (app : App) : app.selectPrev.screen = app.screen := by
  unfold selectPrev
  split <;> rfl

end App

/-! ## The flash thread -/

inductive FlashProgress where
  | writing (written total : Nat)
  | done
  | error (msg : String)
deriving DecidableEq, Repr

/-- A message after which the thread sends none. -/
def FlashProgress.isLast : FlashProgress → Bool
  | .writing _ _ => false
  | .done => true
  | .error _ => true

/-- What the flash thread asks of the system. A failure is answered with its text. -/
inductive FlashOp : Type → Type
  | openImage (path : String) : FlashOp (Except String Unit)
  | newDecoder : FlashOp (Except String Unit)
  | openDisk (path : String) : FlashOp (Except String Unit)
  | read : FlashOp (Except String (List UInt8))
  | writeAll (bytes : List UInt8) : FlashOp (Except String Unit)
  | blockdev (path : String) : FlashOp (Except String Unit)
  | send (progress : FlashProgress) : FlashOp Unit

/-- An operation with `.context(…)?`, and the chain of the error as `{e:#}` shows it. -/
def withContext {α : Type} (what : String) (e : FlashOp (Except String α)) :
    Prog FlashOp String α := do
  match ← .perform e with
  | .ok a => return a
  | .error err => .fail (what ++ ": " ++ err)

/-- A turn of the loop that copies; `inl` is the number of bytes written so far. -/
def copyChunk (total written : Nat) : Prog FlashOp String (Nat ⊕ Unit) := do
  let bytes ← withContext "reading image" .read
  if bytes.isEmpty then return .inr ()
  else
    withContext "writing to disk" (.writeAll bytes)
    .perform (.send (.writing (written + bytes.length) total))
    return .inl (written + bytes.length)

/-- The reader: a zstd decoder where the name of the image says so. -/
def openSource (image_path : String) : Prog FlashOp String Unit := do
  withContext "opening image file" (.openImage image_path)
  if image_path.endsWith ".zst" then withContext "initializing zstd decoder" .newDecoder
  else return ()

/-- The closure of `flash_image`. -/
def copyImage (image_path disk_path : String) (total : Nat) : Prog FlashOp String Unit := do
  openSource image_path
  withContext "opening target disk" (.openDisk disk_path)
  .iterate (copyChunk total) 0
  withContext "re-reading partition table" (.blockdev disk_path)

def flashImage (image_path disk_path : String) (total : Nat) : Prog FlashOp String Unit := do
  match ← (copyImage image_path disk_path total).attempt with
  | .ok () => .perform (.send .done)
  | .error e => .perform (.send (.error e))

/-! ## Frames, keys and the loop -/

/-- What the text of a frame is made of. -/
inductive View where
  | select (image_name : String) (disks : List Disk) (cursor : Option Nat)
  | confirm (image_name : String) (disk : Disk)
  | flashing (image_name : String) (disk : Disk) (written total : Nat)
  | done
  | error (msg : String)
deriving DecidableEq, Repr

inductive KeyCode where
  | char (c : Char)
  | up
  | down
  | enter
  | esc
  | other
deriving DecidableEq, Repr

/-- A key, and whether Control is held. -/
structure Key where
  code : KeyCode
  control : Bool := false
deriving DecidableEq, Repr

inductive Event where
  | key (key : Key)
  /-- A resize, the mouse, a paste or a change of the focus. -/
  | other
deriving DecidableEq, Repr

/-- Where the source panics. -/
inductive Panic where
  | index
  | unwrap
  | unreachable
deriving DecidableEq, Repr

/-- How `run` ends other than with `Ok(())`. -/
inductive Stop where
  | err (chain : List String)
  | panicked (why : Panic)
deriving DecidableEq, Repr

/-- The receiving end of the channel of a flash: its place among the flashes started. -/
abbrev Receiver := Nat

/-- What `run` asks of the terminal and of the system. -/
inductive Op : Type → Type
  /-- `terminal.draw` before it calls `ui`. -/
  | beginDraw : Op (Except String Unit)
  /-- ratatui draws a list of that many rows, and may move the cursor and the offset. -/
  | renderList (rows : Nat) (state : ListState) : Op ListState
  /-- `terminal.draw` after `ui`. -/
  | endDraw (view : View) : Op (Except String Unit)
  | tryRecv (rx : Receiver) : Op (Option FlashProgress)
  | poll : Op (Except String Bool)
  | read : Op (Except String Event)
  /-- `drop_to_shell`. -/
  | dropToShell : Op (Except (List String) Unit)
  | discoverDisks : Op (Except (List String) (List Disk))
  | fileLen (path : String) : Op (Option Nat)
  /-- `thread::spawn` of `flash_image`. -/
  | spawn (image_path disk_path : String) (total : Nat) : Op Receiver
  | reboot : Op Unit

def orErr {α : Type} : Except String α → Prog Op Stop α
  | .ok a => .pure a
  | .error e => .fail (.err [e])

/-- `disks[idx]`. -/
def index (disks : List Disk) (idx : Nat) : Prog Op Stop Disk :=
  match disks[idx]? with
  | some disk => .pure disk
  | none => .fail (.panicked .index)

def ui (app : App) : Prog Op Stop (View × App) :=
  match app.screen with
  | .select =>
    if app.disks.isEmpty then .pure (.select app.image_name [] none, app)
    else do
      let state ← .perform (.renderList app.disks.length app.list_state)
      return (.select app.image_name app.disks state.selected, { app with list_state := state })
  | .confirm idx => do
    let disk ← index app.disks idx
    return (.confirm app.image_name disk, app)
  | .flashing disk_idx written total => do
    let disk ← index app.disks disk_idx
    return (.flashing app.image_name disk written total, app)
  | .done => .pure (.done, app)
  | .error msg => .pure (.error msg, app)

/-- `terminal.draw(|f| ui(f, app))?`. -/
def draw (app : App) : Prog Op Stop App := do
  orErr (← .perform .beginDraw)
  let (view, app) ← ui app
  orErr (← .perform (.endDraw view))
  return app

/-- One turn of the loop over the messages of the flash; `inr` leaves it. -/
def receive (rx : Receiver) (app : App) : Prog Op Stop (App ⊕ App × Option Receiver) := do
  match ← .perform (.tryRecv rx) with
  | none => return .inr (app, some rx)
  | some (.writing written total) =>
    match app.screen with
    | .flashing disk_idx _ _ => return .inl { app with screen := .flashing disk_idx written total }
    | _ => .fail (.panicked .unreachable)
  | some .done => return .inr ({ app with screen := .done }, none)
  | some (.error msg) => return .inr ({ app with screen := .error msg }, none)

/-- The state of `run`: the application and `flash_rx`. -/
abbrev RunState := App × Option Receiver

/-- A turn of `run` while an image is written. -/
def whileFlashing (rx : Receiver) (app : App) : Prog Op Stop (RunState ⊕ Unit) := do
  let (app, flash_rx) ← .iterate (receive rx) app
  if flash_rx.isSome then
    if ← orErr (← .perform .poll) then
      match ← orErr (← .perform .read) with
      | .key key =>
        if key.code = .char 'c' ∧ key.control then return .inr ()
        else return .inl (app, flash_rx)
      | .other => return .inl (app, flash_rx)
    else return .inl (app, flash_rx)
  else return .inl (app, flash_rx)

/-- The key `s`. -/
def refresh (app : App) : Prog Op Stop (RunState ⊕ Unit) := do
  match ← .perform .dropToShell with
  | .error chain => .fail (.err chain)
  | .ok () =>
    match ← .perform .discoverDisks with
    | .error chain => .fail (.err chain)
    | .ok disks =>
      let app := { app with disks := disks }
      if !app.disks.isEmpty && app.list_state.selected.isNone then
        return .inl ({ app with list_state := app.list_state.select (some 0) }, none)
      else return .inl (app, none)

/-- A key on the list of disks. -/
def onSelect (key : Key) (app : App) : Prog Op Stop (RunState ⊕ Unit) :=
  if key.code = .char 'c' ∧ key.control then .pure (.inr ())
  else match key.code with
    | .char 's' => refresh app
    | .down | .char 'j' => .pure (.inl (app.selectNext, none))
    | .up | .char 'k' => .pure (.inl (app.selectPrev, none))
    | .enter =>
      if app.selectedDisk.isSome then
        match app.list_state.selected with
        | some idx => .pure (.inl ({ app with screen := .confirm idx }, none))
        | none => .fail (.panicked .unwrap)
      else .pure (.inl (app, none))
    | _ => .pure (.inl (app, none))

/-- The size on the command line, or else that of the file, or else 0. -/
def imageTotal (app : App) : Prog Op Stop Nat :=
  match app.image_size with
  | some size => .pure size
  | none => do
    let len ← .perform (.fileLen app.image)
    return len.getD 0

/-- A key on the question whether the disk may be erased. -/
def onConfirm (idx : Nat) (key : Key) (app : App) : Prog Op Stop (RunState ⊕ Unit) :=
  match key.code with
  | .char 'y' | .char 'Y' => do
    let disk ← index app.disks idx
    let total ← imageTotal app
    let rx ← .perform (.spawn app.image disk.path total)
    return .inl ({ app with screen := .flashing idx 0 total }, some rx)
  | _ => .pure (.inl ({ app with screen := .select }, none))

/-- A key where no image is written. -/
def onKey (key : Key) (app : App) : Prog Op Stop (RunState ⊕ Unit) :=
  match app.screen with
  | .select => onSelect key app
  | .confirm idx => onConfirm idx key app
  | .done =>
    match key.code with
    | .enter => do
      .perform .reboot
      return .inr ()
    | _ => .pure (.inl (app, none))
  | .error _ =>
    match key.code with
    | .enter => do
      .perform .reboot
      return .inr ()
    | .esc => .pure (.inl ({ app with screen := .select }, none))
    | _ => .pure (.inl (app, none))
  | .flashing _ _ _ => .pure (.inl (app, none))

/-- A turn of the loop of `run`. -/
def turn (state : RunState) : Prog Op Stop (RunState ⊕ Unit) := do
  let app ← draw state.1
  match state.2 with
  | some rx => whileFlashing rx app
  | none =>
    match ← .perform .read with
    | .error e => .fail (.err ["reading event", e])
    | .ok .other => return .inl (app, none)
    | .ok (.key key) => onKey key app

def run (app : App) : Prog Op Stop Unit := .iterate turn (app, none)

end Foundrix.Flasher

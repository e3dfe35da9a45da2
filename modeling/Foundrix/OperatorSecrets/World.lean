import Foundrix.Effect.Prog
import Foundrix.OperatorSecrets.Protocol
import Foundrix.Text.Path

/-!
# The world of operator-secretsd

The operations that the daemon performs on its environment, the part of the world they
read and change, and the answers they may get. Files are named by their place in the
directory tree, so two spellings of one path are one file.

* `Op`: the operations; `FileOp` are those that may change a file.
* `World`, `world`: what is seen of the daemon, and how the world answers.
* `World.mutate`: a new snapshot goes to the clients and its message to the state file.
* `Home`, `Kept`: the files that the daemon keeps for itself, and worlds that differ in no other.
-/

namespace Foundrix.OperatorSecrets

open Text

/-! ## Paths -/

/-- The parts of a path, without the empty and `.` parts at its end. -/
def trimParts (parts : List String) : List String := parts.rdropWhile fun c => c == "" || c == "."

/-- `Path::parent`. A relative path of one part has the empty one above it. -/
def parent (path : String) : Option String :=
  let body := trimParts (split path '/').tail
  match (split path '/').head? with
  | none | some "" =>
    if body = [] then none else some ("/" ++ join "/" (trimParts body.dropLast))
  | some first =>
    if body = [] then some "" else some (join "/" (first :: trimParts body.dropLast))

/-- `Path::file_name` of an absolute path. -/
def fileName (path : String) : Option String :=
  ((trimParts (split path '/').tail).getLast?).filter (· ≠ "..")

def joinPath (dir name : String) : String :=
  if dir = "" ∨ dir.toList.getLast? = some '/' then dir ++ name else dir ++ "/" ++ name

/-- The state file lies beside the control socket. -/
def stateFileFor (socket : String) : String :=
  match parent socket with
  | some dir => if dir = "" then "state" else joinPath dir "state"
  | none => "state"

/-- The places of the files that the daemon keeps for itself. -/
structure Home where
  stateFile : Location
  socket : Location

/-- The own files of a daemon with this control socket. -/
def homeOf (socket : String) : Home := ⟨locate (stateFileFor socket), locate socket⟩

/-- One of the own files is at this place. -/
def Home.Has (home : Home) (l : Location) : Prop := l = home.stateFile ∨ l = home.socket

instance (home : Home) (l : Location) : Decidable (home.Has l) :=
  inferInstanceAs (Decidable (_ ∨ _))

/-! ## Files -/

structure FileEntry where
  /-- The content, where it is UTF-8. -/
  text : Option String
  uid : Nat
  gid : Nat
  mode : Nat
deriving DecidableEq, Repr

abbrev Files := Location → Option FileEntry

/-- The files with another entry at one place. -/
def Files.set (fs : Files) (l : Location) (e : Option FileEntry) : Files :=
  fun l' => if l' = l then e else fs l'

theorem Files.set_same (fs : Files) (l : Location) (e : Option FileEntry) : fs.set l e l = e :=
  if_pos rfl

theorem Files.set_other {fs : Files} {l l' : Location} {e : Option FileEntry} (h : l' ≠ l) :
    fs.set l e l' = fs l' := if_neg h

inductive ErrorKind where
  | notFound
  | alreadyExists
  | other
deriving DecidableEq, Repr

structure IoError where
  kind : ErrorKind
  text : String
deriving DecidableEq, Repr

/-- The operations on files. -/
inductive FileOp where
  | createDirAll (dir : String)
  | removeFile (path : String)
  /-- Open for writing with `create_new`, with this mode. -/
  | createNew (path : String) (mode : Nat)
  /-- Write the whole text to the file just created. -/
  | writeAll (path : String) (body : String)
  | syncAll (path : String)
  | chown (path : String) (uid gid : Nat)
  | setPermissions (path : String) (mode : Nat)
  | rename (src dst : String)
deriving DecidableEq, Repr

namespace FileOp

/-- The places an operation may change. -/
def touches : FileOp → List Location
  | .createDirAll _ => []
  | .removeFile p => [locate p]
  | .createNew p _ => [locate p]
  | .writeAll p _ => [locate p]
  | .syncAll _ => []
  | .chown p _ _ => [locate p]
  | .setPermissions p _ => [locate p]
  | .rename src dst => [locate src, locate dst]

/-- The files after an operation that succeeds. -/
def effect (c : FileOp) (fs : Files) : Files :=
  match c with
  | .createDirAll _ => fs
  | .removeFile p => fs.set (locate p) none
  | .createNew p mode => fs.set (locate p) (some ⟨some "", 0, 0, mode⟩)
  | .writeAll p body =>
    fs.set (locate p) ((fs (locate p)).map fun e => { e with text := some body })
  | .syncAll _ => fs
  | .chown p uid gid => fs.set (locate p) ((fs (locate p)).map fun e => { e with uid, gid })
  | .setPermissions p mode =>
    fs.set (locate p) ((fs (locate p)).map fun e => { e with mode })
  | .rename src dst => (fs.set (locate src) none).set (locate dst) (fs (locate src))

/-- Where an operation can succeed. -/
def Ready (c : FileOp) (fs : Files) : Prop :=
  match c with
  | .createDirAll _ => True
  | .createNew p _ => fs (locate p) = none
  | .removeFile p | .writeAll p _ | .syncAll p | .chown p _ _ | .setPermissions p _ =>
    (fs (locate p)).isSome
  | .rename src _ => (fs (locate src)).isSome

instance : (c : FileOp) → (fs : Files) → Decidable (c.Ready fs)
  | .createDirAll _, _ => .isTrue trivial
  | .createNew p _, fs => inferInstanceAs (Decidable (fs (locate p) = none))
  | .removeFile p, fs => inferInstanceAs (Decidable ((fs (locate p)).isSome = true))
  | .writeAll p _, fs => inferInstanceAs (Decidable ((fs (locate p)).isSome = true))
  | .syncAll p, fs => inferInstanceAs (Decidable ((fs (locate p)).isSome = true))
  | .chown p _ _, fs => inferInstanceAs (Decidable ((fs (locate p)).isSome = true))
  | .setPermissions p _, fs => inferInstanceAs (Decidable ((fs (locate p)).isSome = true))
  | .rename src _, fs => inferInstanceAs (Decidable ((fs (locate src)).isSome = true))

/-- What an operation that fails may leave behind: part of the text for a write, otherwise
nothing. -/
inductive Failed : FileOp → Files → Files → Prop
  | untouched (c : FileOp) (fs : Files) : Failed c fs fs
  | partWritten (p body : String) (fs : Files) (e : FileEntry) (part : Option String)
      (exists_ : fs (locate p) = some e) (hpart : ∀ t, part = some t → t.toList <+: body.toList) :
      Failed (.writeAll p body) fs (fs.set (locate p) (some { e with text := part }))

/-- The answers of the file system to an operation. -/
def Answers (c : FileOp) (fs : Files) (r : Except IoError Unit) (fs' : Files) : Prop :=
  match r with
  | .ok () => c.Ready fs ∧ fs' = c.effect fs
  | .error _ => Failed c fs fs'

theorem effect_frame (c : FileOp) (fs : Files) {l : Location} (hl : l ∉ c.touches) :
    c.effect fs l = fs l := by
  cases c with
  | createDirAll dir => rfl
  | syncAll p => rfl
  | rename src dst =>
    simp only [touches, List.mem_cons, List.not_mem_nil, or_false, not_or] at hl
    exact (Files.set_other hl.2).trans (Files.set_other hl.1)
  | _ => exact Files.set_other (by simpa [touches] using hl)

/-- An operation changes only the places it touches. -/
theorem Answers.frame {c : FileOp} {fs fs' : Files} {r : Except IoError Unit}
    (h : c.Answers fs r fs') {l : Location} (hl : l ∉ c.touches) : fs' l = fs l := by
  cases r with
  | ok u => exact h.2 ▸ effect_frame c fs hl
  | error e =>
    cases h with
    | untouched => rfl
    | partWritten p body _ _ _ _ => exact Files.set_other (by simpa [touches] using hl)

end FileOp

/-- What `fs::write` leaves of a file: it cannot be opened, or it is emptied and as much is
written as goes. -/
inductive Overwriting where
  | untouched
  | wrote (text : Option String)
deriving DecidableEq, Repr

namespace Overwriting

/-- What may come of writing this text. -/
def Of (body : String) : Overwriting → Prop
  | .untouched => True
  | .wrote text => ∀ t, text = some t → t.toList <+: body.toList

/-- The files afterwards. -/
def effect (l : Location) (fs : Files) : Overwriting → Files
  | .untouched => fs
  | .wrote text =>
    fs.set l (some (match fs l with
      | some e => { e with text }
      | none => ⟨text, 0, 0, 0o644⟩))

theorem effect_frame (how : Overwriting) (fs : Files) {l l' : Location} (h : l' ≠ l) :
    how.effect l fs l' = fs l' := by
  cases how with
  | untouched => rfl
  | wrote text => exact Files.set_other h

end Overwriting

/-- The answers to an operation on a file that is there, of which it makes what `f` says. -/
def EntryAnswers (l : Location) (f : FileEntry → Option FileEntry) (fs : Files)
    (r : Except IoError Unit) (fs' : Files) : Prop :=
  match r with
  | .ok () => (fs l).isSome ∧ fs' = fs.set l ((fs l).bind f)
  | .error _ => fs' = fs

theorem EntryAnswers.frame {l l' : Location} {f : FileEntry → Option FileEntry} {fs fs' : Files}
    {r : Except IoError Unit} (h : EntryAnswers l f fs r fs') (hl : l' ≠ l) : fs' l' = fs l' := by
  cases r with
  | ok u => exact h.2 ▸ Files.set_other hl
  | error e => rw [show fs' = fs from h]

/-- The answers to binding a socket, which makes a file that is no text. -/
def BindAnswers (l : Location) (fs : Files) (r : Except IoError Unit) (fs' : Files) : Prop :=
  match r with
  | .ok () => fs l = none ∧ fs' = fs.set l (some ⟨none, 0, 0, 0o755⟩)
  | .error _ => fs' = fs

/-- What `metadata` tells of a directory. -/
structure DirMeta where
  isDir : Bool
  uid : Nat
  mode : Nat
deriving DecidableEq, Repr

/-! ## Operations -/

inductive Op : Type → Type where
  /-- Change the snapshot, write its message to the state file and send it to the clients. -/
  | mutate (f : Snapshot → Snapshot) : Op Unit
  | eprintln (line : String) : Op Unit
  /-- Write a line to the state file only. -/
  | writeState (line : String) : Op Unit
  /-- Count the prompt ids up and take the new one. -/
  | nextPromptId : Op Nat
  | tryRecv : Op (Option ClientMsg)
  | sleep (millis : Nat) : Op Unit
  /-- Spawn a validator, write the values to its stdin as one JSON object, close it, read
  both output pipes to their end and wait for the exit, for at most `timeout` seconds. -/
  | runValidator (argv : List String) (values : Values) (timeout : Nat) : Op ValidatorOutcome
  /-- `fs::read_to_string(..).unwrap_or_default()`. -/
  | readDb (path : String) : Op String
  /-- The output of `getent`, where it ran and succeeded. -/
  | getent (db name : String) : Op (Option String)
  | readSpec (path : String) : Op (Except IoError String)
  | readToString (path : String) : Op (Except IoError String)
  | file (c : FileOp) : Op (Except IoError Unit)
  /-- Open a directory and sync it, for what it is worth. -/
  | syncDir (dir : String) : Op Unit
  | createDir (dir : String) (mode : Nat) : Op (Except IoError Unit)
  | metadata (dir : String) : Op (Except IoError DirMeta)
  | geteuid : Op Nat
  /-- `fs::remove_file` of the control socket, for what it is worth. -/
  | removeSocket : Op Unit
  | bindSocket : Op (Except IoError Unit)
  | restrictSocket (mode : Nat) : Op (Except IoError Unit)

/-! ## The world -/

/-- What the daemon keeps and what is seen of it from outside. -/
structure World where
  home : Home
  snapshot : Snapshot := {}
  /-- The snapshots sent to the clients so far. -/
  sent : List Snapshot := []
  /-- The lines written to the state file so far. -/
  stateFile : List String := []
  journal : List String := []
  /-- The last prompt id given out. -/
  promptId : Nat := 0
  /-- What reading the spec gives. -/
  specText : Except IoError String
  files : Files

/-- `Ui::mutate`, under the lock, but for what comes of writing the state file. -/
def World.mutate (w : World) (f : Snapshot → Snapshot) : World :=
  let snap := f w.snapshot
  { w with
    snapshot := snap
    stateFile := w.stateFile ++ [snap.message]
    sent := w.sent ++ [snap] }

/-- What comes of writing the state file. -/
def World.overwrite (w : World) (how : Overwriting) : World :=
  { w with files := how.effect w.home.stateFile w.files }

section Mutate

variable (w : World) (f : Snapshot → Snapshot) (how : Overwriting)

@[simp] theorem World.mutate_snapshot : (w.mutate f).snapshot = f w.snapshot := rfl
@[simp] theorem World.mutate_sent : (w.mutate f).sent = w.sent ++ [f w.snapshot] := rfl
@[simp] theorem World.mutate_promptId : (w.mutate f).promptId = w.promptId := rfl
@[simp] theorem World.overwrite_snapshot : (w.overwrite how).snapshot = w.snapshot := rfl
@[simp] theorem World.overwrite_sent : (w.overwrite how).sent = w.sent := rfl
@[simp] theorem World.overwrite_promptId : (w.overwrite how).promptId = w.promptId := rfl

end Mutate

/-- How the text of a file is read. -/
def Reads (fs : Files) (path : String) : Except IoError String → Prop
  | .ok text => ∃ e, fs (locate path) = some e ∧ e.text = some text
  | .error e => e.kind = .notFound → fs (locate path) = none

/-- The answers of the world. Messages, validators and everything that is read from
outside answer at will; the clock leaves no trace here. -/
def Answer : {β : Type} → Op β → World → β → World → Prop
  | _, .mutate f, w, _, w' =>
    ∃ how, how.Of ((f w.snapshot).message ++ "\n") ∧ w' = (w.mutate f).overwrite how
  | _, .eprintln line, w, _, w' => w' = { w with journal := w.journal ++ [line] }
  | _, .writeState line, w, _, w' =>
    ∃ how, how.Of (line ++ "\n") ∧
      w' = ({ w with stateFile := w.stateFile ++ [line] } : World).overwrite how
  | _, .nextPromptId, w, id, w' =>
    id = w.promptId + 1 ∧ w' = { w with promptId := w.promptId + 1 }
  | _, .tryRecv, w, _, w' => w' = w
  | _, .sleep _, w, _, w' => w' = w
  | _, .runValidator _ _ _, w, _, w' => w' = w
  | _, .readDb _, w, _, w' => w' = w
  | _, .getent _ _, w, _, w' => w' = w
  | _, .readSpec _, w, r, w' => r = w.specText ∧ w' = w
  | _, .readToString path, w, r, w' => Reads w.files path r ∧ w' = w
  | _, .file c, w, r, w' => ∃ fs, c.Answers w.files r fs ∧ w' = { w with files := fs }
  | _, .syncDir _, w, _, w' => w' = w
  | _, .createDir _ _, w, _, w' => w' = w
  | _, .metadata _, w, _, w' => w' = w
  | _, .geteuid, w, _, w' => w' = w
  | _, .removeSocket, w, _, w' =>
    ∃ r fs, EntryAnswers w.home.socket (fun _ => none) w.files r fs ∧ w' = { w with files := fs }
  | _, .bindSocket, w, r, w' =>
    ∃ fs, BindAnswers w.home.socket w.files r fs ∧ w' = { w with files := fs }
  | _, .restrictSocket mode, w, r, w' =>
    ∃ fs, EntryAnswers w.home.socket (fun e => some { e with mode }) w.files r fs ∧
      w' = { w with files := fs }

/-- The world as a handler of the daemon's operations. -/
def world : Effect.Handler Op World where
  step := Answer

/-! ## What stays as it is -/

/-- All files are as before, but for the daemon's own. -/
structure Kept (w w' : World) : Prop where
  home : w'.home = w.home
  files : ∀ l, ¬ w.home.Has l → w'.files l = w.files l

theorem Kept.refl (w : World) : Kept w w := ⟨rfl, fun _ _ => rfl⟩

theorem Kept.trans {w w' w'' : World} (h : Kept w w') (h' : Kept w' w'') : Kept w w'' :=
  ⟨h'.home.trans h.home, fun l hl => (h'.files l (h.home ▸ hl)).trans (h.files l hl)⟩

theorem Kept.overwrite {w w' : World} (h : Kept w w') (how : Overwriting) :
    Kept w (w'.overwrite how) :=
  h.trans ⟨rfl, fun _ hl => how.effect_frame _ fun heq => hl (Or.inl heq)⟩

/-- The places that an operation may change besides the daemon's own files. -/
def Op.touches : {β : Type} → Op β → List Location
  | _, .file c => c.touches
  | _, _ => []

/-- An operation keeps the files that it does not touch. -/
theorem answer_kept {β : Type} {e : Op β} {w w' : World} {b : β} (h : Answer e w b w') :
    w'.home = w.home ∧
      ∀ l, ¬ w.home.Has l → l ∉ e.touches → w'.files l = w.files l := by
  have same : ∀ {v : World}, Kept w v → v.home = w.home ∧
      ∀ l, ¬ w.home.Has l → l ∉ e.touches → v.files l = w.files l :=
    fun hv => ⟨hv.home, fun l hl _ => hv.files l hl⟩
  have own : ∀ {l : Location}, ¬ w.home.Has l → l ≠ w.home.socket :=
    fun hl heq => hl (Or.inr heq)
  cases e with
  | mutate f =>
    obtain ⟨how, -, rfl⟩ := h
    have hv : Kept w (w.mutate f) := ⟨rfl, fun _ _ => rfl⟩
    exact same (hv.overwrite how)
  | writeState line =>
    obtain ⟨how, -, rfl⟩ := h
    have hv : Kept w { w with stateFile := w.stateFile ++ [line] } := ⟨rfl, fun _ _ => rfl⟩
    exact same (hv.overwrite how)
  | file c =>
    obtain ⟨fs, hans, rfl⟩ := h
    exact ⟨rfl, fun l _ hl => hans.frame hl⟩
  | removeSocket =>
    obtain ⟨r, fs, hans, rfl⟩ := h
    exact same ⟨rfl, fun l hl => hans.frame (own hl)⟩
  | restrictSocket mode =>
    obtain ⟨fs, hans, rfl⟩ := h
    exact same ⟨rfl, fun l hl => hans.frame (own hl)⟩
  | bindSocket =>
    obtain ⟨fs, hans, rfl⟩ := h
    refine same ⟨rfl, fun l hl => ?_⟩
    rcases b with err | u
    · rw [show fs = w.files from hans]
    · rw [hans.2]
      exact Files.set_other (own hl)
  | nextPromptId | readSpec | readToString => exact h.2 ▸ same ⟨rfl, fun _ _ => rfl⟩
  | _ => exact h ▸ same ⟨rfl, fun _ _ => rfl⟩

/-- The operations that change nothing but files. -/
def Op.Mute : {β : Type} → Op β → Prop
  | _, .mutate _ | _, .eprintln _ | _, .writeState _ | _, .nextPromptId => False
  | _, _ => True

theorem answer_mute {β : Type} {e : Op β} {w w' : World} {b : β} (he : e.Mute)
    (h : Answer e w b w') : w' = { w with files := w'.files } := by
  cases e with
  | mutate | eprintln | writeState | nextPromptId => exact he.elim
  | file c =>
    obtain ⟨fs, -, rfl⟩ := h
    rfl
  | removeSocket =>
    obtain ⟨r, fs, -, rfl⟩ := h
    rfl
  | bindSocket | restrictSocket =>
    obtain ⟨fs, -, rfl⟩ := h
    rfl
  | readSpec | readToString =>
    obtain ⟨-, rfl⟩ := h
    rfl
  | _ =>
    obtain rfl := h
    rfl

end Foundrix.OperatorSecrets

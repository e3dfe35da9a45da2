import Foundrix.OperatorSecrets.History

/-!
# Runs on scripted answers

A deterministic world for concrete runs: the clients send a fixed list of messages, the
validators follow a function, and a file operation succeeds exactly where it can.
-/

namespace Foundrix.OperatorSecrets

open Effect Text

/-- What the daemon meets in a scripted run. -/
structure Script where
  /-- The messages of the clients, in the order in which they are taken. -/
  messages : List ClientMsg := []
  validator : List String → Values → ValidatorOutcome := fun _ _ => .timedOut

/-- A file operation that does what it can. -/
def FileOp.perform (c : FileOp) (fs : Files) : Except IoError Unit × Files :=
  if c.Ready fs then (.ok (), c.effect fs) else (.error ⟨.other, "operation failed"⟩, fs)

/-- An operation on a file that is there. -/
def entryPerform (l : Location) (f : FileEntry → Option FileEntry) (fs : Files) :
    Except IoError Unit × Files :=
  match fs l with
  | none => (.error ⟨.notFound, "No such file or directory (os error 2)"⟩, fs)
  | some e => (.ok (), fs.set l (f e))

/-- Binding a socket where no file is. -/
def bindPerform (l : Location) (fs : Files) : Except IoError Unit × Files :=
  if fs l = none then (.ok (), fs.set l (some ⟨none, 0, 0, 0o755⟩))
  else (.error ⟨.other, "Address already in use (os error 98)"⟩, fs)

/-- The text of a file, where it can be read. -/
def readText (fs : Files) (path : String) : Except IoError String :=
  match fs (locate path) with
  | none => .error ⟨.notFound, "No such file or directory (os error 2)"⟩
  | some e =>
    match e.text with
    | none => .error ⟨.other, "stream did not contain valid UTF-8"⟩
    | some text => .ok text

/-- How many messages were taken. -/
def taken (es : List Event) : Nat :=
  es.countP fun e => match e with
    | .received _ => true
    | _ => false

def reply (σ : Script) : {β : Type} → Op β → World → List Event → β × World
  | _, .mutate f, w, _ =>
    ((), (w.mutate f).overwrite (.wrote (some ((f w.snapshot).message ++ "\n"))))
  | _, .eprintln line, w, _ => ((), { w with journal := w.journal ++ [line] })
  | _, .writeState line, w, _ =>
    ((), ({ w with stateFile := w.stateFile ++ [line] } : World).overwrite
      (.wrote (some (line ++ "\n"))))
  | _, .nextPromptId, w, _ => (w.promptId + 1, { w with promptId := w.promptId + 1 })
  | _, .tryRecv, w, es => (σ.messages[taken es]?, w)
  | _, .sleep _, w, _ => ((), w)
  | _, .runValidator argv values _, w, _ => (σ.validator argv values, w)
  | _, .readDb _, w, _ => ("", w)
  | _, .getent _ name, w, _ => (some (name ++ ":x:0:0"), w)
  | _, .readSpec _, w, _ => (w.specText, w)
  | _, .readToString path, w, _ => (readText w.files path, w)
  | _, .file c, w, _ => ((c.perform w.files).1, { w with files := (c.perform w.files).2 })
  | _, .syncDir _, w, _ => ((), w)
  | _, .createDir _ _, w, _ => (.ok (), w)
  | _, .metadata _, w, _ => (.error ⟨.notFound, "No such file or directory (os error 2)"⟩, w)
  | _, .geteuid, w, _ => (0, w)
  | _, .removeSocket, w, _ =>
    ((), { w with files := (entryPerform w.home.socket (fun _ => none) w.files).2 })
  | _, .bindSocket, w, _ =>
    ((bindPerform w.home.socket w.files).1,
      { w with files := (bindPerform w.home.socket w.files).2 })
  | _, .restrictSocket mode, w, _ =>
    ((entryPerform w.home.socket (fun e => some { e with mode }) w.files).1,
      { w with files := (entryPerform w.home.socket (fun e => some { e with mode }) w.files).2 })

variable [Externals]

def scripted (σ : Script) : Oracle Op (World × List Event) where
  answer e x :=
    let r := reply σ e x.1 x.2
    some (r.1, (r.2, x.2 ++ (record e x.1 r.1).toList))

omit [Externals] in
theorem reads_readText (fs : Files) (path : String) : Reads fs path (readText fs path) := by
  unfold readText
  cases he : fs (locate path) with
  | none => exact fun _ => he
  | some e =>
    cases ht : e.text with
    | none => simp [Reads, ht]
    | some text => simp [Reads, ht, he]

omit [Externals] in
theorem perform_answers (c : FileOp) (fs : Files) :
    c.Answers fs (c.perform fs).1 (c.perform fs).2 := by
  unfold FileOp.perform
  split
  · rename_i h
    exact ⟨h, rfl⟩
  · exact .untouched c fs

omit [Externals] in
theorem entryPerform_answers (l : Location) (f : FileEntry → Option FileEntry) (fs : Files) :
    EntryAnswers l f fs (entryPerform l f fs).1 (entryPerform l f fs).2 := by
  unfold entryPerform
  cases he : fs l with
  | none => rfl
  | some e => exact ⟨by rw [he]; rfl, by rw [he]; rfl⟩

omit [Externals] in
theorem bindPerform_answers (l : Location) (fs : Files) :
    BindAnswers l fs (bindPerform l fs).1 (bindPerform l fs).2 := by
  unfold bindPerform
  split
  · rename_i h
    exact ⟨h, rfl⟩
  · rfl

omit [Externals] in
/-- All of a text may be written. -/
theorem of_whole (body : String) : (Overwriting.wrote (some body)).Of body := by
  rintro t ht
  rw [Option.some.inj ht]

/-- The script answers as the world may. -/
theorem scripted_sound (σ : Script) {β : Type} (e : Op β) (x : World × List Event) (b : β)
    (y : World × List Event) (h : (scripted σ).answer e x = some (b, y)) :
    observed.step e x b y := by
  obtain ⟨rfl, rfl⟩ : (reply σ e x.1 x.2).1 = b ∧
      ((reply σ e x.1 x.2).2, x.2 ++ (record e x.1 (reply σ e x.1 x.2).1).toList) = y := by
    simpa [scripted] using h
  refine ⟨?_, rfl⟩
  cases e with
  | readToString path => exact ⟨reads_readText _ _, rfl⟩
  | file c => exact ⟨_, perform_answers c _, rfl⟩
  | mutate f => exact ⟨_, of_whole _, rfl⟩
  | writeState line => exact ⟨_, of_whole _, rfl⟩
  | removeSocket => exact ⟨_, _, entryPerform_answers _ _ _, rfl⟩
  | bindSocket => exact ⟨_, bindPerform_answers _ _, rfl⟩
  | restrictSocket mode => exact ⟨_, entryPerform_answers _ _ _, rfl⟩
  | nextPromptId => exact ⟨rfl, rfl⟩
  | readSpec => exact ⟨rfl, rfl⟩
  | _ => rfl

/-- A scripted run of the daemon is one of its runs. -/
theorem scripted_run (σ : Script) {α : Type} (n : Nat) (p : Daemon α) (x : World × List Event) :
    Run observed p x (p.exec (scripted σ) n x).1 (p.exec (scripted σ) n x).2 :=
  exec_run (fun e x b y h => scripted_sound σ e x b y h) n p x

end Foundrix.OperatorSecrets

import Foundrix.VarDisk.Probe

/-!
# Runs on scripted answers

A deterministic world for concrete runs: the volumes are fixed, commands and device nodes
follow a function of the history, and every prompt is answered at once.
-/

namespace Foundrix.VarDisk

open Effect

/-- What the daemon meets in a scripted run. -/
structure Script where
  volumes : List String
  output : Cmd → List Event → Output
  present : Device → List Event → Bool
  answer : Prompt → String

/-- The end of a command that succeeded and printed `stdout`. -/
def printed (stdout : String) : Output := { status := ⟨some 0, "exit status: 0"⟩, stdout }

def reply (σ : Script) : {β : Type} → Op β → World → List Event → β × World
  | _, .mutate f, w, _ => ((), w.mutate f)
  | _, .eprintln _, w, _ => ((), w)
  | _, .writeState line, w, _ => ((), { w with stateFile := w.stateFile ++ [line] })
  | _, .nextPromptId, w, _ => (w.promptId + 1, { w with promptId := w.promptId + 1 })
  | _, .tryRecv, w, _ => (w.snapshot.prompt.map fun p => .submit p.id (σ.answer p), w)
  | _, .sleep _, w, _ => ((), w)
  | _, .output c, w, es => (.ok (σ.output c es), w)
  | _, .feed c _, w, es => (.ran (.ok ()) (.ok (σ.output c es)), w)
  | _, .spawn _, w, _ => (.ok (), w)
  | _, .readPipe, w, _ => (.ok 0, w)
  | _, .writePipe _, w, _ => (.ok (), w)
  | _, .closePipe, w, _ => ((), w)
  | _, .updateDue, w, _ => (false, w)
  | _, .kill _, w, _ => ((), w)
  | _, .wait c, w, es => (.ok (σ.output c es).status, w)
  | _, .stderrOf c, w, es => ((σ.output c es).stderr, w)
  | _, .exists d, w, es => (σ.present d es, w)
  | _, .createDirAll _, w, _ => (.ok (), w)
  | _, .readDir _, w, _ => (σ.volumes, w)
  | _, .toolFound _, w, _ => (true, w)
  | _, .removeSocket, w, _ => ((), w)
  | _, .bindSocket, w, _ => (.ok (), w)

def scripted (σ : Script) : Oracle Op (World × List Event) where
  answer e x :=
    let r := reply σ e x.1 x.2
    some (r.1, (r.2, x.2 ++ (record e x.1 r.1).toList))

/-- The script answers as the world may. -/
theorem scripted_sound (σ : Script) {β : Type} (e : Op β) (x : World × List Event) (b : β)
    (y : World × List Event) (h : (scripted σ).answer e x = some (b, y)) :
    observed.step e x b y := by
  obtain ⟨rfl, rfl⟩ : (reply σ e x.1 x.2).1 = b ∧
      ((reply σ e x.1 x.2).2, x.2 ++ (record e x.1 (reply σ e x.1 x.2).1).toList) = y := by
    simpa [scripted] using h
  refine ⟨?_, rfl⟩
  cases e with
  | nextPromptId => exact ⟨rfl, rfl⟩
  | _ => rfl

/-- A scripted run of the daemon is one of its runs. -/
theorem scripted_run (σ : Script) {α : Type} (n : Nat) (p : Daemon α) (x : World × List Event) :
    Run observed p x (p.exec (scripted σ) n x).1 (p.exec (scripted σ) n x).2 :=
  exec_run (fun e x b y h => scripted_sound σ e x b y h) n p x

/-! ## A fresh server -/

def sampleCli : Cli where
  volumeGlob := "/dev/disk/by-id/scsi-0HC_Volume_*"
  luksPartuuid := "cab17794-a0a1-4908-8dd2-3f205a938611"

/-- One blank disk, which has partition 1 once it was partitioned. -/
def freshServer : Script where
  volumes := ["scsi-0HC_Volume_1"]
  output c _ :=
    match c with
    | .blkid _ _ => nothingFound
    | _ => printed ""
  present _ es := (es.filterMap Event.command).contains (.sgdiskNew (.disk "scsi-0HC_Volume_1"))
  answer _ := "correct horse"

/-- The end of a run on a fresh server. -/
def freshEnd : Option (Except Error Nat) × World × List Event :=
  (main sampleCli).exec (scripted freshServer) 400 ({}, [])

/-! ## A volume without a filesystem -/

/-- One encrypted disk in which nothing is found once it is unlocked. -/
def unformatted : Script where
  volumes := ["scsi-0HC_Volume_1"]
  output c _ :=
    match c with
    | .blkid .type (.part1 _) => printed "crypto_LUKS\n"
    | .lsblk _ => printed "cab17794-a0a1-4908-8dd2-3f205a938611\n"
    | .blkid .pttype (.disk _) => printed "gpt\n"
    | .blockdev _ => printed "10737418240\n"
    | .blkid _ _ => nothingFound
    | _ => printed ""
  present _ _ := true
  answer p := if p.kind = .confirm then "yes" else "correct horse"

/-- The end of a run in which the operator agrees to format it. -/
def unformattedEnd : Option (Except Error Nat) × World × List Event :=
  (main sampleCli).exec (scripted unformatted) 400 ({}, [])

end Foundrix.VarDisk

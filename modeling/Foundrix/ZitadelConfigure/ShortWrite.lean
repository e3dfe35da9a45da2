import Foundrix.Text.Path
import Foundrix.ZitadelConfigure.StoredSecret

/-!
# A credential file that is written in part

`writeCredentialFile` of `services/zitadel-configure.ts` on a disk where any of its steps may
fail and a write may store fewer bytes than it was given.

* `Fate`, `Fate.answer`, `disk`: which steps fail, and what they do to the files.
* `run_writeCredentialFile`: what a call returns and leaves.
* `written_whole_iff`: when the file has all of the contents, or nothing is left of the call.
-/

namespace Foundrix.ZitadelConfigure

open Text Effect

/-- The files by their location. -/
abbrev Disk := Location → Option (List UInt8)

def Disk.set (d : Disk) (path : String) (data : Option (List UInt8)) : Disk :=
  Function.update d (locate path) data

/-- Which of the steps succeed, and how many bytes the write stores at the most. -/
structure Fate where
  makes : Bool
  opens : Bool
  stored : Nat
  writes : Bool
  syncs : Bool
  renames : Bool

namespace Fate

def reply {α : Type} (succeeds : Bool) (a : α) : Except Failure α :=
  if succeeds then .ok a else .error { message := "os error" }

/-- A file is only created where there is none. A write stores a part of the data even where it
fails, and a file that was made is always removed. -/
def answer (fate : Fate) : {β : Type} → Deno β → Disk → β × Disk
  | _, .mkdir _, d => (reply fate.makes (), d)
  | _, .openNew path, d =>
    if fate.opens ∧ d (locate path) = none then (.ok (), d.set path (some [])) else
      (reply false (), d)
  | _, .write path data, d =>
    (reply fate.writes (min fate.stored data.length),
      d.set path ((d (locate path)).map fun old => old ++ data.take fate.stored))
  | _, .sync _, d => (reply fate.syncs (), d)
  | _, .close _, d => (.ok (), d)
  | _, .rename src dst, d =>
    if fate.renames then (.ok (), (d.set dst (d (locate src))).set src none) else
      (reply false (), d)
  | _, .remove path, d => (.ok (), d.set path none)
  | _, .readTextFile _, d => (reply false "", d)
  | _, .writeTextFile _ _, d => (reply false (), d)
  | _, .readFile _, d => (reply false (), d)

end Fate

/-- Only the functions of Deno are answered. -/
def disk (fate : Fate) : Handler Op Disk where
  step e d b d' :=
    match e with
    | .inl _ => False
    | .inr f => (b, d') = fate.answer f d

variable {fate : Fate} {d d' : Disk} {path contents : String} {pid : Nat}
  {r : Except Failure Unit}

theorem run_step {α β : Type} {f : Deno β} {k : β → Script α} {o : Except Failure α} :
    Run (disk fate) (.op (.inr f) k) d (some o) d' ↔
      Run (disk fate) (k (fate.answer f d).1) (fate.answer f d).2 (some o) d' := by
  rw [run_op]
  constructor
  · rintro (⟨h, -⟩ | ⟨b, v, hstep, hrest⟩)
    · cases h
    · obtain ⟨rfl, rfl⟩ : b = (fate.answer f d).1 ∧ v = (fate.answer f d).2 := by
        simpa [Prod.ext_iff] using show (b, v) = fate.answer f d from hstep
      exact hrest
  · intro hrest
    exact Or.inr ⟨_, _, show (_, _) = fate.answer f d from rfl, hrest⟩

/-- The temporary file is created. -/
def Opened (fate : Fate) (d : Disk) (pid : Nat) (path : String) : Prop :=
  (parentDir path = none ∨ fate.makes = true) ∧ fate.opens = true ∧
    d (locate (tmpPath pid path)) = none

instance : Decidable (Opened fate d pid path) := inferInstanceAs (Decidable (_ ∧ _))

/-- What is left of the call where the temporary file was created. -/
def Left (fate : Fate) (d : Disk) (pid : Nat) (path contents : String) : Disk :=
  if fate.writes ∧ fate.syncs then
    if fate.renames then d.set path (some ((utf8 contents).take fate.stored)) else d
  else d.set (tmpPath pid path) (some ((utf8 contents).take fate.stored))

theorem Disk.set_set (d : Disk) (path : String) (data data' : Option (List UInt8)) :
    (d.set path data).set path data' = d.set path data' := Function.update_idem _ _ _

theorem Disk.set_eq_self {d : Disk} {path : String} {data : Option (List UInt8)}
    (h : d (locate path) = data) : d.set path data = d := by
  rw [← h]
  exact Function.update_eq_self _ _

theorem Disk.set_self (d : Disk) (path : String) (data : Option (List UInt8)) :
    d.set path data (locate path) = data := Function.update_self _ _ _

theorem Disk.set_comm (d : Disk) {path path' : String} (h : locate path ≠ locate path')
    (data data' : Option (List UInt8)) :
    (d.set path data).set path' data' = (d.set path' data').set path data :=
  Function.update_comm h _ _ _

theorem run_writeCredentialFile (h : Opened fate d pid path) :
    Run (disk fate) (writeCredentialFile pid path contents) d (some r) d' ↔
      (r = if fate.writes ∧ fate.syncs ∧ fate.renames then .ok () else
        .error { message := "os error" }) ∧ d' = Left fate d pid path contents := by
  obtain ⟨hmakes, hopens, htmp⟩ := h
  have hdir : ∀ {k : Unit → Script Unit},
      Run (disk fate) ((ensureParentDir path).bind k) d (some r) d' ↔
        Run (disk fate) (k ()) d (some r) d' := by
    intro k
    unfold ensureParentDir
    rcases hmakes with hnone | hmakes
    · rw [hnone]
      rfl
    · cases parentDir path with
      | none => rfl
      | some dir =>
        show Run (disk fate) (.op (.inr (.mkdir dir)) _) d (some r) d' ↔ _
        rw [run_step]
        simp only [Fate.answer, Fate.reply, hmakes, if_true]
        rfl
  unfold writeCredentialFile
  simp only [Prog.bind_eq]
  rw [hdir]
  have hopen : fate.answer (.openNew (tmpPath pid path)) d =
      (.ok (), d.set (tmpPath pid path) (some [])) := if_pos ⟨hopens, htmp⟩
  have hwrite : fate.answer (.write (tmpPath pid path) (utf8 contents))
      (d.set (tmpPath pid path) (some [])) =
      (Fate.reply fate.writes (min fate.stored (utf8 contents).length),
        d.set (tmpPath pid path) (some ((utf8 contents).take fate.stored))) := by
    simp only [Fate.answer, Disk.set_self, Option.map_some, List.nil_append, Disk.set_set]
  have hrename : ∀ data, ((d.set (tmpPath pid path) data).set path
      ((d.set (tmpPath pid path) data) (locate (tmpPath pid path)))).set (tmpPath pid path) none =
      d.set path data := by
    intro data
    rw [Disk.set_self, Disk.set_comm _ (locate_tmpPath_ne pid path), Disk.set_set,
      Disk.set_eq_self]
    exact (Function.update_of_ne (locate_tmpPath_ne pid path) _ _).trans htmp
  unfold deno
  simp only [Prog.bind_eq, Prog.perform, Prog.bind_op, Prog.bind_pure, run_step, hopen]
  simp only [Prog.orFail, Prog.bind_pure, Prog.attempt, Prog.bind_op, run_step, hwrite]
  have hpure : ∀ e : Disk, Run (disk fate) (.pure () : Script Unit) e (some r) d' ↔
      r = .ok () ∧ d' = e := by
    intro e
    rw [run_pure]
    simp [and_comm]
  have hfail : ∀ (e : Disk) (f : Failure), Run (disk fate) (.fail f : Script Unit) e (some r) d' ↔
      r = .error f ∧ d' = e := by
    intro e f
    rw [run_fail]
    simp [and_comm]
  unfold Left
  cases hwrites : fate.writes
  · simp [Fate.reply, Prog.attempt, run_step, Fate.answer, hfail]
  · cases hsyncs : fate.syncs
    · simp [Fate.reply, Prog.attempt, run_step, Fate.answer, hsyncs, hfail]
    · cases hrenames : fate.renames
      · simp [Fate.reply, Prog.attempt, run_step, Fate.answer, hsyncs, hrenames, hfail,
          Disk.set_set, Disk.set_eq_self htmp]
      · simp [Fate.reply, Prog.attempt, run_step, Fate.answer, hsyncs, hrenames, hpure, hrename]

/-- Without a temporary file of its own, a call is refused and leaves everything as it was. -/
theorem run_writeCredentialFile_of_not (h : ¬ Opened fate d pid path) :
    Run (disk fate) (writeCredentialFile pid path contents) d (some r) d' ↔
      r = .error { message := "os error" } ∧ d' = d := by
  have hfail : ∀ f : Failure, Run (disk fate) (.fail f : Script Unit) d (some r) d' ↔
      r = .error f ∧ d' = d := by
    intro f
    rw [run_fail]
    simp [and_comm]
  have hopen : ∀ {k : Unit → Script Unit}, (parentDir path = none ∨ fate.makes = true) →
      (Run (disk fate) ((deno (.openNew (tmpPath pid path))).bind k) d (some r) d' ↔
        r = .error { message := "os error" } ∧ d' = d) := by
    intro k hmakes
    have hnot : ¬ (fate.opens = true ∧ d (locate (tmpPath pid path)) = none) :=
      fun hopens => h ⟨hmakes, hopens⟩
    show Run (disk fate) (.op (.inr (.openNew _)) _) d (some r) d' ↔ _
    rw [run_step]
    simp only [Fate.answer, if_neg hnot]
    exact hfail _
  unfold writeCredentialFile ensureParentDir
  simp only [Prog.bind_eq]
  cases hdir : parentDir path with
  | none => exact hopen (Or.inl hdir)
  | some dir =>
    show Run (disk fate) (.op (.inr (.mkdir dir)) _) d (some r) d' ↔ _
    rw [run_step]
    by_cases hmakes : fate.makes = true
    · simp only [Fate.answer, Fate.reply, hmakes, if_true]
      exact hopen (Or.inr hmakes)
    · simp only [Fate.answer, Fate.reply, hmakes]
      exact hfail _

/-- The call returns with all of the contents in the file, or it throws and the file and the
temporary file are as they were. -/
def Whole (fate : Fate) (d : Disk) (pid : Nat) (path contents : String) : Prop :=
  (∃ r d', Run (disk fate) (writeCredentialFile pid path contents) d (some r) d') ∧
  ∀ r d', Run (disk fate) (writeCredentialFile pid path contents) d (some r) d' →
    match r with
    | .ok () => d' (locate path) = some (utf8 contents)
    | .error _ => d' (locate path) = d (locate path) ∧
        d' (locate (tmpPath pid path)) = d (locate (tmpPath pid path))

/-- A credential file is put in place whole, or nothing is left of the call, if and only if the
temporary file is not created, or its write and its sync succeed and, where it is renamed, the
write stores every byte. -/
theorem written_whole_iff (fate : Fate) (d : Disk) (pid : Nat) (path contents : String) :
    Whole fate d pid path contents ↔ (Opened fate d pid path → fate.writes ∧ fate.syncs ∧
      (fate.renames → (utf8 contents).length ≤ fate.stored)) := by
  unfold Whole
  by_cases hopened : Opened fate d pid path
  · have htmp := hopened.2.2
    have hne := locate_tmpPath_ne pid path
    simp only [run_writeCredentialFile hopened, hopened, true_imp_iff]
    unfold Left
    cases fate.writes <;> cases fate.syncs <;> cases fate.renames <;>
      simp [Disk.set, htmp, hne]
  · simp only [run_writeCredentialFile_of_not hopened, hopened, false_imp_iff, iff_true]
    refine ⟨⟨_, _, rfl, rfl⟩, ?_⟩
    rintro r d' ⟨rfl, rfl⟩
    exact ⟨rfl, rfl⟩

/-- Every step succeeds, and the write stores twenty bytes. -/
def shortWrite : Fate := ⟨true, true, 20, true, true, true⟩

/-- The first bytes of a secret are put in the place of the file. -/
theorem secret_cut : ¬ ∀ fate d pid path contents, Whole fate d pid path contents := by
  intro h
  have hopened : Opened shortWrite (fun _ => none) 7 "app.env" := ⟨Or.inr rfl, rfl, rfl⟩
  have hwhole : Disk.set (fun _ => none) "app.env"
      (some ((utf8 "CLIENT_ID=1\nCLIENT_SECRET=s3cret\n").take 20)) (locate "app.env") =
      some (utf8 "CLIENT_ID=1\nCLIENT_SECRET=s3cret\n") :=
    (h _ _ _ _ _).2 _ _ ((run_writeCredentialFile hopened).mpr ⟨rfl, rfl⟩)
  rw [Disk.set_self] at hwhole
  revert hwhole
  decide +kernel

end Foundrix.ZitadelConfigure

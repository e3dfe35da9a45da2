import Foundrix.OperatorSecrets.WholeRun

/-!
# What the release of the boot promises

When a boot run ends well, every secret is stored and proven, as long as no secret's path is
one of the daemon's own files and no write touched the file of a secret that had its turn
before. `Spec::parse` does not rule these out: a path may be the state file, and two secrets
may name one destination.

* `released_secrets_settled`: the promise, for runs without such a write.
* `released_secret_overwritten`: a run with one, in which the promise is broken.
-/

namespace Foundrix.OperatorSecrets

open Effect Text

/-- A boot run that ends well leaves every secret of the spec stored with values that were
found valid in this run, provided no secret's path is the state file or the control socket and
no file operation touched the file of a secret that had its turn before. -/
theorem released_secrets_settled [Externals] (pid : Nat) (cli : Cli) (text : String) (spec : Spec)
    (hspec : Spec.parse text = .ok spec) (hboot : cli.edit = false)
    (hown : ∀ s ∈ spec.secrets, ¬ (homeOf cli.socket).Has (locate s.path)) (files : Files)
    (y : World × List Event)
    (h : Run observed (run pid cli) (World.initial cli.socket (.ok text) files, [])
      (some (.ok ())) y)
    (hund : Undisturbed y.2) : ∀ s ∈ spec.secrets, Settled s y := by
  intro s hs
  have hhome : y.1.home = homeOf cli.socket := (observed_replayed h).1
  refine (run_spec hspec files).2 _ _ h hboot () rfl hund s hs ?_
  rw [hhome]
  exact hown s hs

/-- A run with a single secret has nothing to disturb. -/
theorem undisturbed_of_reads {es : List Event} (h : (reads es).length ≤ 1) : Undisturbed es := by
  rintro before e after rfl c r rfl path hpath
  have hlen : (reads before).length ≤ 1 := by
    unfold reads at *
    rw [List.filterMap_append, List.length_append] at h
    omega
  have hnil : (reads before).dropLast = [] := by
    rw [← List.length_eq_zero_iff, List.length_dropLast]
    omega
  rw [hnil] at hpath
  cases hpath

/-! ## Concrete secrets -/

def secretA : SecretSpec where
  name := "a"
  fields := [{ name := "A" }]
  path := "/s/f"

def secretB : SecretSpec where
  name := "b"
  fields := [{ name := "B" }]
  path := "/s/f"

def oneText : String := "\x7b\"version\":1,\"secrets\":[\x7b\"name\":\"b\",\"fields\":[" ++
  "\x7b\"name\":\"B\"\x7d],\"path\":\"/s/f\"\x7d]\x7d"

/-- The boot run of the second secret alone, from an empty disk. -/
def oneEnd : Option (Except Stop Unit) × (World × List Event) :=
  letI := samplePrograms oneText ⟨1, [secretB]⟩
  (run 7 sampleCli).exec (scripted { messages := [.submit 1 [("B", "y")]] }) 200
    (World.initial sampleCli.socket (.ok oneText) fun _ => none, [])

theorem one_parse :
    @Spec.parse (samplePrograms oneText ⟨1, [secretB]⟩) oneText = .ok ⟨1, [secretB]⟩ := by
  unfold Spec.parse
  rw [samplePrograms_specFromStr]
  decide

theorem released_secrets_settled_sample :
    letI := samplePrograms oneText ⟨1, [secretB]⟩
    Run observed (run 7 sampleCli) (World.initial sampleCli.socket (.ok oneText) fun _ => none, [])
      (some (.ok ())) oneEnd.2 ∧ Settled secretB oneEnd.2 := by
  let _ := samplePrograms oneText ⟨1, [secretB]⟩
  have h : Run observed (run 7 sampleCli)
      (World.initial sampleCli.socket (.ok oneText) fun _ => none, []) oneEnd.1 oneEnd.2 := scripted_run _ _ _ _
  have hend : oneEnd.1 = some (.ok ()) := by decide +kernel
  rw [hend] at h
  exact ⟨h, released_secrets_settled 7 sampleCli oneText ⟨1, [secretB]⟩ one_parse rfl
    (by decide +kernel) _ _ h (undisturbed_of_reads (by decide +kernel)) secretB List.mem_cons_self⟩

/-! ## Two secrets in one file -/

def twoText : String := "\x7b\"version\":1,\"secrets\":[\x7b\"name\":\"a\",\"fields\":[" ++
  "\x7b\"name\":\"A\"\x7d],\"path\":\"/s/f\"\x7d,\x7b\"name\":\"b\",\"fields\":[" ++
  "\x7b\"name\":\"B\"\x7d],\"path\":\"/s/f\"\x7d]\x7d"

def twoSpec : Spec := ⟨1, [secretA, secretB]⟩

/-- The file of the first secret, complete. -/
def twoFiles : Files :=
  fun l => if l = ["s", "f"] then some ⟨some "A=x\n", 0, 0, 0o400⟩ else none

/-- The boot run in which the operator answers the prompt for the second secret. -/
def twoEnd : Option (Except Stop Unit) × (World × List Event) :=
  letI := samplePrograms twoText twoSpec
  (run 7 sampleCli).exec (scripted { messages := [.submit 1 [("B", "y")]] }) 200
    (World.initial sampleCli.socket (.ok twoText) twoFiles, [])

theorem two_parse :
    @Spec.parse (samplePrograms twoText twoSpec) twoText = .ok twoSpec := by
  unfold Spec.parse
  rw [samplePrograms_specFromStr]
  decide

/-- The run ends well, and the file of the first secret does not hold the first secret. -/
theorem released_secret_overwritten :
    ¬ ∀ (_ : Externals) (pid : Nat) (cli : Cli) (text : String) (spec : Spec),
      Spec.parse text = .ok spec → cli.edit = false → ∀ (files : Files)
        (y : World × List Event),
        Run observed (run pid cli) (World.initial cli.socket (.ok text) files, []) (some (.ok ())) y →
        ∀ s ∈ spec.secrets, Settled s y := by
  let _ := samplePrograms twoText twoSpec
  intro h
  have run : Run observed (run 7 sampleCli) (World.initial sampleCli.socket (.ok twoText) twoFiles, [])
      twoEnd.1 twoEnd.2 := scripted_run _ _ _ _
  have hend : twoEnd.1 = some (.ok ()) := by decide +kernel
  have hfile : twoEnd.2.1.files (locate secretA.path) = some ⟨some "B=y\n", 0, 0, 0o400⟩ := by
    decide +kernel
  rw [hend] at run
  obtain ⟨e, text, vs, he, ht, hvs, -⟩ := h _ 7 sampleCli twoText twoSpec two_parse rfl twoFiles
    twoEnd.2 run secretA List.mem_cons_self
  obtain rfl := Option.some.inj (hfile.symm.trans he)
  obtain rfl := Option.some.inj ht
  obtain ⟨v, vs', -, hv, -⟩ := fills_cons.mp (classifyStored_complete.mp hvs)
  have hnone : parseEnvFile "B=y\n" "A" = none := by decide
  rw [hnone] at hv
  cases hv

end Foundrix.OperatorSecrets

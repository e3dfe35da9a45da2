import Foundrix.OperatorSecrets.History
import Foundrix.OperatorSecrets.RoundTrip

/-!
# What each function of the daemon does

One lemma per function: started where the invariant holds, the function keeps it at every
step, and where it returns the history has grown by the events the lemma names.

* `ask_spec`: an accepted answer to one of the prompts posted.
* `validateUntilDecided_spec`: one decision of the validator.
* `writeSecret_spec`: the operations of the write, and the file it leaves.
* `promptUntilAccepted_spec`, `satisfy_spec`: one secret, proven and stored.
-/

namespace Foundrix.OperatorSecrets

open Effect Text

variable [Externals] {allowed : List Event → FileOp → Prop} {x : World × List Event}

/-! ## The UI -/

theorem silent_spec {β : Type} {e : Op β} (he : Silent e) (hI : Inv allowed x) :
    wp observed (Inv allowed) (Prog.perform e : Daemon β)
      (fun r y => (∃ b, r = .ok b) ∧ Still x y) x := by
  refine wp_perform hI fun b y hs => ?_
  obtain ⟨hI', hstill⟩ := silent_step he hI hs
  exact ⟨hI', ⟨b, rfl⟩, hstill⟩

/-- A program of silent operations leaves no trace in the history or in the files. -/
theorem silentOnly_spec {α : Type} {p : Daemon α} (hp : p.Only Silent) (hI : Inv allowed x) :
    wp observed (Inv allowed) p (fun _ y => Still x y) x := by
  refine wp_mono (wp_always_mono (wp_only (J := fun y => Inv allowed y ∧ Still x y) hp
    (fun e y b z he hy hs => ?_) ⟨hI, rfl, .refl _⟩) fun _ h => h.1) fun _ _ _ h => h.2
  obtain ⟨hz, hstill⟩ := silent_step he hy.1 hs
  exact ⟨hz, hy.2.trans hstill⟩

theorem mutate_spec {f : Snapshot → Snapshot}
    (hf : ∀ s, (f s).prompt = s.prompt ∨ (f s).prompt = none) (hI : Inv allowed x) :
    wp observed (Inv allowed) (Ui.mutate f) (fun r y => (∃ b, r = .ok b) ∧ Still x y) x :=
  silent_spec (e := .mutate f) hf hI

theorem state_spec (phase message : String) (hI : Inv allowed x) :
    wp observed (Inv allowed) (Ui.state phase message)
      (fun r y => (∃ b, r = .ok b) ∧ Still x y) x := by
  refine wp_seq (silent_spec (e := .eprintln _) trivial hI) ?_
  rintro _ y hy ⟨⟨_, rfl⟩, h1⟩
  refine wp_mono (mutate_spec (fun s => Or.inl rfl) hy) ?_
  rintro r z hz ⟨hr, h2⟩
  exact ⟨hr, h1.trans h2⟩

theorem setSecret_spec (name : String) (state : SecretState) (detail : String)
    (hI : Inv allowed x) :
    wp observed (Inv allowed) (Ui.setSecret name state detail)
      (fun r y => (∃ b, r = .ok b) ∧ Still x y) x :=
  mutate_spec (fun _ => Or.inl rfl) hI

theorem blocked_spec (b : Bool) (hI : Inv allowed x) :
    wp observed (Inv allowed) (Ui.blocked b) (fun r y => (∃ b, r = .ok b) ∧ Still x y) x :=
  mutate_spec (fun _ => Or.inl rfl) hI

/-- Taking a message: it is the only event, and nothing else changes. -/
theorem tryRecv_step {m : Option ClientMsg} {y : World × List Event} (hI : Inv allowed x)
    (hs : observed.step .tryRecv x m y) :
    Inv allowed y ∧ y.1 = x.1 ∧ y.2 = x.2 ++ (m.map Event.received).toList := by
  obtain ⟨w, h⟩ := x
  obtain ⟨w', h'⟩ := y
  obtain ⟨rfl : w' = w, hlog : h' = h ++ (m.map Event.received).toList⟩ := hs
  refine ⟨?_, rfl, hlog⟩
  cases m with
  | none =>
    obtain rfl : h' = h := by simpa using hlog
    exact hI
  | some m =>
    subst hlog
    refine ⟨chronicle_concat.mpr ⟨hI.sound, trivial⟩, fun p hp => hI.bound p ?_,
      fun p hp => List.mem_append_left _ (hI.current p hp)⟩
    simpa using hp

/-- Everything dropped until the answer to the prompt `id` comes. -/
theorem waitForSubmission_spec (id : Nat) (hI : Inv allowed x) :
    wp observed (Inv allowed) (Ui.waitForSubmission id)
      (fun r y => ∃ l dropped, r = .ok l ∧ Dropped id dropped ∧
        y.2 = x.2 ++ (dropped ++ [.received (.submit id l)]) ∧ Kept x.1 y.1) x := by
  refine wp_iterate (fun _ y => Inv allowed y ∧ ∃ dropped, Dropped id dropped ∧
    y.2 = x.2 ++ dropped ∧ Kept x.1 y.1) ⟨hI, [], by simp [Dropped], by simp, .refl _⟩ ?_
  rintro _ y ⟨hy, dropped, hd, hlog, hkept⟩
  refine wp_step hy fun m z hs => ?_
  obtain ⟨hz, hw, hlog'⟩ := tryRecv_step hy hs
  have hkept' : Kept x.1 z.1 := hw ▸ hkept
  have again : ∀ m', m = some m' → (∀ l, m' ≠ .submit id l) → Inv allowed z ∧
      ∃ dropped, Dropped id dropped ∧ z.2 = x.2 ++ dropped ∧ Kept x.1 z.1 := by
    rintro m' rfl hm
    refine ⟨hz, dropped ++ [.received m'], fun e he => ?_, by rw [hlog', hlog]; simp, hkept'⟩
    rcases List.mem_append.mp he with he | he
    · exact hd e he
    · exact ⟨m', List.mem_singleton.mp he, hm⟩
  rcases m with _ | ⟨promptId, values⟩ | secret
  · refine wp_seq (silent_spec (e := .sleep 100) trivial hz) ?_
    rintro _ v hv ⟨⟨_, rfl⟩, hstill⟩
    refine wp_pure.mpr ⟨hv, hv, dropped, hd, ?_, hkept'.trans hstill.kept⟩
    rw [hstill.log, hlog', hlog]
    simp
  · dsimp only
    split
    · rename_i hid
      subst hid
      exact wp_pure.mpr ⟨hz, values, dropped, rfl, hd, by rw [hlog', hlog]; simp, hkept'⟩
    · rename_i hid
      exact wp_pure.mpr ⟨hz, again _ rfl fun l h => hid (ClientMsg.submit.inj h).1⟩
  · exact wp_pure.mpr ⟨hz, again _ rfl fun l h => nomatch h⟩

/-- A new prompt id is above all ids used so far. -/
theorem nextPromptId_step {id : Nat} {y : World × List Event} (hI : Inv allowed x)
    (hs : observed.step .nextPromptId x id y) :
    Inv allowed y ∧ Still x y ∧ y.1.promptId = id ∧ ∀ q, .asked q ∈ y.2 → q.id < id := by
  obtain ⟨w, h⟩ := x
  obtain ⟨w', h'⟩ := y
  obtain ⟨⟨rfl, rfl⟩, hlog⟩ := hs
  obtain rfl : h' = h := by simpa [record] using hlog
  exact ⟨⟨hI.sound, fun p hp => Nat.le_succ_of_le (hI.bound p hp), hI.current⟩,
    ⟨rfl, rfl, fun _ _ => rfl⟩, rfl, fun q hq => Nat.lt_succ_of_le (hI.bound q hq)⟩

/-- Putting up a prompt with a new id is one event. -/
theorem asked_step {p : Prompt} {u : Unit} {y : World × List Event} (hI : Inv allowed x)
    (hid : x.1.promptId = p.id) (hnew : ∀ q, .asked q ∈ x.2 → q.id < p.id)
    (hs : observed.step (.mutate fun s => { s with prompt := some p }) x u y) :
    Inv allowed y ∧ y.2 = x.2 ++ [.asked p] ∧ Kept x.1 y.1 := by
  obtain ⟨w, h⟩ := x
  obtain ⟨w', h'⟩ := y
  obtain ⟨⟨how, -, rfl⟩, hlog⟩ := hs
  have hkept : Kept w (w.mutate fun s => { s with prompt := some p }) := ⟨rfl, fun _ _ => rfl⟩
  have hne : ¬ some p = w.snapshot.prompt :=
    fun he => absurd (hnew p (hI.current p he.symm)) (lt_irrefl _)
  obtain rfl : h' = h ++ [.asked p] := by simpa [record, hne] using hlog
  refine ⟨⟨chronicle_concat.mpr ⟨hI.sound, hnew⟩, fun q hq => ?_, fun q hq => ?_⟩, rfl,
    hkept.overwrite how⟩
  · rcases List.mem_append.mp hq with hq | hq
    · exact hI.bound q hq
    · obtain rfl : q = p := by simpa using hq
      exact hid.ge
  · obtain rfl : q = p := (Option.some.inj hq).symm
    simp

/-- A value list that `ask` returns was submitted for the prompt it had posted. -/
theorem ask_spec (spec : SecretSpec) (reason : String) (known : EnvMap) (hI : Inv allowed x) :
    wp observed (Inv allowed) (Ui.ask spec reason known)
      (fun r y => ∃ vs es, r = .ok vs ∧ y.2 = x.2 ++ es ∧ Answered spec vs es ∧
        Kept x.1 y.1) x := by
  refine wp_iterate (fun _ y => Inv allowed y ∧ ∃ es, y.2 = x.2 ++ es ∧ Kept x.1 y.1)
    ⟨hI, [], by simp, .refl _⟩ ?_
  rintro ⟨known, reason⟩ y ⟨hy, es, hlog, hkept⟩
  refine wp_step hy fun id y1 hs => ?_
  obtain ⟨hy1, hstill1, hid, hnew⟩ := nextPromptId_step hy hs
  refine wp_step hy1 fun u y2 hs => ?_
  obtain ⟨hy2, hlog2, hkept2⟩ := asked_step hy1 hid hnew hs
  refine wp_seq (waitForSubmission_spec id hy2) ?_
  rintro _ y3 hy3 ⟨l, dropped, rfl, hd, hlog3, hkept3⟩
  refine wp_seq (mutate_spec (fun _ => Or.inr rfl) hy3) ?_
  rintro _ y4 hy4 ⟨⟨_, rfl⟩, hstill4⟩
  have hlog4 : y4.2 = x.2 ++ (es ++ .asked (Ui.form spec id reason known) ::
      (dropped ++ [.received (.submit id l)])) := by
    rw [hstill4.log, hlog3, hlog2, hstill1.log, hlog]
    simp
  have hkept4 : Kept x.1 y4.1 :=
    (((hkept.trans hstill1.kept).trans hkept2).trans hkept3).trans hstill4.kept
  cases hacc : acceptSubmission spec l with
  | ok vs =>
    exact wp_pure.mpr ⟨hy4, vs, _, rfl, hlog4, ⟨es, id, reason, known, dropped, l, rfl, hd, hacc⟩,
      hkept4⟩
  | error e =>
    refine wp_seq (state_spec _ _ hy4) ?_
    rintro _ y5 hy5 ⟨⟨_, rfl⟩, hstill5⟩
    exact wp_pure.mpr ⟨hy5, hy5, _, hstill5.log.trans hlog4, hkept4.trans hstill5.kept⟩

/-! ## The validator -/

/-- A run of the validator is one event. -/
theorem runValidator_step {argv : List String} {values : Values} {timeout : Nat}
    {outcome : ValidatorOutcome} {y : World × List Event} (hI : Inv allowed x)
    (hs : observed.step (.runValidator argv values timeout) x outcome y) :
    Inv allowed y ∧ Kept x.1 y.1 ∧ y.2 = x.2 ++
      [.judged argv values (verdictOf (argv.headD "") values timeout outcome)] := by
  obtain ⟨w, h⟩ := x
  obtain ⟨w', h'⟩ := y
  obtain ⟨hw, hlog⟩ := hs
  obtain rfl : w' = w := hw
  obtain rfl : h' = h ++ [.judged argv values (verdictOf (argv.headD "") values timeout outcome)] :=
    hlog
  refine ⟨⟨chronicle_concat.mpr ⟨hI.sound, trivial⟩, fun p hp => hI.bound p ?_,
    fun p hp => List.mem_append_left _ (hI.current p hp)⟩, .refl _, rfl⟩
  simpa using hp

theorem validate_spec {spec : SecretSpec} (hs : spec.validateCommand ≠ some []) (values : Values)
    (timeout : Nat) (hI : Inv allowed x) :
    wp observed (Inv allowed) (validate spec values timeout)
      (fun r y => ∃ v es, r = .ok v ∧ y.2 = x.2 ++ es ∧ Kept x.1 y.1 ∧
        match spec.validateCommand with
        | none => es = [] ∧ v = presenceVerdict spec values
        | some argv => es = [.judged argv values v]) x := by
  unfold validate
  rcases hc : spec.validateCommand with _ | _ | ⟨program, args⟩
  · exact wp_pure.mpr ⟨hI, _, [], rfl, by simp, .refl _, rfl, rfl⟩
  · exact absurd hc hs
  · refine wp_step hI fun outcome y hy => ?_
    obtain ⟨hy', hkept, hlog⟩ := runValidator_step hI hy
    exact wp_pure.mpr ⟨hy', _, _, rfl, hlog, hkept, rfl⟩

/-- What comes out of `validate_until_decided` is one decision of the validator, and never
that it cannot decide. -/
theorem validateUntilDecided_spec {spec : SecretSpec} (hs : spec.validateCommand ≠ some [])
    (values : Values) (what : String) (timeout retry : Nat) (hI : Inv allowed x) :
    wp observed (Inv allowed) (validateUntilDecided spec values what timeout retry)
      (fun r y => ∃ v es, r = .ok v ∧ v.status ≠ .error ∧ y.2 = x.2 ++ es ∧
        Decides spec values v es ∧ Kept x.1 y.1) x := by
  -- the events of the turns so far are verdicts that could not decide
  refine wp_iterate (fun _ y => Inv allowed y ∧ ∃ es, y.2 = x.2 ++ es ∧
    Kept x.1 y.1 ∧ match spec.validateCommand with
      | none => es = []
      | some argv => ∀ e ∈ es, ∃ v', e = .judged argv values v' ∧ v'.status = .error)
    ⟨hI, [], by simp, .refl _, by split <;> simp⟩ ?_
  rintro attempt y ⟨hy, es, hlog, hkept, hes⟩
  refine wp_seq (setSecret_spec _ _ _ hy) ?_
  rintro _ y1 hy1 ⟨⟨_, rfl⟩, hstill1⟩
  refine wp_seq (validate_spec hs values timeout hy1) ?_
  rintro _ y2 hy2 ⟨v, ev, rfl, hlog2, hkept2, hev⟩
  have hlog2' : y2.2 = x.2 ++ (es ++ ev) := by
    rw [hlog2, hstill1.log, hlog, List.append_assoc]
  have hkept2' : Kept x.1 y2.1 := (hkept.trans hstill1.kept).trans hkept2
  dsimp only
  split
  · rename_i hv
    have hdec : Decides spec values v (es ++ ev) := by
      unfold Decides
      cases hc : spec.validateCommand with
      | none =>
        rw [hc] at hes hev
        rw [hes, hev.1]
        exact ⟨rfl, hev.2⟩
      | some argv =>
        rw [hc] at hes hev
        exact ⟨es, by rw [hev], hes⟩
    split
    · refine wp_seq (blocked_spec false hy2) ?_
      rintro _ y3 hy3 ⟨⟨_, rfl⟩, hstill3⟩
      exact wp_pure.mpr ⟨hy3, v, es ++ ev, rfl, hv, hstill3.log.trans hlog2', hdec,
        hkept2'.trans hstill3.kept⟩
    · exact wp_pure.mpr ⟨hy2, v, es ++ ev, rfl, hv, hlog2', hdec, hkept2'⟩
  · rename_i hv
    have hv' : v.status = .error := not_not.mp hv
    refine wp_seq (setSecret_spec _ _ _ hy2) ?_
    rintro _ y3 hy3 ⟨⟨_, rfl⟩, hstill3⟩
    refine wp_seq (blocked_spec true hy3) ?_
    rintro _ y4 hy4 ⟨⟨_, rfl⟩, hstill4⟩
    refine wp_seq (state_spec _ _ hy4) ?_
    rintro _ y5 hy5 ⟨⟨_, rfl⟩, hstill5⟩
    refine wp_seq (silent_spec (e := .sleep _) trivial hy5) ?_
    rintro _ y6 hy6 ⟨⟨_, rfl⟩, hstill6⟩
    have hstill := ((hstill3.trans hstill4).trans hstill5).trans hstill6
    refine wp_pure.mpr ⟨hy6, hy6, es ++ ev, hstill.log.trans hlog2', hkept2'.trans hstill.kept, ?_⟩
    cases hc : spec.validateCommand with
    | none =>
      rw [hc] at hes hev
      rw [hes, hev.1]
      rfl
    | some argv =>
      rw [hc] at hes hev
      intro e he
      rcases List.mem_append.mp he with he | he
      · exact hes e he
      · exact ⟨v, by rw [hev] at he; exact List.mem_singleton.mp he, hv'⟩

/-! ## Writing -/

theorem file_step {c : FileOp} {r : Except IoError Unit} {y : World × List Event}
    (hI : Inv allowed x) (hc : c.touches ≠ [] → allowed x.2 c)
    (hs : observed.step (.file c) x r y) :
    Inv allowed y ∧ y.2 = x.2 ++ [.file c r] ∧ c.Answers x.1.files r y.1.files := by
  obtain ⟨w, h⟩ := x
  obtain ⟨w', h'⟩ := y
  obtain ⟨⟨fs, hans, rfl⟩, hlog⟩ := hs
  obtain rfl : h' = h ++ [.file c r] := hlog
  refine ⟨⟨chronicle_concat.mpr ⟨hI.sound, hc⟩, fun p hp => hI.bound p ?_,
    fun p hp => List.mem_append_left _ (hI.current p hp)⟩, rfl, hans⟩
  simpa using hp

/-- In the middle of writing a secret that began in `x`. -/
structure Writing (allowed : List Event → FileOp → Prop) (ops : List FileOp)
    (x y : World × List Event) : Prop where
  inv : Inv allowed y
  log : ∃ es, y.2 = x.2 ++ es ∧ ∀ e ∈ es, ∃ c ∈ ops, ∃ r, e = .file c r
  frame : ∀ l, (∀ c ∈ ops, l ∉ c.touches) → y.1.files l = x.1.files l

section Writing

variable {ops : List FileOp} {y : World × List Event}

/-- The operations of a write are allowed after what has been done of it. -/
def MayWrite (allowed : List Event → FileOp → Prop) (ops : List FileOp) (before : List Event) :
    Prop :=
  ∀ es, (∀ e ∈ es, ∃ c ∈ ops, ∃ r, e = .file c r) → ∀ c ∈ ops, allowed (before ++ es) c

theorem Writing.next {c : FileOp} {r : Except IoError Unit} {z : World × List Event}
    (hmay : MayWrite allowed ops x.2) (h : Writing allowed ops x y) (hc : c ∈ ops)
    (hs : observed.step (.file c) y r z) :
    Writing allowed ops x z ∧ c.Answers y.1.files r z.1.files := by
  obtain ⟨hI, ⟨es, hlog, hes⟩, hframe⟩ := h
  obtain ⟨hI', hlog', hans⟩ := file_step hI (fun _ => hlog ▸ hmay es hes c hc) hs
  refine ⟨⟨hI', ⟨es ++ [.file c r], by rw [hlog', hlog, List.append_assoc], ?_⟩, fun l hl => ?_⟩,
    hans⟩
  · intro e he
    rcases List.mem_append.mp he with he | he
    · exact hes e he
    · exact ⟨c, hc, r, List.mem_singleton.mp he⟩
  · rw [hans.frame (hl c hc), hframe l hl]

theorem withContext_spec {c : FileOp} (context : String) (hmay : MayWrite allowed ops x.2)
    (h : Writing allowed ops x y) (hc : c ∈ ops) :
    wp observed (Inv allowed) (Daemon.withContext context (.file c))
      (fun r z => Writing allowed ops x z ∧
        ∀ u, r = .ok u → z.1.files = c.effect y.1.files) y := by
  refine wp_step h.inv fun r z hs => ?_
  obtain ⟨hw, hans⟩ := h.next hmay hc hs
  cases r with
  | ok u => exact wp_pure.mpr ⟨hw.inv, hw, fun _ _ => hans.2⟩
  | error e => exact wp_fail.mpr ⟨hw.inv, hw, nofun⟩

theorem orCleanup_spec {c : FileOp} (tmp context : String) (hmay : MayWrite allowed ops x.2)
    (h : Writing allowed ops x y) (hc : c ∈ ops) (hremove : .removeFile tmp ∈ ops) :
    wp observed (Inv allowed) (orCleanup tmp context c)
      (fun r z => Writing allowed ops x z ∧
        ∀ u, r = .ok u → z.1.files = c.effect y.1.files) y := by
  refine wp_step h.inv fun r z hs => ?_
  obtain ⟨hw, hans⟩ := h.next hmay hc hs
  cases r with
  | ok u => exact wp_pure.mpr ⟨hw.inv, hw, fun _ _ => hans.2⟩
  | error e =>
    refine wp_step hw.inv fun r' v hs' => ?_
    obtain ⟨hw', -⟩ := hw.next hmay hremove hs'
    exact wp_fail.mpr ⟨hw'.inv, hw', nofun⟩

/-- Writing a secret performs its own operations only, and where it succeeds the
destination holds the encoded values, owned and protected as the spec says. -/
theorem writeSecret_spec (pid : Nat) (spec : SecretSpec) (ids : Ids) (vs : Values)
    (hI : Inv allowed x) (hmay : MayWrite allowed (writeOps pid spec ids vs) x.2) :
    wp observed (Inv allowed) (writeSecret pid spec ids vs)
      (fun r y => Writing allowed (writeOps pid spec ids vs) x y ∧
        ∀ u, r = .ok u → ∃ mode, parseMode spec.mode = some mode ∧
          y.1.files (locate spec.path) =
            some ⟨some (encodeEnvFile vs), ids.uid, ids.gid, mode⟩) x := by
  have start : ∀ ops, Writing allowed ops x x := fun ops =>
    ⟨hI, ⟨[], by simp, by simp⟩, fun _ _ => rfl⟩
  unfold writeSecret
  cases hdir : parent spec.path with
  | none => exact wp_fail.mpr ⟨hI, start _, nofun⟩
  | some dir =>
    have hcreate : .createDirAll dir ∈ writeOps pid spec ids vs := by simp [writeOps, hdir]
    refine wp_seq (withContext_spec _ hmay (start _) hcreate) ?_
    rintro (e | ⟨⟩) y0 hy0 ⟨hw, -⟩
    · exact ⟨hw, nofun⟩
    cases hmode : parseMode spec.mode with
    | none => exact wp_fail.mpr ⟨hy0, hw, nofun⟩
    | some mode =>
      have hops : writeOps pid spec ids vs = [.createDirAll dir,
          .removeFile (tempPath pid dir spec.path),
          .createNew (tempPath pid dir spec.path) 0o600,
          .writeAll (tempPath pid dir spec.path) (encodeEnvFile vs),
          .syncAll (tempPath pid dir spec.path),
          .chown (tempPath pid dir spec.path) ids.uid ids.gid,
          .setPermissions (tempPath pid dir spec.path) mode,
          .rename (tempPath pid dir spec.path) spec.path] := by
        simp only [writeOps, hdir, hmode]
      have hremove : .removeFile (tempPath pid dir spec.path) ∈ writeOps pid spec ids vs := by
        simp [hops]
      refine wp_step hy0 fun _ y1 hs => ?_
      replace hw := (hw.next hmay hremove hs).1
      refine wp_seq (withContext_spec _ hmay hw (by simp [hops])) ?_
      rintro (e | ⟨⟩) y2 - ⟨hw, h2⟩
      · exact ⟨hw, nofun⟩
      refine wp_seq (withContext_spec _ hmay hw (by simp [hops])) ?_
      rintro (e | ⟨⟩) y3 - ⟨hw, h3⟩
      · exact ⟨hw, nofun⟩
      refine wp_seq (withContext_spec _ hmay hw (by simp [hops])) ?_
      rintro (e | ⟨⟩) y4 - ⟨hw, h4⟩
      · exact ⟨hw, nofun⟩
      refine wp_seq (orCleanup_spec _ _ hmay hw (by simp [hops]) hremove) ?_
      rintro (e | ⟨⟩) y5 - ⟨hw, h5⟩
      · exact ⟨hw, nofun⟩
      refine wp_seq (orCleanup_spec _ _ hmay hw (by simp [hops]) hremove) ?_
      rintro (e | ⟨⟩) y6 - ⟨hw, h6⟩
      · exact ⟨hw, nofun⟩
      refine wp_seq (orCleanup_spec _ _ hmay hw (by simp [hops]) hremove) ?_
      rintro (e | ⟨⟩) y7 hy7 ⟨hw, h7⟩
      · exact ⟨hw, nofun⟩
      refine wp_perform hy7 fun _ y8 hs => ?_
      obtain ⟨hy8, hstill⟩ := silent_step (e := .syncDir dir) trivial hy7 hs
      obtain ⟨hsame : y8.1 = y7.1, -⟩ := hs
      obtain ⟨es, hlog, hes⟩ := hw.log
      refine ⟨hy8, ⟨hy8, ⟨es, hstill.log.trans hlog, hes⟩, fun l hl => ?_⟩, fun u _ => ⟨mode, rfl, ?_⟩⟩
      · rw [hsame, hw.frame l hl]
      · rw [hsame, h7 () rfl, h6 () rfl, h5 () rfl, h4 () rfl, h3 () rfl, h2 () rfl]
        simp [FileOp.effect, Files.set_same]

theorem contextOf_spec {α : Type} {p : Daemon α} (context : String)
    {Q : Except Stop α → World × List Event → Prop}
    (h : wp observed (Inv allowed) p (fun r y => match r with
      | .ok a => Q (.ok a) y
      | .error _ => ∀ e, Q (.error e) y) x) :
    wp observed (Inv allowed) (contextOf context p) Q x := by
  refine wp_seq (wp_attempt (Q := fun r y => match r with
    | .ok (.ok a) => Q (.ok a) y
    | .ok (.error _) => ∀ e, Q (.error e) y
    | .error _ => ∀ e, Q (.error e) y) (wp_mono h ?_)) ?_
  · rintro (e | a) y - hQ
    · exact hQ
    · exact hQ
  · rintro (_ | ((e | m) | a)) y hy hQ
    · exact hQ _
    · exact wp_fail.mpr ⟨hy, hQ _⟩
    · exact wp_fail.mpr ⟨hy, hQ _⟩
    · exact wp_pure.mpr ⟨hy, hQ⟩

end Writing

/-! ## One secret -/

/-- The secret's file holds a complete value list that was found valid. -/
def Settled (spec : SecretSpec) (x : World × List Event) : Prop :=
  ∃ e text vs, x.1.files (locate spec.path) = some e ∧ e.text = some text ∧
    classifyStored spec (some (parseEnvFile text)) = .complete vs ∧ JudgedValid spec vs x.2

omit [Externals] in
/-- Later events do not unsettle a secret as long as its file stays as it is. -/
theorem Settled.mono {spec : SecretSpec} {y : World × List Event} (h : Settled spec x)
    (hlog : x.2 ⊆ y.2) (hfile : y.1.files (locate spec.path) = x.1.files (locate spec.path)) :
    Settled spec y := by
  obtain ⟨e, text, vs, he, htext, hvs, hj⟩ := h
  exact ⟨e, text, vs, hfile.trans he, htext, hvs, hj.mono hlog⟩

/-- The secret is settled, unless its file is one of the daemon's own. -/
def SettledApart (spec : SecretSpec) (x : World × List Event) : Prop :=
  ¬ x.1.home.Has (locate spec.path) → Settled spec x

omit [Externals] in
theorem SettledApart.mono {spec : SecretSpec} {y : World × List Event} (h : SettledApart spec x)
    (hlog : x.2 ⊆ y.2) (hkept : Kept x.1 y.1) : SettledApart spec y := by
  intro hapart
  rw [hkept.home] at hapart
  exact (h hapart).mono hlog (hkept.files _ hapart)

/-- Asking until an answer is written: the write is for proven values only, and it settles
the secret. -/
theorem promptUntilAccepted_spec {pid : Nat} {spec : SecretSpec} (hs : spec.Checked) (ids : Ids)
    (known : EnvMap) (reason : String) (timeout retry : Nat) (hI : Inv allowed x)
    (hallow : ∀ before c, x.2 <+: before → WritesProven pid spec before c → allowed before c) :
    wp observed (Inv allowed) (promptUntilAccepted pid spec ids known reason timeout retry)
      (fun r y => x.2 <+: y.2 ∧ ∀ u, r = .ok u → SettledApart spec y) x := by
  refine wp_iterate (fun _ y => Inv allowed y ∧ x.2 <+: y.2) ⟨hI, List.prefix_rfl⟩ ?_
  rintro ⟨known, reason⟩ y ⟨hy, hpre⟩
  refine wp_seq (setSecret_spec _ _ _ hy) ?_
  rintro _ y1 hy1 ⟨⟨_, rfl⟩, hstill1⟩
  refine wp_seq (ask_spec spec reason known hy1) ?_
  rintro _ y2 hy2 ⟨vs, es, rfl, hlog2, hans, -⟩
  refine wp_seq (validateUntilDecided_spec hs.validator vs _ timeout retry hy2) ?_
  rintro _ y3 hy3 ⟨v, ev, rfl, hv, hlog3, hdec, -⟩
  have hlog : y3.2 = (y.2 ++ es) ++ ev := by rw [hlog3, hlog2, hstill1.log]
  have hpre3 : x.2 <+: y3.2 := by
    rw [hlog, List.append_assoc]
    exact hpre.trans (List.prefix_append _ _)
  dsimp only
  cases hstatus : v.status with
  | error => exact absurd hstatus hv
  | invalid =>
    refine wp_seq (state_spec _ _ hy3) ?_
    rintro _ y4 hy4 ⟨⟨_, rfl⟩, hstill4⟩
    exact wp_pure.mpr ⟨hy4, hy4, hstill4.log ▸ hpre3⟩
  | valid =>
    obtain ⟨before, id, r0, known0, dropped, l, rfl, hd, hacc⟩ := hans
    have hproven : Proven spec vs y3.2 := by
      refine ⟨_, ev, v, hlog, ⟨y.2 ++ before, id, r0, known0, dropped, l, ?_, hd, hacc⟩, hdec,
        hstatus⟩
      rw [List.append_assoc]
    have hmay : MayWrite allowed (writeOps pid spec ids vs) y3.2 := fun ops hops c hc =>
      hallow _ c (hpre3.trans (List.prefix_append _ _)) ⟨ids, vs, y3.2, ops, rfl, hproven, hops, hc⟩
    refine wp_seq (contextOf_spec _ (wp_mono (writeSecret_spec pid spec ids vs hy3 hmay) ?_))
      (R := fun r y => x.2 <+: y.2 ∧ ∀ u, r = .ok u → SettledApart spec y) ?_
    · rintro r y4 hy4 ⟨hw, hdone⟩
      obtain ⟨ops, hlog4, -⟩ := hw.log
      have hpre4 : x.2 <+: y4.2 := hlog4 ▸ hpre3.trans (List.prefix_append _ _)
      cases r with
      | error e => exact fun _ => ⟨hpre4, nofun⟩
      | ok u =>
        obtain ⟨mode, -, hfile⟩ := hdone u rfl
        refine ⟨hpre4, fun _ _ _ => ⟨_, _, vs, hfile, rfl, classify_encoded hs hacc, ?_⟩⟩
        refine (hdec.judgedValid hstatus).mono fun e he => ?_
        rw [hlog4, hlog]
        exact List.mem_append_left _ (List.mem_append_right _ he)
    · rintro (e | u) y4 hy4 ⟨hpre4, hset⟩
      · exact ⟨hpre4, nofun⟩
      refine wp_seq (setSecret_spec _ _ _ hy4) ?_
      rintro _ y5 hy5 ⟨⟨_, rfl⟩, hstill5⟩
      refine wp_seq (state_spec _ _ hy5) ?_
      rintro _ y6 hy6 ⟨⟨_, rfl⟩, hstill6⟩
      have hstill := hstill5.trans hstill6
      refine wp_pure.mpr ⟨hy6, hstill.log ▸ hpre4, fun _ _ => ?_⟩
      exact (hset u rfl).mono (fun e he => hstill.log.symm ▸ he) hstill.kept

theorem readToString_step {path : String} {r : Except IoError String} {y : World × List Event}
    (hI : Inv allowed x) (hs : observed.step (.readToString path) x r y) :
    Inv allowed y ∧ y.2 = x.2 ++ [.read path] ∧ y.1.files = x.1.files ∧ Reads x.1.files path r := by
  obtain ⟨w, h⟩ := x
  obtain ⟨w', h'⟩ := y
  obtain ⟨⟨hreads, hw⟩, hlog⟩ := hs
  obtain rfl : w' = w := hw
  obtain rfl : h' = h ++ [.read path] := hlog
  refine ⟨⟨chronicle_concat.mpr ⟨hI.sound, trivial⟩, fun p hp => hI.bound p ?_,
    fun p hp => List.mem_append_left _ (hI.current p hp)⟩, rfl, rfl, hreads⟩
  simpa using hp

/-- From what is stored to the satisfied state: either what is stored is found valid, or a
replacement is proven and written. -/
theorem satisfyStored_spec {pid : Nat} {spec : SecretSpec} (hs : spec.Checked) (ids : Ids)
    (timeout retry : Nat) {stored : Option EnvMap} (hI : Inv allowed x)
    (hallow : ∀ before c, x.2 <+: before → WritesProven pid spec before c → allowed before c)
    (hstored : ∀ m, stored = some m → ∃ e text, x.1.files (locate spec.path) = some e ∧
      e.text = some text ∧ m = parseEnvFile text) :
    wp observed (Inv allowed) (satisfyStored pid spec ids timeout retry stored)
      (fun r y => x.2 <+: y.2 ∧ ∀ u, r = .ok u → SettledApart spec y) x := by
  -- the headline, and then the prompt
  have prompt : ∀ {y phase message known reason}, Inv allowed y → x.2 <+: y.2 →
      wp observed (Inv allowed) (do
          Ui.state phase message
          promptUntilAccepted pid spec ids known reason timeout retry)
        (fun r z => x.2 <+: z.2 ∧ ∀ u, r = .ok u → SettledApart spec z) y := by
    intro y phase message known reason hy hpre
    refine wp_seq (state_spec _ _ hy) ?_
    rintro _ z hz ⟨⟨_, rfl⟩, hstill⟩
    have hpre' : x.2 <+: z.2 := hstill.log ▸ hpre
    refine wp_mono (promptUntilAccepted_spec hs ids known reason timeout retry hz
      fun before c hb => hallow before c (hpre'.trans hb)) ?_
    exact fun r v _ hv => ⟨hpre'.trans hv.1, hv.2⟩
  unfold satisfyStored
  cases hclass : classifyStored spec stored with
  | absent => exact prompt hI List.prefix_rfl
  | incomplete reason usable => exact prompt hI List.prefix_rfl
  | complete vs =>
    refine wp_seq (validateUntilDecided_spec hs.validator vs _ timeout retry hI) ?_
    rintro _ y hy ⟨v, ev, rfl, hv, hlog, hdec, hkept⟩
    have hpre : x.2 <+: y.2 := hlog ▸ List.prefix_append _ _
    dsimp only
    cases hstatus : v.status with
    | error => exact absurd hstatus hv
    | invalid => exact prompt hy hpre
    | valid =>
      refine wp_seq (setSecret_spec _ _ _ hy) ?_
      rintro _ y1 hy1 ⟨⟨_, rfl⟩, hstill1⟩
      refine wp_mono (state_spec _ _ hy1) ?_
      rintro r y2 hy2 ⟨-, hstill2⟩
      have hstill := hstill1.trans hstill2
      refine ⟨hstill.log ▸ hpre, fun _ _ hapart => ?_⟩
      have hsame := hkept.trans hstill.kept
      rw [hsame.home] at hapart
      cases stored with
      | none => cases hclass
      | some m =>
        obtain ⟨e, text, he, htext, rfl⟩ := hstored m rfl
        refine ⟨e, text, vs, (hsame.files _ hapart).trans he, htext, hclass, ?_⟩
        refine (hdec.judgedValid hstatus).mono fun e he => ?_
        rw [hstill.log, hlog]
        exact List.mem_append_right _ he

/-- Bringing a secret to the satisfied state reads its file first and leaves it settled. -/
theorem satisfy_spec {pid : Nat} {spec : SecretSpec} (hs : spec.Checked) (ids : Ids)
    (timeout retry : Nat) (hI : Inv allowed x)
    (hallow : ∀ before c, x.2 <+: before → WritesProven pid spec before c → allowed before c) :
    wp observed (Inv allowed) (satisfy pid spec ids timeout retry)
      (fun r y => x.2 ++ [.read spec.path] <+: y.2 ∧ ∀ u, r = .ok u → SettledApart spec y) x := by
  refine wp_seq (setSecret_spec _ _ _ hI) ?_
  rintro _ y1 hy1 ⟨⟨_, rfl⟩, hstill1⟩
  refine wp_seq (state_spec _ _ hy1) ?_
  rintro _ y2 hy2 ⟨⟨_, rfl⟩, hstill2⟩
  refine wp_step hy2 fun r y3 hread => ?_
  obtain ⟨hy3, hlog, hfiles, hreads⟩ := readToString_step hy2 hread
  have hlog3 : y3.2 = x.2 ++ [.read spec.path] := by rw [hlog, hstill2.log, hstill1.log]
  rw [← hlog3]
  have hallow3 : ∀ before c, y3.2 <+: before → WritesProven pid spec before c → allowed before c :=
    fun before c hb => hallow before c ((hlog3 ▸ List.prefix_append _ _).trans hb)
  cases r with
  | ok text =>
    refine satisfyStored_spec hs ids timeout retry hy3 hallow3 fun m hm => ?_
    obtain ⟨e, he, htext⟩ := hreads
    exact ⟨e, text, hfiles ▸ he, htext, (Option.some.inj hm).symm⟩
  | error e =>
    dsimp only
    split
    · exact satisfyStored_spec hs ids timeout retry hy3 hallow3 nofun
    · exact wp_fail.mpr ⟨hy3, List.prefix_rfl, nofun⟩

end Foundrix.OperatorSecrets

import Foundrix.OperatorSecrets.Conduct
import Foundrix.OperatorSecrets.Scripted

/-!
# Whole runs of operator-secretsd

What holds of a boot run and of an edit session from the start of the process on.

* `secrets_written_only_when_proven`: every file operation belongs to the write of a
  secret whose values are proven, and in an edit session of the secret that was chosen; these
  operations account for every file but the daemon's own.
* `secret_overwritten_unproven`: a secret in the place of the state file is lost to a message.
* `run_spec`: when a boot run ends well, every secret is stored and proven, provided no write
  touched the file of a secret that was settled before.
-/

namespace Foundrix.OperatorSecrets

open Effect Text

/-! ## What is said of the history -/

/-- The secret named by an edit message. -/
def Event.choice : Event → Option String
  | .received (.edit secret) => some secret
  | _ => none

/-- The first edit message taken names this secret. -/
def Chosen (es : List Event) (name : String) : Prop := es.findSome? Event.choice = some name

/-- A file operation of a run: it writes proven values of a declared secret, in an edit
session of the one chosen. -/
def AllowedWrite [Externals] (pid : Nat) (cli : Cli) (spec : Spec) (before : List Event)
    (c : FileOp) : Prop :=
  ∃ s ∈ spec.secrets, WritesProven pid s before c ∧
    (cli.edit = true → ∃ name, Chosen before name ∧
      spec.secrets.find? (fun s => s.name == name) = some s)

def Event.readPath : Event → Option String
  | .read path => some path
  | _ => none

/-- The stored files read so far, one for each secret that has had its turn in a boot run. -/
def reads (es : List Event) : List String := es.filterMap Event.readPath

/-- No file operation touches the file of a secret that had its turn before. -/
def Undisturbed (es : List Event) : Prop :=
  Chronicle (fun before e => ∀ c r, e = .file c r → ∀ path ∈ (reads before).dropLast,
    locate path ∉ c.touches) es

/-- The operation of an event. -/
def Event.fileOp : Event → Option FileOp
  | .file c _ => some c
  | _ => none

/-- The files become `fs'` from `fs` by the file operations of the history, one after the other,
and nothing else changes a file that is not exempt. -/
def Replayed (exempt : Location → Prop) : List Event → Files → Files → Prop
  | [], fs, fs' => ∀ l, ¬ exempt l → fs' l = fs l
  | .file c r :: es, fs, fs' => ∃ before after, (∀ l, ¬ exempt l → before l = fs l) ∧
      c.Answers before r after ∧ Replayed exempt es after fs'
  | _ :: es, fs, fs' => Replayed exempt es fs fs'

section Replayed

variable {exempt : Location → Prop} {es : List Event} {fs fs' fs'' : Files}

theorem replayed_cons {e : Event} (he : e.fileOp = none) :
    Replayed exempt (e :: es) fs fs' ↔ Replayed exempt es fs fs' := by
  cases e with
  | file => cases he
  | _ => rfl

/-- The files after the last event may differ where they are exempt. -/
theorem Replayed.trans (h : Replayed exempt es fs fs') (hsame : ∀ l, ¬ exempt l → fs'' l = fs' l) :
    Replayed exempt es fs fs'' := by
  induction es generalizing fs with
  | nil => exact fun l hl => (hsame l hl).trans (h l hl)
  | cons e es ih =>
    cases e with
    | file c r =>
      obtain ⟨before, after, hbefore, hans, hrest⟩ := h
      exact ⟨before, after, hbefore, hans, ih hrest⟩
    | _ => exact @ih fs h

theorem Replayed.file {c : FileOp} {r : Except IoError Unit} (h : Replayed exempt es fs fs')
    (hans : c.Answers fs' r fs'') : Replayed exempt (es ++ [.file c r]) fs fs'' := by
  induction es generalizing fs with
  | nil => exact ⟨fs', fs'', h, hans, fun _ _ => rfl⟩
  | cons e es ih =>
    cases e with
    | file c' r' =>
      obtain ⟨before, after, hbefore, hans', hrest⟩ := h
      exact ⟨before, after, hbefore, hans', ih hrest⟩
    | _ => exact @ih fs h

/-- An event that is no file operation. -/
theorem Replayed.other {e : Event} (h : Replayed exempt es fs fs') (he : e.fileOp = none) :
    Replayed exempt (es ++ [e]) fs fs' := by
  induction es generalizing fs with
  | nil => exact (replayed_cons he).mpr h
  | cons e' es ih =>
    cases e' with
    | file c r =>
      obtain ⟨before, after, hbefore, hans, hrest⟩ := h
      exact ⟨before, after, hbefore, hans, ih hrest⟩
    | _ => exact @ih fs h

theorem Replayed.mono {exempt' : Location → Prop} (h : Replayed exempt es fs fs')
    (hmore : ∀ l, exempt l → exempt' l) : Replayed exempt' es fs fs' := by
  induction es generalizing fs with
  | nil => exact fun l hl => h l fun he => hl (hmore l he)
  | cons e es ih =>
    cases e with
    | file c r =>
      obtain ⟨before, after, hbefore, hans, hrest⟩ := h
      exact ⟨before, after, fun l hl => hbefore l fun he => hl (hmore l he), hans, ih hrest⟩
    | _ => exact @ih fs h

theorem Replayed.frame (h : Replayed exempt es fs fs') {l : Location} (hl : ¬ exempt l)
    (hc : ∀ c r, .file c r ∈ es → l ∉ c.touches) : fs' l = fs l := by
  induction es generalizing fs with
  | nil => exact h l hl
  | cons e es ih =>
    have hrest : ∀ c r, .file c r ∈ es → l ∉ c.touches :=
      fun c r hm => hc c r (List.mem_cons_of_mem _ hm)
    cases e with
    | file c r =>
      obtain ⟨before, after, hbefore, hans, hafter⟩ := h
      calc fs' l = after l := ih hafter hrest
        _ = before l := hans.frame (hc c r List.mem_cons_self)
        _ = fs l := hbefore l hl
    | _ => exact @ih fs h hrest

end Replayed

theorem Chosen.append {es : List Event} {name : String} (h : Chosen es name) (es' : List Event) :
    Chosen (es ++ es') name := by
  unfold Chosen at *
  rw [List.findSome?_append, h]
  rfl

section

variable [Externals]

/-- Whatever the program, the files come from those at its start by the operations of the log,
but for the daemon's own. -/
theorem observed_replayed {α : Type} {p : Daemon α} {x y : World × List Event}
    {o : Option (Except Stop α)} (h : Run observed p x o y) :
    y.1.home = x.1.home ∧ ∃ es, y.2 = x.2 ++ es ∧
      Replayed x.1.home.Has es x.1.files y.1.files := by
  refine h.keeps (J := fun y => y.1.home = x.1.home ∧ ∃ es, y.2 = x.2 ++ es ∧
    Replayed x.1.home.Has es x.1.files y.1.files)
    (fun e y b z hy hs => ?_) ⟨rfl, [], by simp, fun _ _ => rfl⟩
  obtain ⟨hhome, es, hlog, hreplayed⟩ := hy
  obtain ⟨hans, hlog'⟩ := hs
  obtain ⟨hhome', hframe⟩ := answer_kept hans
  refine ⟨hhome'.trans hhome, es ++ (record e y.1 b).toList,
    by rw [hlog', hlog, List.append_assoc], ?_⟩
  rw [hhome] at hframe
  have others : e.touches = [] → (∀ ev, record e y.1 b = some ev → ev.fileOp = none) →
      Replayed x.1.home.Has (es ++ (record e y.1 b).toList) x.1.files z.1.files := by
    intro htouch hev
    have hz := hreplayed.trans fun l hl => hframe l hl (by simp [htouch])
    cases hrec : record e y.1 b with
    | none => simpa using hz
    | some ev => exact hz.other (hev ev hrec)
  cases e with
  | file c =>
    obtain ⟨fs, hans, hz⟩ := hans
    rw [hz]
    exact hreplayed.file hans
  | mutate f =>
    refine others rfl fun ev hev => ?_
    rw [record] at hev
    split at hev
    · cases hev
    · obtain ⟨p, -, rfl⟩ := Option.map_eq_some_iff.mp hev
      rfl
  | tryRecv =>
    refine others rfl fun ev hev => ?_
    obtain ⟨m, -, rfl⟩ := Option.map_eq_some_iff.mp hev
    rfl
  | runValidator | readToString =>
    refine others rfl fun ev hev => ?_
    cases hev
    rfl
  | _ =>
    refine others rfl fun ev hev => ?_
    cases hev

/-- A file stays as it is unless an operation of the log touches it. -/
theorem observed_frame {α : Type} {p : Daemon α} {x y : World × List Event}
    {o : Option (Except Stop α)} (h : Run observed p x o y) :
    y.1.home = x.1.home ∧ ∃ es, y.2 = x.2 ++ es ∧ ∀ l, ¬ x.1.home.Has l →
      (∀ c r, .file c r ∈ es → l ∉ c.touches) → y.1.files l = x.1.files l := by
  obtain ⟨hhome, es, hlog, hreplayed⟩ := observed_replayed h
  exact ⟨hhome, es, hlog, fun l hl hc => hreplayed.frame hl hc⟩

/-! ## All secrets of a boot run -/

variable {allowed : List Event → FileOp → Prop} {x : World × List Event}

/-- Every file operation comes after a secret's file was read. -/
def AfterRead (es : List Event) : Prop :=
  Chronicle (fun before e => ∀ c r, e = .file c r → reads before ≠ []) es

omit [Externals] in
theorem afterRead_of_read (path : String) (es : List Event) : AfterRead (.read path :: es) := by
  intro before e after h c r he
  subst he
  cases before with
  | nil => simp at h
  | cons a before =>
    rw [List.cons_append, List.cons.injEq] at h
    rw [← h.1]
    exact List.cons_ne_nil _ _

omit [Externals] in
/-- A file that was read before `y` is not touched after the next file is read. -/
theorem Undisturbed.keeps {es es' : List Event} (h : Undisturbed (es ++ es')) {path : String}
    (hpath : path ∈ reads es) (hread : AfterRead es') {c : FileOp} {r : Except IoError Unit}
    (hc : .file c r ∈ es') : locate path ∉ c.touches := by
  obtain ⟨before, after, rfl⟩ := List.append_of_mem hc
  refine h (es ++ before) _ after (by simp) c r rfl path ?_
  have hne := hread before _ after rfl c r rfl
  unfold reads at *
  rw [List.filterMap_append, List.dropLast_append_of_ne_nil hne]
  exact List.mem_append_left _ hpath

theorem satisfyAll_spec (pid timeout retry : Nat) (l : List (SecretSpec × Ids))
    (hl : ∀ s ∈ l, s.1.Checked) (hI : Inv allowed x)
    (hallow : ∀ s ∈ l, ∀ before c, WritesProven pid s.1 before c → allowed before c) :
    wp observed (Inv allowed) (satisfyAll pid timeout retry l)
      (fun r y => ∃ es, y.2 = x.2 ++ es ∧ AfterRead es ∧
        ∀ u, r = .ok u → Undisturbed y.2 → ∀ s ∈ l, SettledApart s.1 y) x := by
  induction l generalizing x with
  | nil =>
    refine wp_pure.mpr ⟨hI, [], by simp, ?_, by simp⟩
    intro before e after h
    simp at h
  | cons s l ih =>
    obtain ⟨s, ids⟩ := s
    refine wp_seq (satisfy_spec (hl _ List.mem_cons_self) ids timeout retry hI
      fun before c _ => hallow _ List.mem_cons_self before c) ?_
    rintro r y hy ⟨⟨es, hlog⟩, hset⟩
    have hlog' : y.2 = x.2 ++ .read s.path :: es := by rw [← hlog]; simp
    cases r with
    | error e => exact ⟨_, hlog', afterRead_of_read _ _, nofun⟩
    | ok u =>
      have rest := ih (fun s hs => hl s (List.mem_cons_of_mem _ hs)) hy
        fun s hs => hallow s (List.mem_cons_of_mem _ hs)
      refine wp_mono (wp_and_run rest fun r z => observed_frame) ?_
      rintro r z hz ⟨⟨es₂, hlog₂, hread₂, hset₂⟩, hhome, es₃, hlog₃, hframe⟩
      obtain rfl := List.append_cancel_left (hlog₂.symm.trans hlog₃)
      refine ⟨.read s.path :: (es ++ es₂), by rw [hlog₂, hlog']; simp, afterRead_of_read _ _,
        fun u hu hund s' hs' => ?_⟩
      rcases List.mem_cons.mp hs' with rfl | hs'
      · -- settled in its own turn, and not touched since
        intro hapart
        rw [hhome] at hapart
        refine (hset () rfl hapart).mono (hlog₂ ▸ List.subset_append_left _ _)
          (hframe _ hapart fun c r hc => ?_)
        rw [hlog₂] at hund
        refine hund.keeps ?_ hread₂ hc
        rw [hlog']
        simp [reads, Event.readPath]
      · exact hset₂ u hu hund s' hs'

/-! ## An edit session -/

/-- The operations before an edit session has its secret: nothing is taken from a client. -/
def Preparatory : {β : Type} → Op β → Prop
  | _, .readToString _ => True
  | _, .file c => c.touches = []
  | _, e => Silent e

/-- No message was taken yet. -/
def Unheard (es : List Event) : Prop := ∀ m, .received m ∉ es

theorem preparatory_step {β : Type} {e : Op β} {y : World × List Event} {b : β}
    (he : Preparatory e) (hI : Inv allowed x ∧ Unheard x.2) (hs : observed.step e x b y) :
    Inv allowed y ∧ Unheard y.2 := by
  obtain ⟨hI, hun⟩ := hI
  have silent : Silent e → Inv allowed y ∧ Unheard y.2 := fun h => by
    obtain ⟨hy, hstill⟩ := silent_step h hI hs
    exact ⟨hy, hstill.log ▸ hun⟩
  cases e with
  | readToString path =>
    obtain ⟨hy, hlog, -⟩ := readToString_step hI hs
    exact ⟨hy, fun m hm => by simp [hlog, hun m] at hm⟩
  | file c =>
    obtain ⟨hy, hlog, -⟩ := file_step hI (fun h => absurd he h) hs
    exact ⟨hy, fun m hm => by simp [hlog, hun m] at hm⟩
  | _ => exact silent he

theorem preparatory_spec {α : Type} {p : Daemon α} (hp : p.Only Preparatory)
    (hI : Inv allowed x) (hun : Unheard x.2) :
    wp observed (Inv allowed) p (fun _ y => Unheard y.2) x :=
  wp_mono (wp_always_mono (wp_only hp (fun _ _ _ _ he hI hs => preparatory_step he hI hs)
    ⟨hI, hun⟩) fun _ h => h.1) fun _ _ _ h => h.2

theorem setup_spec {α : Type} {p : Daemon α} (hp : p.Only Setup) (hI : Inv allowed x)
    (hun : Unheard x.2) : wp observed (Inv allowed) p (fun _ y => Unheard y.2) x := by
  refine preparatory_spec (hp.mono fun e he => ?_) hI hun
  cases e with
  | file c => exact he
  | readToString => trivial
  | mutate => exact he.elim
  | nextPromptId => exact he.elim
  | tryRecv => exact he.elim
  | runValidator => exact he.elim
  | _ => trivial

/-- The choice is the first edit message that comes. -/
theorem waitForChoice_spec (hI : Inv allowed x) (hun : Unheard x.2) :
    wp observed (Inv allowed) Ui.waitForChoice
      (fun r y => ∃ name, r = .ok name ∧ Chosen y.2 name) x := by
  have hnone : x.2.findSome? Event.choice = none := by
    rw [List.findSome?_eq_none_iff]
    rintro (_ | m | _ | _ | _) he
    · rfl
    · exact absurd he (hun m)
    all_goals rfl
  refine wp_iterate (fun _ y => Inv allowed y ∧ y.2.findSome? Event.choice = none)
    ⟨hI, hnone⟩ ?_
  rintro _ y ⟨hy, hno⟩
  refine wp_step hy fun m z hs => ?_
  obtain ⟨hz, -, hlog⟩ := tryRecv_step hy hs
  rcases m with _ | ⟨promptId, values⟩ | secret
  · refine wp_seq (silent_spec (e := .sleep 100) trivial hz) ?_
    rintro _ v hv ⟨⟨_, rfl⟩, hstill⟩
    refine wp_pure.mpr ⟨hv, hv, ?_⟩
    rw [hstill.log, hlog]
    simpa using hno
  · refine wp_pure.mpr ⟨hz, hz, ?_⟩
    rw [hlog, List.findSome?_append, hno]
    rfl
  · refine wp_pure.mpr ⟨hz, secret, rfl, ?_⟩
    unfold Chosen
    rw [hlog, List.findSome?_append, hno]
    rfl

omit [Externals] in
/-- The pair found beside its ids is the first secret of that name. -/
theorem find_zip {l : List SecretSpec} {ids : List Ids} {name : String} {s : SecretSpec} {i : Ids}
    (h : (l.zip ids).find? (fun x => x.1.name == name) = some (s, i)) :
    l.find? (fun s => s.name == name) = some s := by
  induction l generalizing ids with
  | nil => cases h
  | cons a l ih =>
    cases ids with
    | nil => cases h
    | cons j ids =>
      rw [List.zip_cons_cons, List.find?_cons] at h
      rw [List.find?_cons]
      cases ha : a.name == name with
      | true =>
        simp only [ha, Option.some.injEq, Prod.mk.injEq] at h
        rw [h.1]
      | false =>
        simp only [ha] at h
        exact ih h

omit [Externals] in
theorem publishStored_only (l : List SecretSpec) : (publishStored l).Only Preparatory := by
  induction l with
  | nil => trivial
  | cons s l ih =>
    refine Prog.only_bind (Prog.only_bind ⟨trivial, fun _ => trivial⟩ fun r => ?_) fun stored =>
      Prog.only_bind (Prog.only_perform fun _ => Or.inl rfl) fun _ => ih
    cases r <;> trivial

/-- An edit session writes the secret that was chosen, if there is one of that name. -/
theorem editSession_spec {pid : Nat} {spec : Spec} (hspec : ∀ s ∈ spec.secrets, s.Checked)
    (ids : List Ids) (timeout retry : Nat) (hI : Inv allowed x) (hun : Unheard x.2)
    (hallow : ∀ name s, spec.secrets.find? (fun s => s.name == name) = some s →
      ∀ before c, Chosen before name → WritesProven pid s before c → allowed before c) :
    wp observed (Inv allowed) (editSession pid spec ids timeout retry) (fun _ _ => True) x := by
  refine wp_seq (preparatory_spec (publishStored_only _) hI hun) ?_
  rintro (e | u) y1 hy1 hun1
  · trivial
  refine wp_seq (mutate_spec (fun _ => Or.inl rfl) hy1) ?_
  rintro _ y2 hy2 ⟨⟨_, rfl⟩, hstill2⟩
  refine wp_seq (state_spec _ _ hy2) ?_
  rintro _ y3 hy3 ⟨⟨_, rfl⟩, hstill3⟩
  refine wp_seq (waitForChoice_spec hy3 (hstill3.log ▸ hstill2.log ▸ hun1)) ?_
  rintro _ y4 hy4 ⟨name, rfl, hchosen⟩
  refine wp_seq (mutate_spec (fun _ => Or.inl rfl) hy4) ?_
  rintro _ y5 hy5 ⟨⟨_, rfl⟩, hstill5⟩
  rw [← hstill5.log] at hchosen
  dsimp only
  cases hfind : (spec.secrets.zip ids).find? fun x => x.1.name == name with
  | none => exact wp_fail.mpr ⟨hy5, trivial⟩
  | some secret =>
    obtain ⟨s, sids⟩ := secret
    have hs := find_zip hfind
    refine wp_seq (p := readStored s) (R := fun _ y => y5.2 <+: y.2) ?_ ?_
    · refine wp_step hy5 fun r y hread => ?_
      obtain ⟨hy, hlog, -⟩ := readToString_step hy5 hread
      have hpre : y5.2 <+: y.2 := hlog ▸ List.prefix_append _ _
      cases r <;> exact wp_pure.mpr ⟨hy, hpre⟩
    rintro (e | stored) y6 hy6 hpre
    · trivial
    refine wp_seq (state_spec _ _ hy6) ?_
    rintro _ y7 hy7 ⟨⟨_, rfl⟩, hstill7⟩
    have hchecked := hspec s (List.mem_of_find?_eq_some hs)
    refine wp_seq (promptUntilAccepted_spec hchecked sids _ _ timeout retry hy7
      fun before c hb => ?_) ?_
    · obtain ⟨es, rfl⟩ := (hstill7.log ▸ hpre).trans hb
      exact hallow name s hs _ c (hchosen.append es)
    rintro (e | u) y8 hy8 -
    · trivial
    refine wp_seq (mutate_spec (fun _ => Or.inr rfl) hy8) ?_
    rintro _ y9 hy9 ⟨⟨_, rfl⟩, -⟩
    exact wp_mono (state_spec _ _ hy9) fun _ _ _ _ => trivial

/-! ## The run -/

/-- Every secret gets its ids. -/
theorem resolveAll_spec (l : List SecretSpec) (hI : Inv allowed x) (hun : Unheard x.2) :
    wp observed (Inv allowed) (resolveAll l)
      (fun r y => Unheard y.2 ∧ ∀ ids, r = .ok ids → ids.length = l.length) x := by
  induction l generalizing x with
  | nil => exact wp_pure.mpr ⟨hI, hun, fun ids h => by cases h; rfl⟩
  | cons s l ih =>
    refine wp_seq (setup_spec (resolveIds_setup s) hI hun) ?_
    rintro (e | ids) y hy hun1
    · exact ⟨hun1, nofun⟩
    refine wp_seq (ih hy hun1) ?_
    rintro (e | more) z hz ⟨hun2, hlen⟩
    · exact ⟨hun2, nofun⟩
    refine wp_pure.mpr ⟨hz, hun2, fun all h => ?_⟩
    cases h
    rw [List.length_cons, List.length_cons, hlen more rfl]

/-- The part of a boot run after the socket is there. -/
theorem booting_spec {pid : Nat} {cli : Cli} {spec : Spec} {ids : List Ids}
    (hchecked : ∀ s ∈ spec.secrets, s.Checked) (hboot : ¬ cli.edit = true)
    (hlen : ids.length = spec.secrets.length) (hx : Inv (AllowedWrite pid cli spec) x)
    (timeout retry : Nat) :
    wp observed (Inv (AllowedWrite pid cli spec)) (do
      satisfyAll pid timeout retry (spec.secrets.zip ids)
      Ui.mutate finished
      Ui.state "done" "all operator-provided secrets satisfied; boot continuing"
      Prog.perform (.sleep 200)
      Prog.perform .removeSocket)
      (fun r y => ∀ u, r = .ok u → Undisturbed y.2 → ∀ s ∈ spec.secrets, SettledApart s y) x := by
  refine wp_seq (satisfyAll_spec pid _ _ (spec.secrets.zip ids) (fun s hs =>
    hchecked _ (List.of_mem_zip hs).1) hx fun s hs before c hw =>
      ⟨s.1, (List.of_mem_zip hs).1, hw, fun h => absurd h hboot⟩) ?_
  rintro (e | u) y1 hy1 ⟨-, -, -, hset⟩
  · exact nofun
  refine wp_seq (mutate_spec (fun _ => Or.inr rfl) hy1) ?_
  rintro _ y2 hy2 ⟨⟨_, rfl⟩, hstill2⟩
  refine wp_seq (state_spec _ _ hy2) ?_
  rintro _ y3 hy3 ⟨⟨_, rfl⟩, hstill3⟩
  refine wp_seq (silent_spec (e := .sleep 200) trivial hy3) ?_
  rintro _ y4 hy4 ⟨⟨_, rfl⟩, hstill4⟩
  refine wp_mono (silent_spec (e := .removeSocket) trivial hy4) ?_
  rintro r y5 hy5 ⟨-, hstill5⟩ u - hund s hs
  have hstill := ((hstill2.trans hstill3).trans hstill4).trans hstill5
  obtain ⟨i, hi, rfl⟩ := List.getElem_of_mem hs
  have hzip : (spec.secrets[i], ids[i]) ∈ spec.secrets.zip ids := by
    rw [← List.getElem_zip (h := by rw [List.length_zip]; omega)]
    exact List.getElem_mem _
  exact (hset () rfl (hstill.log ▸ hund) _ hzip).mono (fun e he => hstill.log.symm ▸ he)
    hstill.kept

/-- A run keeps the invariant, and a boot run that ends well has settled every secret, as
long as the writes left the files of the secrets before them alone. -/
theorem run_spec {pid : Nat} {cli : Cli} {text : String} {spec : Spec}
    (hspec : Spec.parse text = .ok spec) (files : Files) :
    wp observed (Inv (AllowedWrite pid cli spec)) (run pid cli)
      (fun r y => cli.edit = false → ∀ u, r = .ok u → Undisturbed y.2 →
        ∀ s ∈ spec.secrets, SettledApart s y) (World.initial cli.socket (.ok text) files, []) := by
  have hchecked := Spec.parse_checked hspec
  refine wp_step (inv_initial _ _ _) fun r y0 hs => ?_
  obtain ⟨hy0, hstill0⟩ := silent_step (e := .readSpec cli.spec) trivial (inv_initial _ _ _) hs
  obtain rfl := hs.1.1
  have hun0 : Unheard y0.2 := fun m hm => by rw [hstill0.log] at hm; cases hm
  simp only [World.initial, hspec]
  refine wp_seq (resolveAll_spec spec.secrets hy0 hun0) ?_
  rintro (e | ids) y1 hy1 ⟨hun1, hlen⟩
  · exact fun _ => nofun
  refine wp_seq (setup_spec (prepareSocketParent_setup _) hy1 hun1) ?_
  rintro (e | u) y2 hy2 hun2
  · exact fun _ => nofun
  refine wp_seq (setup_spec (Prog.only_perform trivial) hy2 hun2) ?_
  rintro (e | u) y3 hy3 hun3
  · exact fun _ => nofun
  refine wp_seq (setup_spec (withContext_setup _ trivial) hy3 hun3) ?_
  rintro (e | u) y4 hy4 hun4
  · exact fun _ => nofun
  refine wp_seq (setup_spec (withContext_setup _ trivial) hy4 hun4) ?_
  rintro (e | u) y5 hy5 hun5
  · exact fun _ => nofun
  refine wp_seq (preparatory_spec (Prog.only_perform fun _ => Or.inl rfl) hy5 hun5) ?_
  rintro (e | u) y6 hy6 hun6
  · exact fun _ => nofun
  dsimp only
  split
  · rename_i hedit
    have hnot : ¬ cli.edit = false := by simp [hedit]
    refine wp_seq (wp_attempt (Q := fun _ _ => True) (editSession_spec hchecked ids _ _ hy6 hun6
      fun name s hfind before c hchosen hw => ?_)) ?_
    · exact ⟨s, List.mem_of_find?_eq_some hfind, hw, fun _ => ⟨name, hchosen, hfind⟩⟩
    have closing : ∀ {y : World × List Event} {result : Except Stop Unit},
        Inv (AllowedWrite pid cli spec) y → wp observed (Inv (AllowedWrite pid cli spec)) (do
          Prog.perform (.sleep 200)
          Prog.perform .removeSocket
          Prog.orFail result) (fun r y => cli.edit = false → ∀ u, r = .ok u → Undisturbed y.2 →
            ∀ s ∈ spec.secrets, SettledApart s y) y := by
      intro y result hy
      refine wp_mono (silentOnly_spec (Prog.only_bind (Prog.only_perform trivial) fun _ =>
        Prog.only_bind (Prog.only_perform trivial) fun _ => ?_) hy) fun _ _ _ _ h => absurd h hnot
      cases result <;> trivial
    rintro (_ | ((e | m) | u)) y7 hy7 -
    · exact fun h => absurd h hnot
    · exact closing hy7
    · exact wp_fail.mpr ⟨hy7, fun h => absurd h hnot⟩
    · exact closing hy7
  · rename_i hedit
    exact wp_mono (booting_spec hchecked hedit (hlen ids rfl) hy6 _ _) fun _ _ _ h _ => h

/-- The process keeps the invariant. -/
theorem main_spec {pid : Nat} {cli : Cli} {text : String} {spec : Spec}
    (hspec : Spec.parse text = .ok spec) (files : Files) :
    wp observed (Inv (AllowedWrite pid cli spec)) (main pid cli) (fun _ _ => True)
      (World.initial cli.socket (.ok text) files, []) := by
  refine wp_seq (wp_attempt (Q := fun _ _ => True) (wp_mono (run_spec hspec files)
    fun _ _ _ _ => trivial)) ?_
  rintro (_ | ((e | m) | u)) y hy -
  · trivial
  · refine wp_mono (silentOnly_spec (Prog.only_bind (Prog.only_perform trivial) fun _ =>
      Prog.only_bind (Prog.only_perform trivial) fun _ => trivial) hy) fun _ _ _ _ => trivial
  · exact wp_fail.mpr ⟨hy, trivial⟩
  · exact wp_pure.mpr ⟨hy, trivial⟩

/-- The daemon's own files, as far as they are no secret's. -/
def OwnAlone (home : Home) (spec : Spec) (l : Location) : Prop :=
  home.Has l ∧ ∀ s ∈ spec.secrets, locate s.path ≠ l

/-- Whatever the files hold, the validators answer and the clients send, where no secret's path is
the state file or the control socket: every operation on a file comes from writing a declared
secret with proven values, in an edit session the one whose name was chosen, and these operations
alone make the files what they become, but for the daemon's own. In an edit session that was given
an undeclared name no other file changes. -/
theorem secrets_written_only_when_proven (pid : Nat) (cli : Cli) (text : String) (spec : Spec)
    (hspec : Spec.parse text = .ok spec)
    (hown : ∀ s ∈ spec.secrets, ¬ (homeOf cli.socket).Has (locate s.path)) (files : Files)
    (o : Option (Except Stop Nat)) (y : World × List Event)
    (h : Run observed (main pid cli) (World.initial cli.socket (.ok text) files, []) o y) :
    Chronicle (fun before e => ∀ c r, e = .file c r → c.touches ≠ [] →
      ∃ s ∈ spec.secrets, WritesProven pid s before c ∧
        (cli.edit = true → ∃ name, Chosen before name ∧
          spec.secrets.find? (fun s => s.name == name) = some s)) y.2 ∧
    Replayed (OwnAlone (homeOf cli.socket) spec) y.2 files y.1.files ∧
    ∀ name, cli.edit = true → Chosen y.2 name → (∀ s ∈ spec.secrets, s.name ≠ name) →
      ∀ l, ¬ OwnAlone (homeOf cli.socket) spec l → y.1.files l = files l := by
  obtain ⟨w, es⟩ := y
  have hinv : Inv (AllowedWrite pid cli spec) (w, es) := by
    cases o with
    | none => exact (main_spec hspec files).1 _ h
    | some r => exact (main_spec hspec files).1 _ h.toCut
  obtain ⟨-, es', hlog, hreplayed⟩ := observed_replayed h
  obtain rfl : es = es' := hlog
  have hsound : Chronicle (fun before e => ∀ c r, e = .file c r → c.touches ≠ [] →
      AllowedWrite pid cli spec before c) es := by
    refine hinv.sound.mono ?_
    rintro before e he c r rfl
    exact he
  have halone : Replayed (OwnAlone (homeOf cli.socket) spec) es files w.files :=
    hreplayed.mono fun l hl => ⟨hl, fun s hs heq => hown s hs (heq ▸ hl)⟩
  refine ⟨hsound, halone, fun name hedit hchosen hundeclared l hl => ?_⟩
  refine halone.frame hl fun c r hc htouch => ?_
  obtain ⟨before, after, rfl⟩ := List.append_of_mem hc
  obtain ⟨s, -, -, hs⟩ := hsound before _ after rfl c r rfl (List.ne_nil_of_mem htouch)
  obtain ⟨name', hchosen', hfind⟩ := hs hedit
  obtain rfl : name' = name := Option.some.inj ((hchosen'.append _).symm.trans hchosen)
  exact hundeclared s (List.mem_of_find?_eq_some hfind) (by simpa using List.find?_some hfind)

end

/-! ## A concrete run -/

def sampleCli : Cli where
  spec := "/etc/operator-secrets.json"
  socket := "/run/operator-secrets/control.sock"

/-- The first answer leaves a field out, the second comes for the old prompt. -/
def sampleScript : Script where
  messages := [.submit 1 [("CLIENT_ID", "abc")],
    .submit 1 [("CLIENT_ID", "abc"), ("CLIENT_SECRET", "old")],
    .submit 2 [("CLIENT_SECRET", "s3cret"), ("CLIENT_ID", "abc")]]
  validator _ _ := .answered "\x7b\"status\":\"valid\"\x7d\n" "" .success

/-- The boot run of the sample secret from an empty disk. -/
def sampleEnd : Option (Except Stop Nat) × (World × List Event) :=
  letI := samplePrograms sampleText ⟨1, [sampleSecret]⟩
  (main 7 sampleCli).exec (scripted sampleScript) 200
    (World.initial sampleCli.socket (.ok sampleText) fun _ => none, [])

/-- The sample run stores the secret, and what it did to files was to write proven values. -/
theorem secrets_written_only_when_proven_sample :
    letI := samplePrograms sampleText ⟨1, [sampleSecret]⟩
    sampleEnd.1 = some (.ok 0) ∧
    sampleEnd.2.1.files ["var", "credentials", "forgejo-oidc.env"] =
      some ⟨some "CLIENT_ID=abc\nCLIENT_SECRET=s3cret\n", 0, 0, 0o400⟩ ∧
    Chronicle (fun before e => ∀ c r, e = .file c r → c.touches ≠ [] →
      ∃ s ∈ [sampleSecret], WritesProven 7 s before c ∧
        (sampleCli.edit = true → ∃ name, Chosen before name ∧
          [sampleSecret].find? (fun s => s.name == name) = some s)) sampleEnd.2.2 ∧
    Replayed (OwnAlone (homeOf sampleCli.socket) ⟨1, [sampleSecret]⟩) sampleEnd.2.2 (fun _ => none)
      sampleEnd.2.1.files := by
  let _ := samplePrograms sampleText ⟨1, [sampleSecret]⟩
  have h : Run observed (main 7 sampleCli)
      (World.initial sampleCli.socket (.ok sampleText) fun _ => none, [])
      sampleEnd.1 sampleEnd.2 := scripted_run _ _ _ _
  have hend : sampleEnd.1 = some (.ok 0) := by decide +kernel
  have hfile : sampleEnd.2.1.files ["var", "credentials", "forgejo-oidc.env"] =
      some ⟨some "CLIENT_ID=abc\nCLIENT_SECRET=s3cret\n", 0, 0, 0o400⟩ := by decide +kernel
  generalize sampleEnd = e at *
  obtain ⟨hchronicle, hreplayed, -⟩ := secrets_written_only_when_proven 7 sampleCli sampleText
    ⟨1, [sampleSecret]⟩ sample_parse (by decide +kernel) _ e.1 e.2 h
  exact ⟨hend, hfile, hchronicle, hreplayed⟩

/-! ## A secret in the state file -/

def stateSecret : SecretSpec where
  name := "b"
  fields := [{ name := "B" }]
  path := "/run/operator-secrets/state"

def stateText : String := "\x7b\"version\":1,\"secrets\":[\x7b\"name\":\"b\",\"fields\":[" ++
  "\x7b\"name\":\"B\"\x7d],\"path\":\"/run/operator-secrets/state\"\x7d]\x7d"

/-- The secret is stored. -/
def stateFiles : Files :=
  fun l => if l = ["run", "operator-secrets", "state"] then some ⟨some "B=x\n", 0, 0, 0o400⟩
    else none

/-- The boot run in which the answer leaves the field out. -/
def stateEnd : Option (Except Stop Nat) × (World × List Event) :=
  letI := samplePrograms stateText ⟨1, [stateSecret]⟩
  (main 7 sampleCli).exec (scripted { messages := [.submit 1 []] }) 100
    (World.initial sampleCli.socket (.ok stateText) stateFiles, [])

theorem state_parse :
    @Spec.parse (samplePrograms stateText ⟨1, [stateSecret]⟩) stateText = .ok ⟨1, [stateSecret]⟩ := by
  unfold Spec.parse
  rw [samplePrograms_specFromStr]
  decide

/-- The rejection is now in the place of the secret. -/
theorem stateEnd_file : stateEnd.2.1.files ["run", "operator-secrets", "state"] =
    some ⟨some "b: submission rejected: B is missing\n", 0, 0, 0o400⟩ := by
  decide +kernel

/-- No file operation touched it. -/
theorem stateEnd_untouched : ∀ c ∈ stateEnd.2.2.filterMap Event.fileOp, c.touches = [] := by
  decide +kernel

theorem secret_overwritten_unproven :
    ¬ ∀ (_ : Externals) (pid : Nat) (cli : Cli) (text : String) (spec : Spec),
      Spec.parse text = .ok spec → ∀ (files : Files) (o : Option (Except Stop Nat))
        (y : World × List Event),
        Run observed (main pid cli) (World.initial cli.socket (.ok text) files, []) o y →
        Replayed (OwnAlone (homeOf cli.socket) spec) y.2 files y.1.files := by
  let _ := samplePrograms stateText ⟨1, [stateSecret]⟩
  intro h
  have hrun : Run observed (main 7 sampleCli)
      (World.initial sampleCli.socket (.ok stateText) stateFiles, []) stateEnd.1 stateEnd.2 :=
    scripted_run _ _ _ _
  have hfile := stateEnd_file
  have huntouched := stateEnd_untouched
  generalize stateEnd = e at hrun hfile huntouched
  have hreplayed := h _ 7 sampleCli stateText ⟨1, [stateSecret]⟩ state_parse stateFiles _ _ hrun
  have hsame : e.2.1.files ["run", "operator-secrets", "state"] =
      stateFiles ["run", "operator-secrets", "state"] := by
    refine hreplayed.frame ?_ fun c r hc => ?_
    · rintro ⟨-, halone⟩
      exact halone stateSecret List.mem_cons_self (by decide)
    · rw [huntouched c (List.mem_filterMap.mpr ⟨_, hc, rfl⟩)]
      exact List.not_mem_nil
  rw [hfile] at hsame
  exact absurd hsame (by decide)

end Foundrix.OperatorSecrets

import Foundrix.VarDisk.Interlock

/-!
# What each function of var-disk-managerd does

One lemma per function: started where the invariant holds, the function keeps it at every
step, and where it returns the history has grown as the lemma says.

* `ask_spec`, `askConfirm_spec`, `askNewPassphrase_spec`: prompts and their answers.
* `Prog.Only Quiet`: the functions that neither ask nor overwrite anything.
* `formatEncrypted_spec`: the format of a blank disk.
-/

namespace Foundrix.VarDisk

open Effect Text

variable {minLen : Nat} {x y : World × List Event}

/-! ## Prompts -/

/-- Taking a message is one event. -/
theorem tryRecv_step {m : Option ClientMsg} (hI : Inv minLen x) (hnone : NoneDestructive x.2)
    (hs : observed.step .tryRecv x m y) :
    Inv minLen y ∧ y.2 = x.2 ++ (m.map Event.received).toList := by
  obtain ⟨w, es⟩ := x
  obtain ⟨w', es'⟩ := y
  obtain ⟨rfl : w' = w, hlog : es' = es ++ (m.map Event.received).toList⟩ := hs
  refine ⟨?_, hlog⟩
  subst hlog
  cases m with
  | none =>
    simp only [Option.map_none, Option.toList_none, List.append_nil]
    exact hI
  | some m => exact hI.add hnone (fun _ => Event.noConfusion) fun _ => Event.noConfusion

theorem noneDestructive_received {es : List Event} (h : ∀ e ∈ es, ∃ m, e = .received m) :
    NoneDestructive es := by
  intro e he c hc
  obtain ⟨m, rfl⟩ := h e he
  cases hc

theorem Dropped.append {id : Nat} {es : List Event} (h : Dropped id es) {m : ClientMsg}
    (hm : ∀ v, m ≠ .submit id v) : Dropped id (es ++ [.received m]) := by
  intro e he
  rcases List.mem_append.mp he with he | he
  · exact h e he
  · exact ⟨m, List.mem_singleton.mp he, hm⟩

/-- Everything is dropped until the answer to the prompt `id` comes. -/
theorem waitForAnswer_spec (id : Nat) (hI : Inv minLen x) (hnone : NoneDestructive x.2) :
    wpOk observed (Inv minLen) (Ui.waitForAnswer id)
      (fun v y => ∃ dropped, Dropped id dropped ∧
        y.2 = x.2 ++ (dropped ++ [.received (.submit id v)])) x := by
  refine wpOk_iterate (fun _ y => Inv minLen y ∧ ∃ dropped, Dropped id dropped ∧
    y.2 = x.2 ++ dropped) ⟨hI, [], by simp [Dropped], by simp⟩ ?_
  rintro _ y ⟨hy, dropped, hd, hlog⟩
  have hnone' : NoneDestructive y.2 := hlog ▸ hnone.append
    (noneDestructive_received fun e he => (hd e he).imp fun _ h => h.1)
  refine wpOk_step hy fun m z hs => ?_
  obtain ⟨hz, hlog'⟩ := tryRecv_step hy hnone' hs
  rcases m with _ | ⟨promptId, value⟩
  · refine wpOk_step hz fun _ v hs => ?_
    obtain ⟨hv, hlog''⟩ := silent_step (by trivial) hz hs
    exact wpOk_pure hv ⟨hv, dropped, hd, by rw [hlog'', hlog', hlog]; simp⟩
  · dsimp only
    split
    · rename_i hid
      subst hid
      exact wpOk_pure hz ⟨dropped, hd, by rw [hlog', hlog]; simp⟩
    · rename_i hid
      exact wpOk_pure hz ⟨hz, dropped ++ [.received (.submit promptId value)],
        hd.append fun v h => hid (ClientMsg.submit.inj h).1, by rw [hlog', hlog]; simp⟩

/-- A new prompt id is above all ids used so far. -/
theorem nextPromptId_step {id : Nat} (hI : Inv minLen x) (hs : observed.step .nextPromptId x id y) :
    Inv minLen y ∧ y.2 = x.2 ∧ y.1.promptId = id ∧ ∀ q, .asked q ∈ y.2 → q.id < id := by
  obtain ⟨w, es⟩ := x
  obtain ⟨w', es'⟩ := y
  obtain ⟨⟨rfl, rfl⟩, hlog⟩ := hs
  obtain rfl : es' = es := by simpa [record] using hlog
  exact ⟨⟨hI.sound, fun p hp => Nat.le_succ_of_le (hI.bound p hp), hI.current, hI.disks⟩, rfl, rfl,
    fun q hq => Nat.lt_succ_of_le (hI.bound q hq)⟩

/-- Putting up a prompt with a new id is one event. -/
theorem asked_step {p : Prompt} {u : Unit} (hI : Inv minLen x) (hid : x.1.promptId = p.id)
    (hnew : ∀ q, .asked q ∈ x.2 → q.id < p.id) (hnone : NoneDestructive x.2)
    (hs : observed.step (.mutate fun s => { s with prompt := some p }) x u y) :
    Inv minLen y ∧ y.2 = x.2 ++ [.asked p] := by
  obtain ⟨w, es⟩ := x
  obtain ⟨w', es'⟩ := y
  obtain ⟨rfl, hlog⟩ := hs
  have hne : ¬ some p = w.snapshot.prompt :=
    fun he => absurd (hnew p (hI.current p he.symm)) (lt_irrefl _)
  obtain rfl : es' = es ++ [.asked p] := by simpa [record, recordMutate, hne] using hlog
  refine ⟨⟨chronicle_concat.mpr ⟨hI.sound, hnone⟩, fun q hq => ?_, fun q hq => ?_, ?_⟩, rfl⟩
  · rcases List.mem_append.mp hq with hq | hq
    · exact hI.bound q hq
    · obtain rfl : q = p := by simpa using hq
      exact hid.ge
  · obtain rfl : p = q := by simpa using hq
    exact List.mem_append_right _ (List.mem_singleton_self _)
  · exact hI.disks.trans (disksListed_append (by simp)).symm

/-- A prompt and its answer: nothing else is seen. -/
theorem ask_spec (kind : PromptKind) (text : String) (hI : Inv minLen x)
    (hnone : NoneDestructive x.2) :
    wpOk observed (Inv minLen) (Ui.ask kind text) (fun v y => ∃ p exchange,
      Exchange p v exchange ∧ p.kind = kind ∧ y.2 = x.2 ++ exchange ∧
      ∀ q, .asked q ∈ x.2 → q.id < p.id) x := by
  refine wpOk_step hI fun id y hs => ?_
  obtain ⟨hy, hlog, hid, hnew⟩ := nextPromptId_step hI hs
  refine wpOk_step hy fun _ z hs => ?_
  obtain ⟨hz, hlog'⟩ := asked_step (p := { id, kind, text }) hy hid hnew (hlog ▸ hnone) hs
  have hz_none : NoneDestructive z.2 := by
    rw [hlog', hlog]
    exact hnone.append (by simp [NoneDestructive, Event.command])
  refine wpOk_seq (waitForAnswer_spec id hz hz_none) fun v u hu ⟨dropped, hd, hlog''⟩ => ?_
  refine wpOk_step hu fun _ t hs => ?_
  obtain ⟨ht, hsame⟩ := silent_step (e := .mutate fun s => { s with prompt := none })
    (fun _ => ⟨Or.inr rfl, rfl⟩) hu hs
  refine wpOk_pure ht ⟨{ id, kind, text }, _, ⟨dropped, rfl, hd⟩, rfl, ?_, hlog ▸ hnew⟩
  rw [hsame, hlog'', hlog', hlog, List.append_assoc]
  rfl

/-- Nothing refused, nothing overwritten and nothing listed between two states. -/
structure Calm (x y : World × List Event) : Prop where
  planned : planned y.2 = planned x.2
  noneDestructive : NoneDestructive x.2 → NoneDestructive y.2
  unrefused : Unrefused x.2 → Unrefused y.2

theorem Calm.refl (x : World × List Event) : Calm x x := ⟨rfl, id, id⟩

theorem Calm.trans {z : World × List Event} (h : Calm x y) (h' : Calm y z) : Calm x z :=
  ⟨h'.planned.trans h.planned, h'.noneDestructive ∘ h.noneDestructive, h'.unrefused ∘ h.unrefused⟩

theorem Calm.of_eq (h : y.2 = x.2) : Calm x y := by
  refine ⟨by rw [h], fun h' => h ▸ h', fun h' => h ▸ h'⟩

theorem Follows.calm (h : Follows x y) : Calm x y :=
  ⟨h.planned, h.noneDestructive, h.unrefused⟩

/-- The events of an exchange. -/
theorem exchange_cases {p : Prompt} {v : String} {ex : List Event} (h : Exchange p v ex)
    {e : Event} (he : e ∈ ex) : e = .asked p ∨ ∃ m, e = .received m := by
  obtain ⟨dropped, rfl, hd⟩ := h
  rcases List.mem_cons.mp he with rfl | he
  · exact Or.inl rfl
  rcases List.mem_append.mp he with he | he
  · exact Or.inr ((hd e he).imp fun _ h => h.1)
  · exact Or.inr ⟨_, List.mem_singleton.mp he⟩

/-- An exchange refuses nothing, unless it answers a `Confirm` with no. -/
theorem Exchange.calm {p : Prompt} {v : String} {ex : List Event} (hex : Exchange p v ex)
    (hy : y.2 = x.2 ++ ex) (hp : p.kind = .confirm → parseConfirm v ≠ some false) : Calm x y := by
  refine ⟨?_, fun h => hy ▸ h.append (noneDestructive_exchange hex), fun h => ?_⟩
  · rw [hy]
    refine planned_append fun infos hm => ?_
    rcases exchange_cases hex hm with he | ⟨m, he⟩ <;> cases he
  · rw [hy]
    refine ⟨fun out hm => ?_, fun a ha => ?_⟩
    · rcases List.mem_append.mp hm with hm | hm
      · exact h.probes out hm
      · rcases exchange_cases hex hm with he | ⟨m, he⟩ <;> cases he
    · rw [answers_exchange hex] at ha
      rcases List.mem_append.mp ha with ha | ha
      · exact h.answers a ha
      · obtain rfl := List.mem_singleton.mp ha
        exact hp

theorem state_silent (phase message : String) : (Ui.state phase message).Only Silent :=
  Prog.only_bind (Prog.only_perform trivial) fun _ =>
    Prog.only_perform fun _ => ⟨Or.inl rfl, rfl⟩

/-- A `Confirm` prompt is put up until an answer is a yes or a no. -/
theorem askConfirm_spec (text : String) (hI : Inv minLen x) (hnone : NoneDestructive x.2) :
    wpOk observed (Inv minLen) (Ui.askConfirm text) (fun yes y => ∃ between exchange p v,
      y.2 = x.2 ++ (between ++ exchange) ∧ Exchange p v exchange ∧ p.kind = .confirm ∧
      parseConfirm v = some yes ∧ NoneDestructive y.2 ∧ (yes = true → Calm x y)) x := by
  refine wpOk_iterate (fun _ y => Inv minLen y ∧ Calm x y ∧ ∃ between, y.2 = x.2 ++ between)
    ⟨hI, .refl x, [], by simp⟩ ?_
  rintro _ y ⟨hy, hcalm, between, hlog⟩
  refine wpOk_seq (ask_spec .confirm text hy (hcalm.noneDestructive hnone))
    fun v z hz ⟨p, ex, hex, hkind, hlog', _⟩ => ?_
  have hnone' : NoneDestructive z.2 :=
    hlog' ▸ (hcalm.noneDestructive hnone).append (noneDestructive_exchange hex)
  have hlog'' : z.2 = x.2 ++ (between ++ ex) := by rw [hlog', hlog, List.append_assoc]
  cases hparse : parseConfirm v with
  | some yes =>
    refine wpOk_pure hz ⟨between, ex, p, v, hlog'', hex, hkind, hparse, hnone', ?_⟩
    rintro rfl
    exact hcalm.trans (hex.calm hlog' fun _ => by simp [hparse])
  | none =>
    refine wpOk_seq (silent_spec (state_silent _ _) hz) fun _ u hu hsame => ?_
    have hcalm' : Calm y u := hex.calm (hsame.trans hlog') fun _ => by simp [hparse]
    exact wpOk_pure hu ⟨hu, hcalm.trans hcalm', between ++ ex, hsame.trans hlog''⟩

/-- A new passphrase has been entered twice, under two ids. -/
theorem askNewPassphrase_spec {cfg : Cfg} (hI : Inv cfg.minPassphraseLen x)
    (hnone : NoneDestructive x.2) :
    wpOk observed (Inv cfg.minPassphraseLen) (askNewPassphrase cfg) (fun pw y =>
      Calm x y ∧ TwiceEntered cfg.minPassphraseLen pw y.2) x := by
  refine wpOk_iterate (fun _ y => Inv cfg.minPassphraseLen y ∧ Calm x y) ⟨hI, .refl x⟩ ?_
  rintro _ y ⟨hy, hcalm⟩
  refine wpOk_seq (ask_spec _ _ hy (hcalm.noneDestructive hnone))
    fun a z hz ⟨p, first, hfirst, hpk, hlog, _⟩ => ?_
  have hcalm₁ : Calm x z := hcalm.trans (hfirst.calm hlog fun h => by simp [hpk] at h)
  split
  · refine wpOk_seq (silent_spec (state_silent _ _) hz) fun _ v hv hsame => ?_
    exact wpOk_pure hv ⟨hv, hcalm₁.trans (.of_eq hsame)⟩
  · rename_i hlen
    refine wpOk_seq (ask_spec _ _ hz (hcalm₁.noneDestructive hnone))
      fun b u hu ⟨q, second, hsecond, hqk, hlog', hnew⟩ => ?_
    have hcalm₂ : Calm x u := hcalm₁.trans (hsecond.calm hlog' fun h => by simp [hqk] at h)
    split
    · rename_i hab
      subst hab
      have hasked : .asked p ∈ z.2 := by
        obtain ⟨dropped, rfl, -⟩ := hfirst
        simp [hlog]
      refine wpOk_pure hu ⟨hcalm₂, y.2, first, second, [], p, q, ?_, hfirst, hsecond, hpk, hqk,
        (hnew p hasked).ne, Nat.le_of_not_lt hlen⟩
      rw [hlog', hlog]
      simp
    · refine wpOk_seq (silent_spec (state_silent _ _) hu) fun _ v hv hsame => ?_
      exact wpOk_pure hv ⟨hv, hcalm₂.trans (.of_eq hsame)⟩

/-! ## The probe of the mapper -/

theorem mapperFs_empty {r : Except String Output} (h : mapperFs r = .empty) :
    ∃ out, r = .ok out ∧ out.status.code = some 2 := by
  cases r with
  | error e => simp [mapperFs, mapperFsFromBlkid] at h
  | ok out =>
    by_cases hcode : out.status.code = some 2
    · exact ⟨out, rfl, hcode⟩
    · simp only [mapperFs, mapperFsFromBlkid, if_neg hcode] at h
      split_ifs at h

theorem mapperFs_btrfs {r : Except String Output} (h : mapperFs r = .btrfs) :
    ∃ out, r = .ok out ∧ out.status.code = some 0 ∧ trim out.stdout = "btrfs" := by
  cases r with
  | error e => simp [mapperFs, mapperFsFromBlkid] at h
  | ok out =>
    refine ⟨out, rfl, ?_⟩
    simp only [mapperFs, mapperFsFromBlkid] at h
    split_ifs at h with hcode hbtrfs
    exact ⟨hcode, hbtrfs⟩

/-! ## Programs of quiet operations -/

section Only

variable {P : {β : Type} → Op β → Prop} {α : Type}

theorem inContext_only (context : String) (r : Except String α) : (inContext context r).Only P := by
  cases r <;> trivial

theorem question_only (r : Except String α) : (question r).Only P := by
  cases r <;> trivial

theorem runOk_only (cfg : Cfg) {c : Cmd} (hc : P (.output c)) : (runOk cfg c).Only P := by
  refine Prog.only_bind (Prog.only_perform hc) fun r => ?_
  refine Prog.only_bind (inContext_only _ r) fun out => ?_
  split <;> trivial

theorem runWithStdin_only (cfg : Cfg) {c : Cmd} {secret : String} (hc : P (.feed c secret)) :
    (runWithStdin cfg c secret).Only P := by
  refine Prog.only_bind (Prog.only_perform hc) fun r => ?_
  cases fedResult cfg c r <;> trivial

theorem probeValue_only {c : Cmd} (hc : P (.output c)) : (probeValue c).Only P := by
  refine Prog.only_bind (Prog.only_perform hc) fun r => ?_
  exact Prog.only_bind (inContext_only _ r) fun _ => trivial

theorem settle_only (hs : P (.output .settle)) : settle.Only P :=
  Prog.only_bind (Prog.only_perform hs) fun _ => trivial

theorem awaitDevice_only {d : Device} (hd : P (.exists d)) (hs : P (.sleep 500)) (n : Nat) :
    (awaitDevice d n).Only P := by
  induction n with
  | zero => trivial
  | succ n ih =>
    refine Prog.only_bind (Prog.only_perform hd) fun present => ?_
    split
    · trivial
    · exact Prog.only_bind (Prog.only_perform hs) fun _ => ih

end Only

/-- Operations that look at something or show something. -/
def Looking : {β : Type} → Op β → Prop
  | _, .output c => c.Inert ∧ c ≠ .blkid .type .mapper
  | _, .feed _ _ | _, .spawn _ | _, .wait _ => False
  | _, e => Quiet e

theorem Looking.quiet {β : Type} (e : Op β) (he : Looking e) : Quiet e := by
  cases e with
  | output c => exact ⟨he.1.notDestructive, he.2⟩
  | feed => exact he.elim
  | spawn => exact he.elim
  | wait => exact he.elim
  | _ => exact he

theorem state_looking (phase message : String) : (Ui.state phase message).Only Looking :=
  Prog.only_bind (Prog.only_perform trivial) fun _ =>
    Prog.only_perform fun _ => ⟨Or.inl rfl, rfl⟩

theorem state_quiet (phase message : String) : (Ui.state phase message).Only Quiet :=
  (state_looking phase message).mono Looking.quiet

theorem runOk_quiet (cfg : Cfg) {c : Cmd} (hd : ¬ c.Destructive) (hp : c ≠ .blkid .type .mapper) :
    (runOk cfg c).Only Quiet :=
  runOk_only cfg ⟨hd, hp⟩

theorem settle_looking : settle.Only Looking := settle_only ⟨trivial, nofun⟩

theorem settle_quiet : settle.Only Quiet := settle_looking.mono Looking.quiet

theorem blockForever_looking (reason : String) : (Ui.blockForever reason).Only Looking := by
  refine Prog.only_bind (state_looking _ _) fun _ => ?_
  refine Prog.only_bind (Prog.only_perform fun _ => ⟨Or.inl rfl, rfl⟩) fun _ => ?_
  refine Prog.only_iterate fun _ => ?_
  refine Prog.only_bind (Prog.only_perform trivial) fun _ => ?_
  exact Prog.only_bind (Prog.only_perform fun _ => ⟨Or.inl rfl, rfl⟩) fun _ => trivial

theorem blockForever_quiet (reason : String) : (Ui.blockForever reason).Only Quiet :=
  (blockForever_looking reason).mono Looking.quiet

theorem createVarSubvol_quiet (cfg : Cfg) : (createVarSubvol cfg).Only Quiet := by
  refine Prog.only_bind (Prog.only_perform trivial) fun r => ?_
  refine Prog.only_bind (question_only r) fun _ => ?_
  refine Prog.only_bind (runOk_quiet cfg id nofun) fun _ => ?_
  refine Prog.only_bind (runOk_quiet cfg id nofun) fun _ => ?_
  exact Prog.only_bind (runOk_quiet cfg id nofun) fun _ => trivial

theorem blockdevBytes_looking (cfg : Cfg) (d : Device) : (blockdevBytes cfg d).Only Looking :=
  Prog.only_bind (runOk_only cfg ⟨trivial, nofun⟩) fun _ => question_only _

theorem blockdevBytes_quiet (cfg : Cfg) (d : Device) : (blockdevBytes cfg d).Only Quiet :=
  (blockdevBytes_looking cfg d).mono Looking.quiet

theorem maybeGrowPartition_quiet (cfg : Cfg) (luksId : String) :
    (maybeGrowPartition cfg luksId).Only Quiet := by
  refine Prog.only_bind (blockdevBytes_quiet cfg _) fun diskBytes => ?_
  refine Prog.only_bind (blockdevBytes_quiet cfg _) fun partBytes => ?_
  split
  · trivial
  · refine Prog.only_bind (state_quiet _ _) fun _ => ?_
    refine Prog.only_bind (runOk_quiet cfg id nofun) fun _ => ?_
    refine Prog.only_bind (runOk_quiet cfg id nofun) fun _ => ?_
    exact Prog.only_bind settle_quiet fun _ => trivial

theorem needsResize_looking (cfg : Cfg) (luksId : String) (grew : Bool) :
    (needsResize cfg luksId grew).Only Looking := by
  unfold needsResize
  split
  · trivial
  · refine Prog.only_bind (blockdevBytes_looking cfg _) fun partBytes => ?_
    exact Prog.only_bind (blockdevBytes_looking cfg _) fun mapperBytes => trivial

theorem needsResize_quiet (cfg : Cfg) (luksId : String) (grew : Bool) :
    (needsResize cfg luksId grew).Only Quiet :=
  (needsResize_looking cfg luksId grew).mono Looking.quiet

theorem subvolExists_looking (dir : Dir) (s : Subvol) : (subvolExists dir s).Only Looking := by
  refine Prog.only_bind (Prog.only_perform ⟨trivial, nofun⟩) fun r => ?_
  cases r <;> trivial

theorem subvolExists_quiet (dir : Dir) (s : Subvol) : (subvolExists dir s).Only Quiet :=
  (subvolExists_looking dir s).mono Looking.quiet

theorem ensureLabel_quiet (cfg : Cfg) (legacyId : String) : (ensureLabel cfg legacyId).Only Quiet := by
  refine Prog.only_bind (probeValue_only ⟨id, nofun⟩) fun label => ?_
  dsimp only
  split
  · refine Prog.only_bind (state_quiet _ _) fun _ => ?_
    refine Prog.only_bind (runOk_quiet cfg id nofun) fun _ => ?_
    exact Prog.only_bind (Prog.only_perform ⟨id, nofun⟩) fun _ => state_quiet _ _
  · exact state_quiet _ _

theorem pump_quiet (total : Nat) : (pump total).Only Quiet := by
  refine Prog.only_iterate fun copied => ?_
  refine Prog.only_bind (Prog.only_perform trivial) fun r => ?_
  refine Prog.only_bind (inContext_only _ r) fun n => ?_
  split
  · trivial
  · refine Prog.only_bind (Prog.only_perform trivial) fun r => ?_
    refine Prog.only_bind (inContext_only _ r) fun _ => ?_
    refine Prog.only_bind (Prog.only_perform trivial) fun due => ?_
    split
    · exact Prog.only_bind (Prog.only_perform fun _ => ⟨Or.inl rfl, rfl⟩) fun _ => trivial
    · trivial

theorem reapCopy_quiet (total : Nat) (r : Except Error Unit) : (reapCopy total r).Only Quiet := by
  refine Prog.only_bind (Prog.only_perform trivial) fun s => ?_
  refine Prog.only_bind (inContext_only _ s) fun sendStatus => ?_
  refine Prog.only_bind (Prog.only_perform trivial) fun s => ?_
  refine Prog.only_bind (inContext_only _ s) fun recvStatus => ?_
  refine Prog.only_bind (Prog.only_perform trivial) fun _ => ?_
  refine Prog.only_bind (Prog.only_perform trivial) fun _ => ?_
  cases r with
  | error e => trivial
  | ok u =>
    dsimp only
    split
    · trivial
    · split
      · trivial
      · exact Prog.only_perform fun _ => ⟨Or.inl rfl, rfl⟩

theorem copyWithProgress_quiet (total : Nat) : (copyWithProgress total).Only Quiet := by
  refine Prog.only_bind (Prog.only_perform trivial) fun r => ?_
  refine Prog.only_bind (inContext_only _ r) fun _ => ?_
  refine Prog.only_bind (Prog.only_perform trivial) fun r => ?_
  refine Prog.only_bind (inContext_only _ r) fun _ => ?_
  refine Prog.only_bind (Prog.only_attempt (pump_quiet total)) fun pumpResult => ?_
  refine Prog.only_bind (Prog.only_perform trivial) fun _ => ?_
  dsimp only
  split
  · refine Prog.only_bind (Prog.only_perform trivial) fun _ => ?_
    exact Prog.only_bind (Prog.only_perform trivial) fun _ => reapCopy_quiet total _
  · exact reapCopy_quiet total _

theorem umountOld_quiet (cfg : Cfg) : (runOk cfg (.umount .old)).attempt.Only Quiet :=
  Prog.only_attempt (runOk_quiet cfg id nofun)

theorem admitSize_quiet (cfg : Cfg) (used target : Nat) :
    (admitSize cfg used target).Only Quiet := by
  by_cases hsmall : target < addU64 used sizeHeadroom
  · simp only [admitSize, if_pos hsmall]
    refine Prog.only_bind (umountOld_quiet cfg) fun _ => ?_
    exact Prog.only_bind (blockForever_quiet _) nofun
  · simp only [admitSize, if_neg hsmall]
    trivial

theorem admitTarget_quiet (cfg : Cfg) (blankId usage : String) :
    (admitTarget cfg blankId usage).Only Quiet := by
  unfold admitTarget
  cases parseBtrfsUsed usage with
  | none =>
    refine Prog.only_bind (umountOld_quiet cfg) fun _ => ?_
    exact Prog.only_bind (blockForever_quiet _) nofun
  | some used =>
    refine Prog.only_bind (runOk_quiet cfg id nofun) fun sizeOut => ?_
    refine Prog.only_bind (inContext_only _ _) fun target => ?_
    exact admitSize_quiet cfg used target

theorem inspectSource_quiet (cfg : Cfg) (legacyId blankId : String) :
    (inspectSource cfg legacyId blankId).Only Quiet := by
  have admitted : ((runOk cfg (.usage .old)).bind (admitTarget cfg blankId)).Only Quiet :=
    Prog.only_bind (runOk_quiet cfg id nofun) fun usage => admitTarget_quiet cfg blankId usage
  refine Prog.only_bind (Prog.only_perform trivial) fun r => ?_
  refine Prog.only_bind (question_only r) fun _ => ?_
  refine Prog.only_bind (Prog.only_perform trivial) fun r => ?_
  refine Prog.only_bind (question_only r) fun _ => ?_
  refine Prog.only_bind (state_quiet _ _) fun _ => ?_
  refine Prog.only_bind (runOk_quiet cfg id nofun) fun _ => ?_
  refine Prog.only_bind (subvolExists_quiet _ _) fun torn => ?_
  dsimp only
  split
  · refine Prog.only_bind (runOk_quiet cfg id nofun) fun _ => ?_
    exact Prog.only_bind (runOk_quiet cfg id nofun) fun _ => admitted
  · exact admitted

theorem copyVar_quiet (cfg : Cfg) (used : Nat) : (copyVar cfg used).Only Quiet := by
  refine Prog.only_bind (state_quiet _ _) fun _ => ?_
  refine Prog.only_bind (runOk_quiet cfg id nofun) fun _ => ?_
  refine Prog.only_bind (runOk_quiet cfg id nofun) fun _ => ?_
  refine Prog.only_bind (runOk_quiet cfg id nofun) fun _ => ?_
  refine Prog.only_bind (copyWithProgress_quiet used) fun _ => ?_
  refine Prog.only_bind (runOk_quiet cfg id nofun) fun _ => ?_
  exact Prog.only_bind (runOk_quiet cfg id nofun) fun _ => trivial

theorem cleanUp_quiet (cfg : Cfg) : (cleanUp cfg).Only Quiet := by
  refine Prog.only_bind (state_quiet _ _) fun _ => ?_
  refine Prog.only_bind (runOk_quiet cfg id nofun) fun _ => ?_
  refine Prog.only_bind (runOk_quiet cfg id nofun) fun _ => ?_
  refine Prog.only_bind (runOk_quiet cfg id nofun) fun _ => ?_
  refine Prog.only_bind (runOk_quiet cfg id nofun) fun _ => ?_
  refine Prog.only_bind (runOk_quiet cfg id nofun) fun _ => ?_
  exact Prog.only_perform fun _ => ⟨Or.inl rfl, rfl⟩

/-! ## Before the disks are touched -/

theorem requireTools_looking (tools : List String) : (requireTools tools).Only Looking := by
  induction tools with
  | nil => trivial
  | cons tool tools ih =>
    refine Prog.only_bind (Prog.only_perform trivial) fun found => ?_
    split
    · exact ih
    · trivial

theorem listVolumes_looking (cfg : Cfg) : (listVolumes cfg).Only Looking :=
  Prog.only_bind (Prog.only_perform trivial) fun _ => trivial

theorem awaitVolumes_looking (cfg : Cfg) (n stable prev : Nat) :
    (awaitVolumes cfg n stable prev).Only Looking := by
  induction n generalizing stable prev with
  | zero => trivial
  | succ n ih =>
    refine Prog.only_bind (listVolumes_looking cfg) fun vols => ?_
    dsimp only
    split
    · split
      · trivial
      · exact Prog.only_bind (Prog.only_perform trivial) fun _ => ih _ _
    · exact Prog.only_bind (Prog.only_perform trivial) fun _ => ih _ _

theorem probeIf_looking (present : Bool) {c : Cmd} (hc : c.Inert)
    (hp : c ≠ .blkid .type .mapper) : (probeIf present c).Only Looking := by
  unfold probeIf
  split
  · exact probeValue_only ⟨hc, hp⟩
  · trivial

theorem probe_looking (id : String) : (probe id).Only Looking := by
  refine Prog.only_bind (Prog.only_perform trivial) fun present => ?_
  refine Prog.only_bind (probeIf_looking _ nofun nofun) fun _ => ?_
  refine Prog.only_bind (probeIf_looking _ trivial nofun) fun _ => ?_
  refine Prog.only_bind (probeValue_only ⟨nofun, nofun⟩) fun _ => ?_
  exact Prog.only_bind (probeValue_only ⟨nofun, nofun⟩) fun _ => trivial

theorem classifyAll_looking (cfg : Cfg) (ids : List String) : (classifyAll cfg ids).Only Looking := by
  induction ids with
  | nil => trivial
  | cons id ids ih =>
    refine Prog.only_bind (probe_looking id) fun p => ?_
    dsimp only
    split
    · refine Prog.only_bind (state_looking _ _) fun _ => ?_
      exact Prog.only_bind ih fun _ => trivial
    · exact Prog.only_bind ih fun _ => trivial

theorem survey_looking (cfg : Cfg) : (survey cfg).Only Looking := by
  refine Prog.only_bind (requireTools_looking _) fun _ => ?_
  refine Prog.only_bind (Prog.only_perform trivial) fun r => ?_
  refine Prog.only_bind (question_only r) fun _ => ?_
  refine Prog.only_bind (Prog.only_perform trivial) fun _ => ?_
  refine Prog.only_bind (Prog.only_perform trivial) fun r => ?_
  refine Prog.only_bind (inContext_only _ r) fun _ => ?_
  refine Prog.only_bind (state_looking _ _) fun _ => ?_
  refine Prog.only_bind settle_looking fun _ => ?_
  refine Prog.only_bind (awaitVolumes_looking cfg 90 0 0) fun _ => ?_
  refine Prog.only_bind (state_looking _ _) fun _ => ?_
  exact Prog.only_bind (listVolumes_looking cfg) fun vols => classifyAll_looking cfg vols

/-! ## Destructive commands -/

/-- A new passphrase stands for the blank disk of the plan. -/
structure Armed (minLen : Nat) (blank pw : String) (es : List Event) : Prop where
  planned : (planned es).blankDisk = some blank
  entered : TwiceEntered minLen pw es
  unrefused : Unrefused es

/-- A command other than the probe of the mapper, added to a history. -/
theorem Unrefused.command {es : List Event} (h : Unrefused es) {e : Event}
    (he : ∃ c, e.command = some c ∧ c ≠ .blkid .type .mapper) : Unrefused (es ++ [e]) := by
  obtain ⟨c, hc, hne⟩ := he
  refine ⟨fun out hm => ?_, fun a ha => ?_⟩
  · rcases List.mem_append.mp hm with hm | hm
    · exact h.probes out hm
    · obtain rfl := List.mem_singleton.mp hm
      exact (hne (Option.some.inj hc).symm).elim
  · have hsame : VarDisk.answers (es ++ [e]) = VarDisk.answers es := by
      unfold VarDisk.answers
      rw [List.foldl_append]
      cases e with
      | ran => rfl
      | fed => rfl
      | _ => cases hc
    exact h.answers a (hsame ▸ ha)

theorem planned_command (es : List Event) {e : Event} {c : Cmd} (he : e.command = some c) :
    planned (es ++ [e]) = planned es := by
  refine planned_append fun infos hm => ?_
  obtain rfl := List.mem_singleton.mp hm
  cases he

theorem Armed.command {blank pw : String} {es : List Event} (h : Armed minLen blank pw es)
    {e : Event} {c : Cmd} (hc : e.command = some c) (hne : c ≠ .blkid .type .mapper) :
    Armed minLen blank pw (es ++ [e]) :=
  ⟨(planned_command es hc).symm ▸ h.planned, h.entered.append _, h.unrefused.command ⟨c, hc, hne⟩⟩

theorem Armed.follows {blank pw : String} (hxy : Follows x y) (h : Armed minLen blank pw x.2) :
    Armed minLen blank pw y.2 :=
  ⟨hxy.planned.symm ▸ h.planned, hxy.twiceEntered h.entered, hxy.unrefused h.unrefused⟩

/-- The operations of `formatEncrypted`: quiet ones, and the three destructive commands on
what belongs to the blank disk. -/
def Formats (blank pw : String) : {β : Type} → Op β → Prop
  | _, .output c => (¬ c.Destructive ∧ c ≠ .blkid .type .mapper) ∨
      c = .sgdiskZap (.disk blank) ∨ c = .mkfs .mapper
  | _, .feed c secret => (¬ c.Destructive ∧ c ≠ .blkid .type .mapper) ∨
      c = .luksFormat (.part1 blank) ∧ secret = pw
  | _, e => Quiet e

theorem Quiet.formats {β : Type} {e : Op β} (he : Quiet e) (blank pw : String) :
    Formats blank pw e := by
  cases e with
  | output c => exact Or.inl he
  | feed c secret => exact Or.inl he
  | _ => exact he

theorem formats_step {blank pw : String} {β : Type} {e : Op β} {b : β} (he : Formats blank pw e)
    (hI : Inv minLen x) (ha : Armed minLen blank pw x.2) (hs : observed.step e x b y) :
    Inv minLen y ∧ Armed minLen blank pw y.2 := by
  have quiet : Quiet e → Inv minLen y ∧ Armed minLen blank pw y.2 := fun he =>
    have h := quiet_step he hI hs
    ⟨h.1, ha.follows h.2⟩
  -- the event of a command that may be run
  have added : ∀ (e : Event) (c : Cmd), e.command = some c → c ≠ .blkid .type .mapper →
      Sound minLen x.2 e → y = (x.1, x.2 ++ [e]) → Inv minLen y ∧ Armed minLen blank pw y.2 := by
    intro e c hc hne hsound hy
    subst hy
    refine ⟨hI.add hsound ?_ ?_, ha.command hc hne⟩
    · rintro p rfl
      cases hc
    · rintro infos rfl
      cases hc
  cases e with
  | output c =>
    rcases he with he | hzap | hmkfs
    · exact quiet he
    · have hlock : Interlocked minLen x.2 none c :=
        hzap ▸ ⟨blank, pw, ha.planned, rfl, ha.entered⟩
      refine added (.ran c b) c rfl (by simp [hzap]) ?_ (Prod.ext hs.1 hs.2)
      exact ⟨by simp [hzap], fun _ => ⟨hlock, ha.unrefused⟩⟩
    · have hlock : Interlocked minLen x.2 none c :=
        hmkfs ▸ ⟨rfl, Or.inl ⟨blank, pw, ha.planned, ha.entered⟩⟩
      refine added (.ran c b) c rfl (by simp [hmkfs]) ?_ (Prod.ext hs.1 hs.2)
      exact ⟨by simp [hmkfs], fun _ => ⟨hlock, ha.unrefused⟩⟩
  | feed c secret =>
    rcases he with he | ⟨hformat, hsecret⟩
    · exact quiet he
    · have hlock : Interlocked minLen x.2 (some secret) c :=
        hformat ▸ ⟨blank, pw, ha.planned, rfl, hsecret ▸ rfl, ha.entered⟩
      refine added (.fed c secret b) c rfl (by simp [hformat]) ?_ (Prod.ext hs.1 hs.2)
      exact fun _ => ⟨hlock, ha.unrefused⟩
  | _ => exact quiet he

theorem formatEncrypted_formats (cfg : Cfg) (blank pw : String) :
    (formatEncrypted cfg blank pw).Only (Formats blank pw) := by
  have state : ∀ phase message, (Ui.state phase message).Only (Formats blank pw) :=
    fun phase message => (state_quiet phase message).mono fun e he => he.formats blank pw
  have settled : settle.Only (Formats blank pw) := settle_quiet.mono fun e he => he.formats blank pw
  refine Prog.only_bind (state _ _) fun _ => ?_
  refine Prog.only_bind (runOk_only cfg (Or.inr (Or.inl rfl))) fun _ => ?_
  refine Prog.only_bind (runOk_only cfg (Or.inl ⟨id, nofun⟩)) fun _ => ?_
  refine Prog.only_bind settled fun _ => ?_
  refine Prog.only_bind (awaitDevice_only trivial trivial 60) fun _ => ?_
  refine Prog.only_bind (Prog.only_perform trivial) fun present => ?_
  split
  · trivial
  · refine Prog.only_bind (state _ _) fun _ => ?_
    refine Prog.only_bind (runWithStdin_only cfg (Or.inr ⟨rfl, rfl⟩)) fun _ => ?_
    refine Prog.only_bind (runWithStdin_only cfg (Or.inl ⟨id, nofun⟩)) fun _ => ?_
    refine Prog.only_bind (state _ _) fun _ => ?_
    refine Prog.only_bind (runOk_only cfg (Or.inr (Or.inr rfl))) fun _ => ?_
    exact Prog.only_bind settled fun _ => trivial

/-- The format of the blank disk of the plan, with the passphrase that was entered twice. -/
theorem formatEncrypted_spec {cfg : Cfg} {blank pw : String} (hI : Inv minLen x)
    (ha : Armed minLen blank pw x.2) :
    wpOk observed (Inv minLen) (formatEncrypted cfg blank pw) (fun _ _ => True) x := by
  refine wp_mono (wp_always_mono (wp_only
    (J := fun y => Inv minLen y ∧ Armed minLen blank pw y.2) (formatEncrypted_formats cfg blank pw)
    (fun e y b z he hy hs => formats_step he hy.1 hy.2 hs) ⟨hI, ha⟩) fun _ h => h.1) ?_
  exact fun _ _ _ _ _ _ => trivial

end Foundrix.VarDisk

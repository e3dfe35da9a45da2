import Foundrix.Effect.Prog

/-!
# Weakest preconditions for effect programs

`wp H I p Q w` says two things of every run of `p` from `w`: wherever it is cut, the
always-condition `I` holds, and where it ends with a result `r`, `Q r` holds. There is one
rule per constructor of `Prog`; `wp_loop` asks for an invariant of the loop state. A program is
`Stable` where all its runs keep a property.
-/

namespace Foundrix.Effect

variable {E : Type → Type} {ε α β σ : Type} {W : Type*} {H : Handler E W} {I : W → Prop}

/-- Every run of `p` from `w` stays within `I` and ends within `Q`. -/
def wp (H : Handler E W) (I : W → Prop) (p : Prog E ε α) (Q : Except ε α → W → Prop)
    (w : W) : Prop :=
  (∀ w', Run H p w none w' → I w') ∧ ∀ r w', Run H p w (some r) w' → Q r w'

theorem wp_pure {a : α} {Q : Except ε α → W → Prop} {w : W} :
    wp H I (.pure a) Q w ↔ I w ∧ Q (.ok a) w := by
  constructor
  · rintro ⟨hI, hQ⟩
    exact ⟨hI w (.cut _ _), hQ _ w (.pure a w)⟩
  · rintro ⟨hI, hQ⟩
    refine ⟨fun w' h => ?_, fun r w' h => ?_⟩
    · obtain ⟨rfl, -⟩ := run_pure.mp h
      exact hI
    · obtain ⟨rfl, h | h⟩ := run_pure.mp h <;> cases h
      exact hQ

theorem wp_fail {e : ε} {Q : Except ε α → W → Prop} {w : W} :
    wp H I (.fail e) Q w ↔ I w ∧ Q (.error e) w := by
  constructor
  · rintro ⟨hI, hQ⟩
    exact ⟨hI w (.cut _ _), hQ _ w (.fail e w)⟩
  · rintro ⟨hI, hQ⟩
    refine ⟨fun w' h => ?_, fun r w' h => ?_⟩
    · obtain ⟨rfl, -⟩ := run_fail.mp h
      exact hI
    · obtain ⟨rfl, h | h⟩ := run_fail.mp h <;> cases h
      exact hQ

theorem wp_op {e : E β} {k : β → Prog E ε α} {Q : Except ε α → W → Prop} {w : W} :
    wp H I (.op e k) Q w ↔ I w ∧ ∀ b w', H.step e w b w' → wp H I (k b) Q w' := by
  constructor
  · rintro ⟨hI, hQ⟩
    exact ⟨hI w (.cut _ _), fun b w' step =>
      ⟨fun w'' h => hI w'' (.op step h), fun r w'' h => hQ r w'' (.op step h)⟩⟩
  · rintro ⟨hI, hk⟩
    refine ⟨fun w' h => ?_, fun r w' h => ?_⟩
    · rcases run_op.mp h with ⟨-, rfl⟩ | ⟨b, w1, step, h⟩
      · exact hI
      · exact (hk b w1 step).1 w' h
    · rcases run_op.mp h with ⟨h, -⟩ | ⟨b, w1, step, h⟩
      · cases h
      · exact (hk b w1 step).2 r w' h

theorem wp_mono {p : Prog E ε α} {Q Q' : Except ε α → W → Prop} {w : W} (h : wp H I p Q w)
    (hQ : ∀ r w', I w' → Q r w' → Q' r w') : wp H I p Q' w :=
  ⟨h.1, fun r w' run => hQ r w' (h.1 w' run.toCut) (h.2 r w' run)⟩

theorem wp_always_mono {I' : W → Prop} {p : Prog E ε α} {Q : Except ε α → W → Prop} {w : W}
    (h : wp H I p Q w) (hI : ∀ w', I w' → I' w') : wp H I' p Q w :=
  ⟨fun w' run => hI w' (h.1 w' run), h.2⟩

/-- Where `wp` holds, the always-condition holds already at the start. -/
theorem wp_start {p : Prog E ε α} {Q : Except ε α → W → Prop} {w : W} (h : wp H I p Q w) : I w :=
  h.1 w (.cut _ _)

theorem wp_bind {p : Prog E ε α} {f : α → Prog E ε β} {Q : Except ε β → W → Prop} {w : W}
    (h : wp H I p (fun r w' => match r with
      | .ok a => wp H I (f a) Q w'
      | .error e => Q (.error e) w') w) : wp H I (p.bind f) Q w := by
  refine ⟨fun w' run => ?_, fun r w' run => ?_⟩
  · rcases run_bind.mp run with ⟨-, hp⟩ | ⟨e, he, -⟩ | ⟨a, w1, hp, hf⟩
    · exact h.1 w' hp
    · cases he
    · exact (h.2 _ w1 hp).1 w' hf
  · rcases run_bind.mp run with ⟨he, -⟩ | ⟨e, he, hp⟩ | ⟨a, w1, hp, hf⟩
    · cases he
    · cases he
      exact h.2 _ w' hp
    · exact (h.2 _ w1 hp).2 r w' hf

/-- A sequence, by a condition `R` on how its first part ends. -/
theorem wp_seq {p : Prog E ε α} {f : α → Prog E ε β} {Q : Except ε β → W → Prop}
    {R : Except ε α → W → Prop} {w : W} (hp : wp H I p R w)
    (hf : ∀ r w', I w' → R r w' → match r with
      | .ok a => wp H I (f a) Q w'
      | .error e => Q (.error e) w') : wp H I (p.bind f) Q w :=
  wp_bind (wp_mono hp hf)

/-- A loop is proved by an invariant `J` of its state that every turn keeps. -/
theorem wp_loop {body : σ → Prog E ε (σ ⊕ β)} {s : σ} {k : β → Prog E ε α}
    {Q : Except ε α → W → Prop} {w : W} (J : σ → W → Prop) (h0 : J s w)
    (turn : ∀ s w, J s w → wp H I (body s) (fun r w' => match r with
      | .ok (.inl s') => J s' w'
      | .ok (.inr b) => wp H I (k b) Q w'
      | .error e => Q (.error e) w') w) : wp H I (.loop body s k) Q w := by
  have key : ∀ {o w'}, Run H (Prog.loop body s k) w o w' →
      (o = none → I w') ∧ ∀ r, o = some r → Q r w' := by
    intro o w' h
    refine run_loop_induct (motive := fun s w o w' =>
      J s w → (o = none → I w') ∧ ∀ r, o = some r → Q r w') ?_ ?_ ?_ ?_ ?_ h h0
    · intro s w hJ
      exact ⟨fun _ => wp_start (turn s w hJ), nofun⟩
    · intro s w w' h hJ
      exact ⟨fun _ => (turn s w hJ).1 w' h, nofun⟩
    · intro s w e w' h hJ
      exact ⟨nofun, fun r hr => by cases hr; exact (turn s w hJ).2 _ w' h⟩
    · intro s w s' w1 o w' h ih hJ
      exact ih ((turn s w hJ).2 _ w1 h)
    · intro s w b w1 o w' h rest hJ
      have hk := (turn s w hJ).2 _ w1 h
      exact ⟨fun ho => hk.1 _ (ho ▸ rest), fun r hr => hk.2 r _ (hr ▸ rest)⟩
  exact ⟨fun w' run => (key run).1 rfl, fun r w' run => (key run).2 r rfl⟩

theorem wp_iterate {body : σ → Prog E ε (σ ⊕ α)} {s : σ} {Q : Except ε α → W → Prop} {w : W}
    (J : σ → W → Prop) (h0 : J s w)
    (turn : ∀ s w, J s w → wp H I (body s) (fun r w' => match r with
      | .ok (.inl s') => J s' w'
      | .ok (.inr a) => Q (.ok a) w'
      | .error e => Q (.error e) w') w) : wp H I (Prog.iterate body s) Q w := by
  refine wp_loop J h0 fun s w hJ => wp_mono (turn s w hJ) ?_
  rintro (e | s' | a) w' hI h
  · exact h
  · exact h
  · exact wp_pure.mpr ⟨hI, h⟩

/-- A program run for its result ends normally with what it would have ended with. -/
theorem wp_attempt {p : Prog E ε α} {Q : Except ε (Except ε α) → W → Prop} {w : W}
    (h : wp H I p (fun r w' => Q (.ok r) w') w) : wp H I p.attempt Q w := by
  refine ⟨fun w' run => ?_, fun r w' run => ?_⟩
  · rcases run_attempt run with ⟨-, hp⟩ | ⟨r, he, -⟩
    · exact h.1 w' hp
    · cases he
  · rcases run_attempt run with ⟨he, -⟩ | ⟨r, he, hp⟩ <;> cases he
    exact h.2 r w' hp

theorem wp_perform {e : E α} {Q : Except ε α → W → Prop} {w : W} (hI : I w)
    (h : ∀ a w', H.step e w a w' → I w' ∧ Q (.ok a) w') : wp H I (Prog.perform e) Q w :=
  wp_op.mpr ⟨hI, fun a w' step => wp_pure.mpr (h a w' step)⟩

/-- An operation and what follows its answer. -/
theorem wp_step {e : E α} {f : α → Prog E ε β} {Q : Except ε β → W → Prop} {w : W} (hI : I w)
    (h : ∀ a w', H.step e w a w' → wp H I (f a) Q w') :
    wp H I ((Prog.perform e).bind f) Q w :=
  wp_op.mpr ⟨hI, h⟩

/-- Where the operations of a program all keep `J`, so do its runs. -/
theorem wp_only {P : {β : Type} → E β → Prop} {J : W → Prop} {p : Prog E ε α} {w : W}
    (hp : p.Only P) (step : ∀ {β : Type} (e : E β) w b w', P e → J w → H.step e w b w' → J w')
    (hJ : J w) : wp H J p (fun _ w' => J w') w :=
  ⟨fun _ run => run.keepsOnly step hp hJ, fun _ _ run => run.keepsOnly step hp hJ⟩

/-- What every run of the program shows may be added to its postcondition. -/
theorem wp_and_run {p : Prog E ε α} {Q R : Except ε α → W → Prop} {w : W} (h : wp H I p Q w)
    (hR : ∀ r w', Run H p w (some r) w' → R r w') : wp H I p (fun r w' => Q r w' ∧ R r w') w :=
  ⟨h.1, fun r w' run => ⟨h.2 r w' run, hR r w' run⟩⟩

/-- Two descriptions of the same runs hold together. -/
theorem wp_conj {I' : W → Prop} {p : Prog E ε α} {Q Q' : Except ε α → W → Prop} {w : W}
    (h : wp H I p Q w) (h' : wp H I' p Q' w) :
    wp H (fun w' => I w' ∧ I' w') p (fun r w' => Q r w' ∧ Q' r w') w :=
  ⟨fun w' run => ⟨h.1 w' run, h'.1 w' run⟩, fun r w' run => ⟨h.2 r w' run, h'.2 r w' run⟩⟩

/-- What holds of the runs under a handler holds of them beside a second state. -/
theorem wp_beside {Γ : Type*} {T : {β : Type} → E β → Γ → β → Γ → Prop} {p : Prog E ε α}
    {Q : Except ε α → W → Prop} {w : W × Γ} (h : wp H I p Q w.1) :
    wp (H.beside T) (fun w' => I w'.1) p (fun r w' => Q r w'.1) w :=
  ⟨fun _ run => h.1 _ run.ofBeside, fun _ _ run => h.2 _ _ run.ofBeside⟩

/-- What holds of the runs under a handler holds of them where it gives only some of its answers. -/
theorem wp_restrict {P : {β : Type} → E β → β → Prop} {p : Prog E ε α}
    {Q : Except ε α → W → Prop} {w : W} (h : wp H I p Q w) : wp (H.restrict P) I p Q w := by
  have hstep : ∀ {β : Type} (e : E β) (w : W) (b : β) (w' : W),
      (H.restrict P).step e w b w' → H.step e w b w' := fun _ _ _ _ hs => hs.1
  exact ⟨fun _ run => h.1 _ (run.map (f := id) hstep),
    fun _ _ run => h.2 _ _ (run.map (f := id) hstep)⟩

theorem wp_orFail {r : Except ε α} {Q : Except ε α → W → Prop} {w : W} (hI : I w) (h : Q r w) :
    wp H I (Prog.orFail r) Q w := by
  cases r with
  | ok a => exact wp_pure.mpr ⟨hI, h⟩
  | error e => exact wp_fail.mpr ⟨hI, h⟩

/-! ## Programs that keep a property -/

/-- The property holds wherever a run of the program gets that starts where it holds. -/
def Stable (H : Handler E W) (I : W → Prop) (p : Prog E ε α) : Prop :=
  ∀ w, I w → wp H I p (fun _ w' => I w') w

theorem stable_pure (a : α) : Stable H I (.pure a : Prog E ε α) :=
  fun _ hI => wp_pure.mpr ⟨hI, hI⟩

theorem stable_fail (e : ε) : Stable H I (.fail e : Prog E ε α) :=
  fun _ hI => wp_fail.mpr ⟨hI, hI⟩

theorem Stable.bind {p : Prog E ε α} {f : α → Prog E ε β} (hp : Stable H I p)
    (hf : ∀ a, Stable H I (f a)) : Stable H I (p.bind f) := by
  intro w hI
  refine wp_seq (hp w hI) fun r w' hw' _ => ?_
  cases r with
  | ok a => exact hf a w' hw'
  | error e => exact hw'

theorem Stable.attempt {p : Prog E ε α} (hp : Stable H I p) : Stable H I p.attempt :=
  fun w hI => wp_attempt (hp w hI)

theorem stable_iterate {body : σ → Prog E ε (σ ⊕ α)} {s : σ} (h : ∀ s, Stable H I (body s)) :
    Stable H I (Prog.iterate body s) := by
  intro w hI
  refine wp_iterate (fun _ => I) hI fun s w hw => wp_mono (h s w hw) ?_
  rintro (e | s' | a) w' - hw' <;> exact hw'

theorem stable_only {P : {β : Type} → E β → Prop} {p : Prog E ε α} (hp : p.Only P)
    (step : ∀ {β : Type} (e : E β) w b w', P e → I w → H.step e w b w' → I w') :
    Stable H I p :=
  fun _ hI => wp_only hp step hI

theorem Stable.run {p : Prog E ε α} (hp : Stable H I p) {w w' : W} {o : Option (Except ε α)}
    (h : Run H p w o w') (hI : I w) : I w' :=
  (hp w hI).1 w' h.toCut

/-! ## Postconditions of values only -/

/-- Every run of `p` from `w` stays within `I`, and within `Q` where it ends with a value. -/
def wpOk (H : Handler E W) (I : W → Prop) (p : Prog E ε α) (Q : α → W → Prop) (w : W) : Prop :=
  wp H I p (fun r w' => ∀ a, r = .ok a → Q a w') w

theorem wpOk_pure {a : α} {Q : α → W → Prop} {w : W} (hI : I w) (hQ : Q a w) :
    wpOk H I (.pure a : Prog E ε α) Q w :=
  wp_pure.mpr ⟨hI, fun _ hb => Except.ok.inj hb ▸ hQ⟩

theorem wpOk_fail {e : ε} {Q : α → W → Prop} {w : W} (hI : I w) :
    wpOk H I (.fail e : Prog E ε α) Q w :=
  wp_fail.mpr ⟨hI, nofun⟩

theorem wpOk_mono {p : Prog E ε α} {Q Q' : α → W → Prop} {w : W} (h : wpOk H I p Q w)
    (hQ : ∀ a w', I w' → Q a w' → Q' a w') : wpOk H I p Q' w :=
  wp_mono h fun _ w' hI hr a ha => hQ a w' hI (hr a ha)

theorem wpOk_seq {p : Prog E ε α} {f : α → Prog E ε β} {R : α → W → Prop} {Q : β → W → Prop}
    {w : W} (hp : wpOk H I p R w) (hf : ∀ a w', I w' → R a w' → wpOk H I (f a) Q w') :
    wpOk H I (p.bind f) Q w := by
  refine wp_seq hp fun r w' hI hr => ?_
  cases r with
  | ok a => exact hf a w' hI (hr a rfl)
  | error e => exact nofun

theorem wpOk_conj {I' : W → Prop} {p : Prog E ε α} {Q Q' : α → W → Prop} {w : W}
    (h : wpOk H I p Q w) (h' : wpOk H I' p Q' w) :
    wpOk H (fun w' => I w' ∧ I' w') p (fun a w' => Q a w' ∧ Q' a w') w :=
  wp_mono (wp_conj h h') fun _ _ _ hr a ha => ⟨hr.1 a ha, hr.2 a ha⟩

/-- A sequence whose first part keeps within something stronger. -/
theorem wpOk_seq_within {I' : W → Prop} {p : Prog E ε α} {f : α → Prog E ε β}
    {R : α → W → Prop} {Q : β → W → Prop} {w : W} (hp : wpOk H I' p R w)
    (hI : ∀ w', I' w' → I w') (hf : ∀ a w', I' w' → R a w' → wpOk H I (f a) Q w') :
    wpOk H I (p.bind f) Q w := by
  have hkept : wpOk H I' p (fun a w' => I' w' ∧ R a w') w :=
    wp_mono hp fun _ _ hI' hr a ha => ⟨hI', hr a ha⟩
  exact wpOk_seq (wp_always_mono hkept hI) fun a w' _ h => hf a w' h.1 h.2

/-- A sequence, by a condition that its first part keeps and by what else that part ends with. -/
theorem wpOk_seq_kept {I' : W → Prop} {p : Prog E ε α} {f : α → Prog E ε β}
    {R : α → W → Prop} {Q : β → W → Prop} {w : W} (hI : wp H I p (fun _ w' => I w') w)
    (hp : wpOk H I' p R w) (hf : ∀ a w', I w' → R a w' → wpOk H I (f a) Q w') :
    wpOk H I (p.bind f) Q w := by
  have both : wpOk H (fun w' => I w' ∧ I' w') p R w := wp_mono (wp_conj hI hp) fun _ _ _ h => h.2
  exact wpOk_seq_within both (fun _ h => h.1) fun a w' h ha => hf a w' h.1 ha

/-- A sequence, where what always holds is a relation to the state at the start. -/
theorem wpOk_seq_trans {S : W → W → Prop} (htrans : ∀ {x y z}, S x y → S y z → S x z)
    {p : Prog E ε α} {f : α → Prog E ε β} {R : α → W → Prop} {Q : β → W → Prop} {x : W}
    (hp : wpOk H (S x) p R x) (hf : ∀ a y, S x y → R a y → wpOk H (S y) (f a) Q y) :
    wpOk H (S x) (p.bind f) Q x :=
  wpOk_seq hp fun a y hy ha => wp_always_mono (hf a y hy ha) fun _ hz => htrans hy hz

theorem wpOk_step {e : E α} {f : α → Prog E ε β} {Q : β → W → Prop} {w : W} (hI : I w)
    (h : ∀ a w', H.step e w a w' → wpOk H I (f a) Q w') :
    wpOk H I ((Prog.perform e).bind f) Q w :=
  wp_step hI h

theorem wpOk_iterate {body : σ → Prog E ε (σ ⊕ α)} {s : σ} {Q : α → W → Prop} {w : W}
    (J : σ → W → Prop) (h0 : J s w)
    (turn : ∀ s w, J s w → wpOk H I (body s) (fun r w' => match r with
      | .inl s' => J s' w'
      | .inr a => Q a w') w) : wpOk H I (Prog.iterate body s) Q w := by
  refine wp_iterate J h0 fun s w hJ => wp_mono (turn s w hJ) ?_
  rintro (e | s' | a) w' - h
  · exact nofun
  · exact h _ rfl
  · exact fun b hb => Except.ok.inj hb ▸ h _ rfl

/-- A loop over a list, by what holds before the rest of it. -/
theorem wpOk_forM {l : List β} {f : β → Prog E ε PUnit} {w : W} (J : List β → W → Prop)
    (h0 : J l w) (hI : ∀ w', J [] w' → I w')
    (turn : ∀ b rest w, J (b :: rest) w → wpOk H I (f b) (fun _ w' => J rest w') w) :
    wpOk H I (l.forM f) (fun _ w' => J [] w') w := by
  induction l generalizing w with
  | nil => exact wpOk_pure (hI w h0) h0
  | cons b rest ih =>
    apply wpOk_seq (turn b rest w h0)
    intro _ w' _ h'
    exact ih h'

/-- The result of a program that was run for it. -/
theorem wpOk_attempt {p : Prog E ε α} {Q : Except ε α → W → Prop} {w : W} (h : wp H I p Q w) :
    wpOk H I p.attempt Q w :=
  wp_attempt (wp_mono h fun _ _ _ hr _ ha => Except.ok.inj ha ▸ hr)

/-! ## Postconditions of values, and a condition on errors -/

/-- Every run of `p` from `w` stays within `I`, fails only with an error of `F`, and is within
`Q` where it ends with a value. -/
def wpSafe (H : Handler E W) (I : W → Prop) (F : ε → Prop) (p : Prog E ε α)
    (Q : α → W → Prop) (w : W) : Prop :=
  wp H I p (fun r w' => match r with
    | .ok a => Q a w'
    | .error e => F e) w

section Safe

variable {F : ε → Prop}

theorem wpSafe_pure {a : α} {Q : α → W → Prop} {w : W} (hI : I w) (hQ : Q a w) :
    wpSafe H I F (.pure a : Prog E ε α) Q w :=
  wp_pure.mpr ⟨hI, hQ⟩

theorem wpSafe_fail {e : ε} {Q : α → W → Prop} {w : W} (hI : I w) (he : F e) :
    wpSafe H I F (.fail e : Prog E ε α) Q w :=
  wp_fail.mpr ⟨hI, he⟩

theorem wpSafe_mono {p : Prog E ε α} {Q Q' : α → W → Prop} {w : W} (h : wpSafe H I F p Q w)
    (hQ : ∀ a w', I w' → Q a w' → Q' a w') : wpSafe H I F p Q' w := by
  apply wp_mono h
  intro r w' hI hr
  cases r with
  | ok a => exact hQ a w' hI hr
  | error e => exact hr

theorem wpSafe_seq {p : Prog E ε α} {f : α → Prog E ε β} {R : α → W → Prop} {Q : β → W → Prop}
    {w : W} (hp : wpSafe H I F p R w)
    (hf : ∀ a w', I w' → R a w' → wpSafe H I F (f a) Q w') : wpSafe H I F (p.bind f) Q w := by
  apply wp_seq hp
  intro r w' hI hr
  cases r with
  | ok a => exact hf a w' hI hr
  | error e => exact hr

theorem wpSafe_step {e : E α} {f : α → Prog E ε β} {Q : β → W → Prop} {w : W} (hI : I w)
    (h : ∀ a w', H.step e w a w' → wpSafe H I F (f a) Q w') :
    wpSafe H I F ((Prog.perform e).bind f) Q w :=
  wp_step hI h

theorem wpSafe_iterate {body : σ → Prog E ε (σ ⊕ α)} {s : σ} {Q : α → W → Prop} {w : W}
    (J : σ → W → Prop) (h0 : J s w)
    (turn : ∀ s w, J s w → wpSafe H I F (body s) (fun r w' => match r with
      | .inl s' => J s' w'
      | .inr a => Q a w') w) : wpSafe H I F (Prog.iterate body s) Q w := by
  apply wp_iterate J h0
  intro s w hJ
  apply wp_mono (turn s w hJ)
  intro r w' _ h
  rcases r with e | s' | a <;> exact h

end Safe

end Foundrix.Effect

import Mathlib.Logic.Relation

/-!
# Programs with effects, failure and unbounded loops

A program is a tree of operations of a signature `E : Type → Type` (an operation of
`E β` is answered by a value of `β`), it may fail with an error of type `ε`, and it may
loop without a bound. `Run H p w o w'` says that `p`, started in the world `w`, reaches
`w'` when the operations are answered as the handler `H` allows. The outcome is `none`
when the run is cut there (it is waiting, it lost power, or it simply has not gone on) and
`some r` when the program ended with the result `r`. A program that never ends still has
all its cut runs, so a safety property is a statement about every run.

* `Prog`, `Prog.bind`: the syntax; `Prog` is a monad.
* `Run`, `run_bind`, `run_loop`: the runs, and how the runs of a sequence split.
* `Run.keeps`, `Run.keepsOnly`: what every operation keeps, a run keeps.
* `Handler.logged`, `Chronicle`: the same runs with a log of events.
* `Handler.withEnv`: the same runs with an environment that steps between operations.
* `Prog.exec`, `exec_run`: an executable reading of the runs for concrete inputs.
* `Handler.answering`, `Prog.Yields`: a world that only answers, and what a program ends with.
-/

namespace Foundrix.Effect

/-- A program over the operations `E` that fails with `ε` or ends with a value. -/
inductive Prog (E : Type → Type) (ε : Type) : Type → Type 1 where
  | pure {α : Type} (a : α) : Prog E ε α
  | fail {α : Type} (e : ε) : Prog E ε α
  | op {α β : Type} (e : E β) (k : β → Prog E ε α) : Prog E ε α
  /-- Run `body` from `s`; `inl s'` goes round again from `s'`, `inr b` leaves the loop
  and goes on with `k b`. -/
  | loop {α σ β : Type} (body : σ → Prog E ε (σ ⊕ β)) (s : σ) (k : β → Prog E ε α) : Prog E ε α

namespace Prog

variable {E : Type → Type} {ε α β γ σ : Type}

def bind : Prog E ε α → (α → Prog E ε β) → Prog E ε β
  | .pure a, f => f a
  | .fail e, _ => .fail e
  | .op e k, f => .op e fun b => (k b).bind f
  | .loop body s k, f => .loop body s fun b => (k b).bind f

instance : Monad (Prog E ε) where
  pure := Prog.pure
  bind := Prog.bind

/-- Perform one operation. -/
def perform (e : E α) : Prog E ε α := .op e .pure

/-- An unbounded loop over a state. -/
def iterate (body : σ → Prog E ε (σ ⊕ α)) (s : σ) : Prog E ε α := .loop body s .pure

/-- A result that is passed on: the value, or failure with the error. -/
def orFail : Except ε α → Prog E ε α
  | .ok a => .pure a
  | .error e => .fail e

/-- Run a program and return its result instead of failing with its error. -/
def attempt : {α : Type} → Prog E ε α → Prog E ε (Except ε α)
  | _, .pure a => .pure (.ok a)
  | _, .fail e => .pure (.error e)
  | _, .op e k => .op e fun b => (k b).attempt
  | _, .loop body s k =>
    .loop
      (fun s => (body s).attempt.bind fun r =>
        match r with
        | Except.ok (.inl s') => .pure (.inl s')
        | Except.ok (.inr b) => .pure (.inr (Except.ok b))
        | Except.error e => .pure (.inr (Except.error e)))
      s fun r =>
        match r with
        | Except.ok b => (k b).attempt
        | Except.error e => .pure (Except.error e)

@[simp] theorem bind_eq (p : Prog E ε α) (f : α → Prog E ε β) : p >>= f = p.bind f := rfl

@[simp] theorem pure_eq (a : α) : (Pure.pure a : Prog E ε α) = .pure a := rfl

@[simp] theorem map_eq (f : α → β) (p : Prog E ε α) : f <$> p = p.bind fun a => .pure (f a) := rfl

@[simp] theorem bind_pure (a : α) (f : α → Prog E ε β) : (Prog.pure a).bind f = f a := rfl

@[simp] theorem bind_fail (e : ε) (f : α → Prog E ε β) : (Prog.fail e).bind f = .fail e := rfl

@[simp] theorem bind_op (e : E γ) (k : γ → Prog E ε α) (f : α → Prog E ε β) :
    (Prog.op e k).bind f = .op e fun b => (k b).bind f := rfl

@[simp] theorem bind_loop (body : σ → Prog E ε (σ ⊕ γ)) (s : σ) (k : γ → Prog E ε α)
    (f : α → Prog E ε β) : (Prog.loop body s k).bind f = .loop body s fun b => (k b).bind f := rfl

theorem bind_pure_right (p : Prog E ε α) : p.bind .pure = p := by
  induction p with
  | pure a => rfl
  | fail e => rfl
  | op e k ih => simp only [bind_op, ih]
  | loop body s k _ ih => simp only [bind_loop, ih]

theorem bind_assoc (p : Prog E ε α) (f : α → Prog E ε β) (g : β → Prog E ε γ) :
    (p.bind f).bind g = p.bind fun a => (f a).bind g := by
  induction p with
  | pure a => rfl
  | fail e => rfl
  | op e k ih => simp only [bind_op, ih]
  | loop body s k _ ih => simp only [bind_loop, ih]

end Prog

/-! ## Handlers and runs -/

/-- How the world answers an operation: `step e w b w'` says that in the world `w` the
operation `e` may be answered with `b`, leaving the world `w'`. -/
structure Handler (E : Type → Type) (W : Type*) where
  step : {β : Type} → E β → W → β → W → Prop

section Runs

variable {E : Type → Type} {ε α β σ : Type} {W : Type*} {H : Handler E W}

/-- `Run H p w o w'`: `p` started in `w` reaches `w'`, cut there (`none`) or ended with a
result (`some`). -/
inductive Run (H : Handler E W) :
    {α : Type} → Prog E ε α → W → Option (Except ε α) → W → Prop where
  | cut {α : Type} (p : Prog E ε α) (w : W) : Run H p w none w
  | pure {α : Type} (a : α) (w : W) : Run H (.pure a) w (some (.ok a)) w
  | fail {α : Type} (e : ε) (w : W) : Run H (.fail e : Prog E ε α) w (some (.error e)) w
  | op {α β : Type} {e : E β} {k : β → Prog E ε α} {w w' w'' : W} {b : β}
      {o : Option (Except ε α)} (step : H.step e w b w') (rest : Run H (k b) w' o w'') :
      Run H (.op e k) w o w''
  | loopCut {α σ β : Type} {body : σ → Prog E ε (σ ⊕ β)} {s : σ} {k : β → Prog E ε α}
      {w w' : W} (turn : Run H (body s) w none w') : Run H (.loop body s k) w none w'
  | loopFail {α σ β : Type} {body : σ → Prog E ε (σ ⊕ β)} {s : σ} {k : β → Prog E ε α}
      {w w' : W} {e : ε} (turn : Run H (body s) w (some (.error e)) w') :
      Run H (.loop body s k) w (some (.error e)) w'
  | loopNext {α σ β : Type} {body : σ → Prog E ε (σ ⊕ β)} {s s' : σ} {k : β → Prog E ε α}
      {w w' w'' : W} {o : Option (Except ε α)}
      (turn : Run H (body s) w (some (.ok (.inl s'))) w')
      (rest : Run H (.loop body s' k) w' o w'') : Run H (.loop body s k) w o w''
  | loopDone {α σ β : Type} {body : σ → Prog E ε (σ ⊕ β)} {s : σ} {b : β}
      {k : β → Prog E ε α} {w w' w'' : W} {o : Option (Except ε α)}
      (turn : Run H (body s) w (some (.ok (.inr b))) w') (rest : Run H (k b) w' o w'') :
      Run H (.loop body s k) w o w''

/-- The states a program can be in, cut or ended. -/
theorem Run.toCut {p : Prog E ε α} {w w' : W} {o : Option (Except ε α)} (h : Run H p w o w') :
    Run H p w none w' := by
  induction h with
  | cut p w => exact .cut p w
  | pure a w => exact .cut _ w
  | fail e w => exact .cut _ w
  | op step _ ih => exact .op step ih
  | loopCut turn _ => exact .loopCut turn
  | loopFail _ ih => exact .loopCut ih
  | loopNext turn _ _ ih => exact .loopNext turn ih
  | loopDone turn _ _ ih => exact .loopDone turn ih

theorem run_pure {a : α} {w w' : W} {o : Option (Except ε α)} :
    Run H (.pure a) w o w' ↔ w' = w ∧ (o = none ∨ o = some (.ok a)) := by
  constructor
  · rintro (_ | _)
    · exact ⟨rfl, Or.inl rfl⟩
    · exact ⟨rfl, Or.inr rfl⟩
  · rintro ⟨rfl, rfl | rfl⟩
    · exact .cut _ _
    · exact .pure _ _

theorem run_fail {e : ε} {w w' : W} {o : Option (Except ε α)} :
    Run H (.fail e) w o w' ↔ w' = w ∧ (o = none ∨ o = some (.error e)) := by
  constructor
  · rintro (_ | _)
    · exact ⟨rfl, Or.inl rfl⟩
    · exact ⟨rfl, Or.inr rfl⟩
  · rintro ⟨rfl, rfl | rfl⟩
    · exact .cut _ _
    · exact .fail _ _

theorem run_op {e : E β} {k : β → Prog E ε α} {w w'' : W} {o : Option (Except ε α)} :
    Run H (.op e k) w o w'' ↔
      (o = none ∧ w'' = w) ∨ ∃ b w', H.step e w b w' ∧ Run H (k b) w' o w'' := by
  constructor
  · intro h
    cases h with
    | cut => exact Or.inl ⟨rfl, rfl⟩
    | op step rest => exact Or.inr ⟨_, _, step, rest⟩
  · rintro (⟨rfl, rfl⟩ | ⟨b, w', step, rest⟩)
    · exact .cut _ _
    · exact .op step rest

/-- Induction on the turns of a loop. -/
theorem run_loop_induct {body : σ → Prog E ε (σ ⊕ β)} {k : β → Prog E ε α}
    {motive : σ → W → Option (Except ε α) → W → Prop}
    (cut : ∀ s w, motive s w none w)
    (turnCut : ∀ s w w', Run H (body s) w none w' → motive s w none w')
    (turnFail : ∀ s w e w', Run H (body s) w (some (.error e)) w' →
      motive s w (some (.error e)) w')
    (next : ∀ s w s' w' o w'', Run H (body s) w (some (.ok (.inl s'))) w' →
      motive s' w' o w'' → motive s w o w'')
    (done : ∀ s w b w' o w'', Run H (body s) w (some (.ok (.inr b))) w' → Run H (k b) w' o w'' →
      motive s w o w'')
    {s : σ} {w w' : W} {o : Option (Except ε α)} (h : Run H (.loop body s k) w o w') :
    motive s w o w' := by
  generalize hq : Prog.loop body s k = q at h
  induction h generalizing s with
  | cut p w => exact cut s w
  | pure => cases hq
  | fail => cases hq
  | op => cases hq
  | loopCut turn _ => cases hq; exact turnCut _ _ _ turn
  | loopFail turn _ => cases hq; exact turnFail _ _ _ _ turn
  | loopNext turn _ _ ih =>
    cases hq
    exact next _ _ _ _ _ _ turn (ih cut turnCut turnFail next done rfl)
  | loopDone turn rest _ _ => cases hq; exact done _ _ _ _ _ _ turn rest

/-- The runs of a loop are the runs of its turns followed by a run of what comes after. -/
theorem run_loop {body : σ → Prog E ε (σ ⊕ β)} {s : σ} {k : β → Prog E ε α} {w w'' : W}
    {o : Option (Except ε α)} :
    Run H (.loop body s k) w o w'' ↔
      (o = none ∧ Run H (Prog.iterate body s) w none w'') ∨
      (∃ e, o = some (.error e) ∧ Run H (Prog.iterate body s) w (some (.error e)) w'') ∨
      ∃ b w', Run H (Prog.iterate body s) w (some (.ok b)) w' ∧ Run H (k b) w' o w'' := by
  constructor
  · intro h
    refine run_loop_induct (motive := fun s w o w'' =>
      (o = none ∧ Run H (Prog.iterate body s) w none w'') ∨
      (∃ e, o = some (.error e) ∧ Run H (Prog.iterate body s) w (some (.error e)) w'') ∨
      ∃ b w', Run H (Prog.iterate body s) w (some (.ok b)) w' ∧ Run H (k b) w' o w'')
      ?_ ?_ ?_ ?_ ?_ h
    · intro s w
      exact Or.inl ⟨rfl, .cut _ _⟩
    · intro s w w' turn
      exact Or.inl ⟨rfl, .loopCut turn⟩
    · intro s w e w' turn
      exact Or.inr (Or.inl ⟨e, rfl, .loopFail turn⟩)
    · rintro s w s' w' o w'' turn (⟨rfl, h⟩ | ⟨e, rfl, h⟩ | ⟨b, w1, h, hk⟩)
      · exact Or.inl ⟨rfl, .loopNext turn h⟩
      · exact Or.inr (Or.inl ⟨e, rfl, .loopNext turn h⟩)
      · exact Or.inr (Or.inr ⟨b, w1, .loopNext turn h, hk⟩)
    · intro s w b w' o w'' turn rest
      exact Or.inr (Or.inr ⟨b, w', .loopDone turn (.pure _ _), rest⟩)
  · have next : ∀ {o' : Option (Except ε β)} {w' : W}, Run H (Prog.iterate body s) w o' w' →
        (o' = none → Run H (.loop body s k) w none w') ∧
        (∀ e, o' = some (.error e) → Run H (.loop body s k) w (some (.error e)) w') ∧
        ∀ b, o' = some (.ok b) → ∀ {o w''}, Run H (k b) w' o w'' →
          Run H (.loop body s k) w o w'' := by
      intro o' w' h
      refine run_loop_induct (motive := fun s w o' w' =>
        (o' = none → Run H (.loop body s k) w none w') ∧
        (∀ e, o' = some (.error e) → Run H (.loop body s k) w (some (.error e)) w') ∧
        ∀ b, o' = some (.ok b) → ∀ {o w''}, Run H (k b) w' o w'' →
          Run H (.loop body s k) w o w'') ?_ ?_ ?_ ?_ ?_ h
      · intro s w
        exact ⟨fun _ => .cut _ _, nofun, nofun⟩
      · intro s w w' turn
        exact ⟨fun _ => .loopCut turn, nofun, nofun⟩
      · intro s w e w' turn
        exact ⟨nofun, fun e' he => by cases he; exact .loopFail turn, nofun⟩
      · rintro s w s' w' o' w'' turn ⟨h1, h2, h3⟩
        exact ⟨fun ho => .loopNext turn (h1 ho), fun e ho => .loopNext turn (h2 e ho),
          fun b ho _ _ hk => .loopNext turn (h3 b ho hk)⟩
      · intro s w b w' o' w'' turn rest
        obtain ⟨rfl, ho⟩ := run_pure.mp rest
        refine ⟨fun _ => .loopCut turn.toCut, fun e he => ?_, fun b' hb _ _ hk => ?_⟩
        · rcases ho with ho | ho <;> rw [ho] at he <;> cases he
        · rcases ho with ho | ho <;> rw [ho] at hb <;> cases hb
          exact .loopDone turn hk
    rintro (⟨rfl, h⟩ | ⟨e, rfl, h⟩ | ⟨b, w', h, hk⟩)
    · exact (next h).1 rfl
    · exact (next h).2.1 e rfl
    · exact (next h).2.2 b rfl hk

/-- The runs of a sequence: the first part is cut or fails, or it ends and the second
part runs from there. -/
theorem run_bind {p : Prog E ε α} {f : α → Prog E ε β} {w w'' : W} {o : Option (Except ε β)} :
    Run H (p.bind f) w o w'' ↔
      (o = none ∧ Run H p w none w'') ∨
      (∃ e, o = some (.error e) ∧ Run H p w (some (.error e)) w'') ∨
      ∃ a w', Run H p w (some (.ok a)) w' ∧ Run H (f a) w' o w'' := by
  induction p generalizing w with
  | pure a =>
    constructor
    · intro h
      exact Or.inr (Or.inr ⟨a, w, .pure a w, h⟩)
    · rintro (⟨rfl, h⟩ | ⟨e, rfl, h⟩ | ⟨b, w', h, hf⟩)
      · obtain ⟨rfl, _⟩ := run_pure.mp h
        exact .cut _ _
      · obtain ⟨_, h | h⟩ := run_pure.mp h <;> cases h
      · obtain ⟨rfl, h | h⟩ := run_pure.mp h <;> cases h
        exact hf
  | fail e =>
    constructor
    · intro h
      obtain ⟨rfl, rfl | rfl⟩ := run_fail.mp h
      · exact Or.inl ⟨rfl, .cut _ _⟩
      · exact Or.inr (Or.inl ⟨e, rfl, .fail e _⟩)
    · rintro (⟨rfl, h⟩ | ⟨e', rfl, h⟩ | ⟨b, w', h, _⟩)
      · obtain ⟨rfl, _⟩ := run_fail.mp h
        exact .cut _ _
      · obtain ⟨rfl, h | h⟩ := run_fail.mp h <;> cases h
        exact .fail e _
      · obtain ⟨_, h | h⟩ := run_fail.mp h <;> cases h
  | op e k ih =>
    rw [Prog.bind_op, run_op]
    constructor
    · rintro (⟨rfl, rfl⟩ | ⟨b, w', step, h⟩)
      · exact Or.inl ⟨rfl, .cut _ _⟩
      · rcases (ih b).mp h with ⟨rfl, hp⟩ | ⟨e', rfl, hp⟩ | ⟨a, w1, hp, hf⟩
        · exact Or.inl ⟨rfl, .op step hp⟩
        · exact Or.inr (Or.inl ⟨e', rfl, .op step hp⟩)
        · exact Or.inr (Or.inr ⟨a, w1, .op step hp, hf⟩)
    · rintro (⟨rfl, h⟩ | ⟨e', rfl, h⟩ | ⟨a, w1, h, hf⟩)
      · rcases run_op.mp h with ⟨_, rfl⟩ | ⟨b, w', step, hp⟩
        · exact Or.inl ⟨rfl, rfl⟩
        · exact Or.inr ⟨b, w', step, (ih b).mpr (Or.inl ⟨rfl, hp⟩)⟩
      · rcases run_op.mp h with ⟨he, _⟩ | ⟨b, w', step, hp⟩
        · cases he
        · exact Or.inr ⟨b, w', step, (ih b).mpr (Or.inr (Or.inl ⟨e', rfl, hp⟩))⟩
      · rcases run_op.mp h with ⟨he, _⟩ | ⟨b, w', step, hp⟩
        · cases he
        · exact Or.inr ⟨b, w', step, (ih b).mpr (Or.inr (Or.inr ⟨a, w1, hp, hf⟩))⟩
  | loop body s k _ ih =>
    rw [Prog.bind_loop, run_loop]
    constructor
    · rintro (⟨rfl, h⟩ | ⟨e, rfl, h⟩ | ⟨b, w', h, hk⟩)
      · exact Or.inl ⟨rfl, run_loop.mpr (Or.inl ⟨rfl, h⟩)⟩
      · exact Or.inr (Or.inl ⟨e, rfl, run_loop.mpr (Or.inr (Or.inl ⟨e, rfl, h⟩))⟩)
      · have seq : ∀ {o' w1}, Run H (k b) w' o' w1 → Run H (.loop body s k) w o' w1 :=
          fun hk => run_loop.mpr (Or.inr (Or.inr ⟨b, w', h, hk⟩))
        rcases (ih b).mp hk with ⟨rfl, hp⟩ | ⟨e, rfl, hp⟩ | ⟨a, w1, hp, hf⟩
        · exact Or.inl ⟨rfl, seq hp⟩
        · exact Or.inr (Or.inl ⟨e, rfl, seq hp⟩)
        · exact Or.inr (Or.inr ⟨a, w1, seq hp, hf⟩)
    · rintro (⟨rfl, h⟩ | ⟨e, rfl, h⟩ | ⟨a, w1, h, hf⟩)
      · rcases run_loop.mp h with ⟨_, h⟩ | ⟨e, he, _⟩ | ⟨b, w', h, hk⟩
        · exact Or.inl ⟨rfl, h⟩
        · cases he
        · exact Or.inr (Or.inr ⟨b, w', h, (ih b).mpr (Or.inl ⟨rfl, hk⟩)⟩)
      · rcases run_loop.mp h with ⟨he, _⟩ | ⟨e', he, h⟩ | ⟨b, w', h, hk⟩
        · cases he
        · cases he
          exact Or.inr (Or.inl ⟨e, rfl, h⟩)
        · exact Or.inr (Or.inr ⟨b, w', h, (ih b).mpr (Or.inr (Or.inl ⟨e, rfl, hk⟩))⟩)
      · rcases run_loop.mp h with ⟨he, _⟩ | ⟨e', he, _⟩ | ⟨b, w', h, hk⟩
        · cases he
        · cases he
        · exact Or.inr (Or.inr ⟨b, w', h, (ih b).mpr (Or.inr (Or.inr ⟨a, w1, hk, hf⟩))⟩)

theorem run_perform_ok {e : E α} {a : α} {w w' : W} :
    Run H (Prog.perform e : Prog E ε α) w (some (.ok a)) w' ↔ H.step e w a w' := by
  constructor
  · intro h
    rcases run_op.mp h with ⟨h, -⟩ | ⟨b, v, hs, h⟩
    · cases h
    · obtain ⟨rfl, h | h⟩ := run_pure.mp h <;> cases h
      exact hs
  · exact fun hs => run_op.mpr (Or.inr ⟨a, w', hs, .pure a w'⟩)

/-- A sequence ends with a value where both its parts do. -/
theorem run_bind_ok {p : Prog E ε α} {f : α → Prog E ε β} {b : β} {w w' : W} :
    Run H (p.bind f) w (some (.ok b)) w' ↔
      ∃ a v, Run H p w (some (.ok a)) v ∧ Run H (f a) v (some (.ok b)) w' := by
  constructor
  · intro h
    rcases run_bind.mp h with ⟨h, -⟩ | ⟨e, h, -⟩ | h
    · cases h
    · cases h
    · exact h
  · exact fun h => run_bind.mpr (Or.inr (Or.inr h))

theorem run_pure_ok {a b : α} {w w' : W} :
    Run H (.pure a : Prog E ε α) w (some (.ok b)) w' ↔ b = a ∧ w' = w := by
  rw [run_pure]
  simp [and_comm]

/-- A run of `p.attempt` is a run of `p` whose result is returned. -/
theorem run_attempt {p : Prog E ε α} {w w' : W} {o : Option (Except ε (Except ε α))}
    (h : Run H p.attempt w o w') :
    (o = none ∧ Run H p w none w') ∨ ∃ r, o = some (.ok r) ∧ Run H p w (some r) w' := by
  induction p generalizing w w' with
  | pure a =>
    obtain ⟨rfl, rfl | rfl⟩ := run_pure.mp h
    · exact Or.inl ⟨rfl, .cut _ _⟩
    · exact Or.inr ⟨.ok a, rfl, .pure a _⟩
  | fail e =>
    obtain ⟨rfl, rfl | rfl⟩ := run_pure.mp h
    · exact Or.inl ⟨rfl, .cut _ _⟩
    · exact Or.inr ⟨.error e, rfl, .fail e _⟩
  | op e k ih =>
    rcases run_op.mp h with ⟨rfl, rfl⟩ | ⟨b, w1, step, h⟩
    · exact Or.inl ⟨rfl, .cut _ _⟩
    · rcases ih b h with ⟨rfl, h1⟩ | ⟨r, rfl, h1⟩
      · exact Or.inl ⟨rfl, .op step h1⟩
      · exact Or.inr ⟨r, rfl, .op step h1⟩
  | loop body s k ihbody ihk =>
    rw [Prog.attempt] at h
    refine run_loop_induct (motive := fun s w o w' =>
      (o = none ∧ Run H (.loop body s k) w none w') ∨
      ∃ r, o = some (.ok r) ∧ Run H (.loop body s k) w (some r) w') ?_ ?_ ?_ ?_ ?_ h
    · intro s w
      exact Or.inl ⟨rfl, .cut _ _⟩
    · intro s w w' turn
      rcases run_bind.mp turn with ⟨-, h⟩ | ⟨e, he, -⟩ | ⟨r, w1, h, hr⟩
      · rcases ihbody s h with ⟨-, h⟩ | ⟨r, hr, -⟩
        · exact Or.inl ⟨rfl, .loopCut h⟩
        · cases hr
      · cases he
      · have hw : w' = w1 := by
          rcases r with e | s' | b <;> exact (run_pure.mp hr).1
        obtain rfl := hw
        rcases ihbody s h with ⟨he, -⟩ | ⟨r', -, h⟩
        · cases he
        · exact Or.inl ⟨rfl, .loopCut h.toCut⟩
    · intro s w e w' turn
      rcases run_bind.mp turn with ⟨he, -⟩ | ⟨e', -, h⟩ | ⟨r, w1, -, hr⟩
      · cases he
      · rcases ihbody s h with ⟨he, -⟩ | ⟨r, he, -⟩ <;> cases he
      · rcases r with e | s' | b <;> obtain ⟨-, he | he⟩ := run_pure.mp hr <;> cases he
    · intro s w s' w' o w'' turn rest
      rcases run_bind.mp turn with ⟨he, -⟩ | ⟨e', he, -⟩ | ⟨r, w1, h, hr⟩
      · cases he
      · cases he
      · rcases ihbody s h with ⟨he, -⟩ | ⟨r', he, h⟩ <;> cases he
        rcases r with e | s1 | b <;> obtain ⟨rfl, he | he⟩ := run_pure.mp hr <;> cases he
        rcases rest with ⟨rfl, h2⟩ | ⟨r, rfl, h2⟩
        · exact Or.inl ⟨rfl, .loopNext h h2⟩
        · exact Or.inr ⟨r, rfl, .loopNext h h2⟩
    · intro s w b w' o w'' turn rest
      rcases run_bind.mp turn with ⟨he, -⟩ | ⟨e', he, -⟩ | ⟨r, w1, h, hr⟩
      · cases he
      · cases he
      · rcases ihbody s h with ⟨he, -⟩ | ⟨r', he, h⟩ <;> cases he
        rcases r with e | s1 | b' <;> obtain ⟨rfl, he | he⟩ := run_pure.mp hr <;> cases he
        · obtain ⟨rfl, rfl | rfl⟩ := run_pure.mp rest
          · exact Or.inl ⟨rfl, .loopCut h.toCut⟩
          · exact Or.inr ⟨.error e, rfl, .loopFail h⟩
        · rcases ihk b' rest with ⟨rfl, h2⟩ | ⟨r, rfl, h2⟩
          · exact Or.inl ⟨rfl, .loopDone h h2⟩
          · exact Or.inr ⟨r, rfl, .loopDone h h2⟩

/-- A property that every operation keeps holds wherever a run gets. -/
theorem Run.keeps {J : W → Prop}
    (step : ∀ {β : Type} (e : E β) w b w', J w → H.step e w b w' → J w')
    {p : Prog E ε α} {w w' : W} {o : Option (Except ε α)} (h : Run H p w o w') (hJ : J w) :
    J w' := by
  induction h with
  | cut => exact hJ
  | pure => exact hJ
  | fail => exact hJ
  | op hs _ ih => exact ih (step _ _ _ _ hJ hs)
  | loopCut _ ih => exact ih hJ
  | loopFail _ ih => exact ih hJ
  | loopNext _ _ ih₁ ih₂ => exact ih₂ (ih₁ hJ)
  | loopDone _ _ ih₁ ih₂ => exact ih₂ (ih₁ hJ)

/-- The runs under one handler, seen through `f`, are runs under another that allows what
the first one does. -/
theorem Run.map {W' : Type*} {H' : Handler E W'} {f : W → W'}
    (step : ∀ {β : Type} (e : E β) w b w', H.step e w b w' → H'.step e (f w) b (f w'))
    {p : Prog E ε α} {w w' : W} {o : Option (Except ε α)} (h : Run H p w o w') :
    Run H' p (f w) o (f w') := by
  induction h with
  | cut => exact .cut _ _
  | pure => exact .pure _ _
  | fail => exact .fail _ _
  | op hs _ ih => exact .op (step _ _ _ _ hs) ih
  | loopCut _ ih => exact .loopCut ih
  | loopFail _ ih => exact .loopFail ih
  | loopNext _ _ ih₁ ih₂ => exact .loopNext ih₁ ih₂
  | loopDone _ _ ih₁ ih₂ => exact .loopDone ih₁ ih₂

end Runs

/-! ## Programs that keep to some operations -/

section Only

variable {E : Type → Type} {ε α β σ : Type} {P : {β : Type} → E β → Prop}

/-- Every operation that the program can perform satisfies `P`. -/
def Prog.Only (P : {β : Type} → E β → Prop) : {α : Type} → Prog E ε α → Prop
  | _, .pure _ => True
  | _, .fail _ => True
  | _, .op e k => P e ∧ ∀ b, (k b).Only P
  | _, .loop body _ k => (∀ s, (body s).Only P) ∧ ∀ b, (k b).Only P

theorem Prog.only_bind {p : Prog E ε α} {f : α → Prog E ε β} (hp : p.Only P)
    (hf : ∀ a, (f a).Only P) : (p.bind f).Only P := by
  induction p with
  | pure a => exact hf a
  | fail e => trivial
  | op e k ih => exact ⟨hp.1, fun b => ih b (hp.2 b) hf⟩
  | loop body s k _ ih => exact ⟨hp.1, fun b => ih b (hp.2 b) hf⟩

theorem Prog.Only.mono {P' : {β : Type} → E β → Prop} {p : Prog E ε α} (hp : p.Only P)
    (h : ∀ {β : Type} (e : E β), P e → P' e) : p.Only P' := by
  induction p with
  | pure a => trivial
  | fail e => trivial
  | op e k ih => exact ⟨h e hp.1, fun b => ih b (hp.2 b)⟩
  | loop body s k ihbody ih => exact ⟨fun s => ihbody s (hp.1 s), fun b => ih b (hp.2 b)⟩

theorem Prog.only_perform {e : E α} (he : P e) : (perform e : Prog E ε α).Only P :=
  ⟨he, fun _ => trivial⟩

theorem Prog.only_iterate {body : σ → Prog E ε (σ ⊕ α)} {s : σ} (hb : ∀ s, (body s).Only P) :
    (iterate body s).Only P :=
  ⟨hb, fun _ => trivial⟩

theorem Prog.only_attempt {p : Prog E ε α} (hp : p.Only P) : p.attempt.Only P := by
  induction p with
  | pure a => trivial
  | fail e => trivial
  | op e k ih => exact ⟨hp.1, fun b => ih b (hp.2 b)⟩
  | loop body s k ihbody ih =>
    rw [attempt]
    refine ⟨fun s => only_bind (ihbody s (hp.1 s)) fun r => ?_, fun r => ?_⟩
    · rcases r with e | s' | b <;> trivial
    · cases r with
      | error e => trivial
      | ok b => exact ih b (hp.2 b)

theorem Prog.only_orFail (r : Except ε α) : (orFail r : Prog E ε α).Only P := by
  cases r <;> trivial

theorem Prog.only_forM {l : List α} {f : α → Prog E ε PUnit} (hf : ∀ a ∈ l, (f a).Only P) :
    (l.forM f).Only P := by
  induction l with
  | nil => trivial
  | cons a l ih =>
    exact only_bind (hf a List.mem_cons_self) fun _ =>
      ih fun b hb => hf b (List.mem_cons_of_mem a hb)

/-- A property that the operations of the program keep holds wherever its runs get. -/
theorem Run.keepsOnly {W : Type*} {H : Handler E W} {J : W → Prop}
    (step : ∀ {β : Type} (e : E β) w b w', P e → J w → H.step e w b w' → J w')
    {p : Prog E ε α} {w w' : W} {o : Option (Except ε α)} (h : Run H p w o w') (hp : p.Only P)
    (hJ : J w) : J w' := by
  induction h with
  | cut => exact hJ
  | pure => exact hJ
  | fail => exact hJ
  | op hs _ ih => exact ih (hp.2 _) (step _ _ _ _ hp.1 hJ hs)
  | loopCut _ ih => exact ih (hp.1 _) hJ
  | loopFail _ ih => exact ih (hp.1 _) hJ
  | loopNext _ _ ih₁ ih₂ => exact ih₂ hp (ih₁ (hp.1 _) hJ)
  | loopDone _ _ ih₁ ih₂ => exact ih₂ (hp.2 _) (ih₁ (hp.1 _) hJ)

end Only

/-! ## Logs and environments -/

section Logs

variable {E : Type → Type} {ε α : Type} {W Γ Ev : Type*}

/-- The handler `H` with a log of the events that `ev` sees in its steps, the earliest
first. -/
def Handler.logged (H : Handler E W) (ev : {β : Type} → E β → W → β → Option Ev) :
    Handler E (W × List Ev) where
  step e w b w' := H.step e w.1 b w'.1 ∧ w'.2 = w.2 ++ (ev e w.1 b).toList

/-- The handler `H` beside an environment of state `Γ`, which takes any number of steps
before each operation. -/
def Handler.withEnv (H : Handler E W) (env : W × Γ → W × Γ → Prop) : Handler E (W × Γ) where
  step e w b w' := ∃ m, Relation.ReflTransGen env w m ∧ H.step e m.1 b w'.1 ∧ w'.2 = m.2

/-- The handler `H` beside a second state, which moves by `T` with every operation. -/
def Handler.beside (H : Handler E W) (T : {β : Type} → E β → Γ → β → Γ → Prop) :
    Handler E (W × Γ) where
  step e w b w' := H.step e w.1 b w'.1 ∧ T e w.2 b w'.2

/-- The handler `H` with the states that were passed, the earliest first. -/
def Handler.recorded (H : Handler E W) : Handler E (W × List W) where
  step e w b w' := H.step e w.1 b w'.1 ∧ w'.2 = w.2 ++ [w.1]

/-- The handler `H` where it gives only the answers that satisfy `P`. -/
def Handler.restrict (H : Handler E W) (P : {β : Type} → E β → β → Prop) : Handler E W where
  step e w b w' := H.step e w b w' ∧ P e b

/-- The handler `H` where nothing happens that `ev` sees. -/
def Handler.silent (H : Handler E W) (ev : {β : Type} → E β → W → β → Option Ev) :
    Handler E W where
  step e w b w' := H.step e w b w' ∧ ev e w b = none

/-- Every event of the log satisfies `P` together with the events before it. -/
def Chronicle (P : List Ev → Ev → Prop) (log : List Ev) : Prop :=
  ∀ before e after, log = before ++ e :: after → P before e

theorem chronicle_nil (P : List Ev → Ev → Prop) : Chronicle P [] := by
  intro before e after h
  simp at h

theorem chronicle_concat {P : List Ev → Ev → Prop} {log : List Ev} {e : Ev} :
    Chronicle P (log ++ [e]) ↔ Chronicle P log ∧ P log e := by
  constructor
  · intro h
    exact ⟨fun before t after ht => h before t (after ++ [e]) (by simp [ht]), h log e [] rfl⟩
  · rintro ⟨h, he⟩ before t after ht
    rcases List.eq_nil_or_concat after with rfl | ⟨after', u, rfl⟩
    · obtain ⟨rfl, heq⟩ := List.append_inj' ht rfl
      cases heq
      exact he
    · have ht' : log ++ [e] = (before ++ t :: after') ++ [u] := by simpa using ht
      obtain ⟨rfl, -⟩ := List.append_inj' ht' rfl
      exact h before t after' rfl

theorem Chronicle.mono {P Q : List Ev → Ev → Prop} {log : List Ev} (h : Chronicle P log)
    (hPQ : ∀ before e, P before e → Q before e) : Chronicle Q log :=
  fun before e after ht => hPQ before e (h before e after ht)

/-- A run beside a second state is a run. -/
theorem Run.ofBeside {H : Handler E W} {T : {β : Type} → E β → Γ → β → Γ → Prop}
    {p : Prog E ε α} {w w' : W × Γ} {o : Option (Except ε α)} (h : Run (H.beside T) p w o w') :
    Run H p w.1 o w'.1 := by
  refine h.map fun e x b y hs => ?_
  exact hs.1

/-- The log only grows. -/
theorem Run.log_prefix {H : Handler E W} {ev : {β : Type} → E β → W → β → Option Ev}
    {p : Prog E ε α} {w w' : W × List Ev} {o : Option (Except ε α)}
    (h : Run (H.logged ev) p w o w') : w.2 <+: w'.2 := by
  refine h.keeps (J := fun x => w.2 <+: x.2) (fun e x b x' hx hs => ?_) List.prefix_rfl
  rw [hs.2]
  exact hx.trans (List.prefix_append _ _)

/-- A run that adds nothing to the log is one in which nothing is seen. -/
theorem Run.silent {H : Handler E W} {ev : {β : Type} → E β → W → β → Option Ev}
    {p : Prog E ε α} {w w' : W × List Ev} {o : Option (Except ε α)}
    (h : Run (H.logged ev) p w o w') (hlog : w'.2 = w.2) : Run (H.silent ev) p w.1 o w'.1 := by
  have hmiddle : ∀ {x y z : W × List Ev}, x.2 <+: y.2 → y.2 <+: z.2 → z.2 = x.2 →
      y.2 = x.2 ∧ z.2 = y.2 := by
    intro x y z hxy hyz hzx
    rw [hzx] at hyz
    have heq := hyz.eq_of_length_le hxy.length_le
    exact ⟨heq, hzx.trans heq.symm⟩
  induction h with
  | cut => exact .cut _ _
  | pure => exact .pure _ _
  | fail => exact .fail _ _
  | op hs rest ih =>
    have hgrown : _ <+: _ := hs.2 ▸ List.prefix_append _ _
    obtain ⟨hmid, hend⟩ := hmiddle hgrown rest.log_prefix hlog
    refine .op ⟨hs.1, ?_⟩ (ih hend)
    have hnone := hs.2.symm.trans hmid
    simpa using hnone
  | loopCut _ ih => exact .loopCut (ih hlog)
  | loopFail _ ih => exact .loopFail (ih hlog)
  | loopNext turn rest ih₁ ih₂ =>
    obtain ⟨hmid, hend⟩ := hmiddle turn.log_prefix rest.log_prefix hlog
    exact .loopNext (ih₁ hmid) (ih₂ hend)
  | loopDone turn rest ih₁ ih₂ =>
    obtain ⟨hmid, hend⟩ := hmiddle turn.log_prefix rest.log_prefix hlog
    exact .loopDone (ih₁ hmid) (ih₂ hend)

end Logs

/-! ## Running a program on concrete answers -/

/-- A deterministic way to answer operations; `none` leaves the program waiting. -/
structure Oracle (E : Type → Type) (W : Type*) where
  answer : {β : Type} → E β → W → Option (β × W)

section Execution

variable {E : Type → Type} {ε α : Type} {W : Type*}

/-- Run a program on the answers of an oracle. The fuel bounds the length of the run; a
run that is out of fuel is cut. -/
def Prog.exec (ω : Oracle E W) : {α : Type} → Nat → Prog E ε α → W → Option (Except ε α) × W
  | _, 0, _, w => (none, w)
  | _, _ + 1, .pure a, w => (some (.ok a), w)
  | _, _ + 1, .fail e, w => (some (.error e), w)
  | _, n + 1, .op e k, w =>
    match ω.answer e w with
    | none => (none, w)
    | some (b, w') => (k b).exec ω n w'
  | _, n + 1, .loop body s k, w =>
    match (body s).exec ω n w with
    | (none, w') => (none, w')
    | (some (.error e), w') => (some (.error e), w')
    | (some (.ok (.inl s')), w') => (Prog.loop body s' k).exec ω n w'
    | (some (.ok (.inr b)), w') => (k b).exec ω n w'

/-- What an oracle computes is a run of every handler that allows its answers. -/
theorem exec_run {ω : Oracle E W} {H : Handler E W}
    (hω : ∀ {β : Type} (e : E β) w b w', ω.answer e w = some (b, w') → H.step e w b w')
    (n : Nat) (p : Prog E ε α) (w : W) : Run H p w (p.exec ω n w).1 (p.exec ω n w).2 := by
  induction n generalizing α p w with
  | zero => exact .cut _ _
  | succ n ih =>
    cases p with
    | pure a => exact .pure a w
    | fail e => exact .fail e w
    | op e k =>
      rw [Prog.exec]
      cases ha : ω.answer e w with
      | none => exact .cut _ _
      | some q => exact .op (hω e w q.1 q.2 ha) (ih _ _)
    | loop body s k =>
      rw [Prog.exec]
      have turn := ih (body s) w
      generalize (body s).exec ω n w = q at turn
      obtain ⟨o, w'⟩ := q
      cases o with
      | none => exact .loopCut turn
      | some r =>
        cases r with
        | error e => exact .loopFail turn
        | ok x =>
          cases x with
          | inl s' => exact .loopNext turn (ih _ _)
          | inr b => exact .loopDone turn (ih _ _)

end Execution

/-! ## A world that only answers -/

section Answers

variable {E : Type → Type} {ε α β : Type} {W : Type*} {answer : {β : Type} → E β → β}

/-- A world that does not change and has one answer to each operation. -/
def Handler.answering (W : Type*) (answer : {β : Type} → E β → β) : Handler E W where
  step e w b w' := b = answer e ∧ w' = w

/-- A program without loops that ends with this result on these answers. -/
def Prog.Yields (answer : {β : Type} → E β → β) : {α : Type} → Prog E ε α → Except ε α → Prop
  | _, .pure a, r => r = .ok a
  | _, .fail e, r => r = .error e
  | _, .op e k, r => (k (answer e)).Yields answer r
  | _, .loop _ _ _, _ => False

theorem Prog.yields_bind {p : Prog E ε α} {f : α → Prog E ε β} {a : α} {r : Except ε β}
    (hp : p.Yields answer (.ok a)) (hf : (f a).Yields answer r) :
    (p.bind f).Yields answer r := by
  induction p with
  | pure b => cases hp; exact hf
  | fail e => cases hp
  | op e k ih => exact ih _ hp hf
  | loop body s k => exact hp.elim

theorem Prog.yields_perform {e : E α} :
    (perform e : Prog E ε α).Yields answer (.ok (answer e)) := rfl

/-- Such a program has no other run that ends. -/
theorem Prog.Yields.run_iff {p : Prog E ε α} {r o : Except ε α} {w w' : W}
    (hp : p.Yields answer r) :
    Run (Handler.answering W answer) p w (some o) w' ↔ o = r ∧ w' = w := by
  induction p with
  | pure a =>
    cases hp
    rw [run_pure]
    simp [and_comm]
  | fail e =>
    cases hp
    rw [run_fail]
    simp [and_comm]
  | op e k ih =>
    rw [run_op, ← ih _ hp]
    constructor
    · rintro (⟨ho, _⟩ | ⟨b, w1, ⟨rfl, rfl⟩, hrest⟩)
      · cases ho
      · exact hrest
    · exact fun hrest => Or.inr ⟨_, w, ⟨rfl, rfl⟩, hrest⟩
  | loop body s k => exact hp.elim

end Answers

end Foundrix.Effect

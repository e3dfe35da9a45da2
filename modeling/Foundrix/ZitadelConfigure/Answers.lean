import Foundrix.Effect.Wp
import Foundrix.ZitadelConfigure.Client

/-!
# Answers of a server

How a call may be answered, whatever it is that the server keeps, and what the client makes of
it.

* `Reads`, `Changes`: calls that tell something, and calls with an effect.
* `Answer.Precondition`: the refusals that `request` takes for successes.
* `Tells`, `Does`: the same, from a server of which no refusal misleads the client.
* `request_spec`: a call by what its answers do.
-/

namespace Foundrix.ZitadelConfigure

open Effect

variable {W : Type*} {α : Type}

/-- An answer that tells something and changes nothing. -/
def Reads (P : α → Prop) (answer : Answer α) (w w' : W) : Prop :=
  w' = w ∧ ∀ a, answer = .ok a → P a

/-- An answer to a call with an effect, which may have had it without a success. -/
def Changes (E : α → W → Prop) (answer : Answer α) (w w' : W) : Prop :=
  match answer with
  | .ok a => E a w'
  | _ => w' = w ∨ ∃ a, E a w'

theorem Changes.cases {E : α → W → Prop} {answer : Answer α} {w w' : W}
    (h : Changes E answer w w') : w' = w ∨ ∃ a, E a w' := by
  cases answer with
  | ok a => exact Or.inr ⟨a, h⟩
  | refused status text => exact h
  | failed message => exact h

/-- A refusal that the client takes for the answer that nothing was to be done. -/
def Answer.Precondition : Answer α → Prop
  | .refused status text => preconditionFailed status text = true
  | _ => False

/-- An answer to a question, which is no refusal that counts as one. -/
def Tells (P : α → Prop) (answer : Answer α) (w w' : W) : Prop :=
  ¬ answer.Precondition ∧ Reads P answer w w'

/-- An answer to a call with an effect. Where it says that nothing was to be done, nothing was. -/
def Does (E : W → W → Prop) (answer : Answer Unit) (w w' : W) : Prop :=
  Changes (fun _ => E w) answer w w' ∧ (answer.Precondition → E w w)

/-- What a call that was answered has brought about. -/
theorem Does.effect {E : W → W → Prop} {b : Answer Unit} {w w' : W} (h : Does E b w w')
    (hb : b = .ok () ∨ b.Precondition) : E w w' := by
  obtain ⟨hchanges, hpre⟩ := h
  rcases hb with rfl | hb
  · exact hchanges
  · rcases hchanges.cases with rfl | ⟨-, h⟩
    · exact hpre hb
    · exact h

/-- A call, by what its answers do: the value comes from a success or from the body of a
refusal that counts as one. -/
theorem request_spec {H : Handler Op W} {c : Api (Answer α)} {I : W → Prop}
    {Q : α → W → Prop} {x : W} (hI : I x) (h : ∀ b y, H.step (.inl c) x b y → I y)
    (hQ : ∀ b a y, H.step (.inl c) x b y →
      b = .ok a ∨ (b.Precondition ∧ c.ofErrorBody = some (.ok a)) → Q a y) :
    wpOk H I (request c) Q x := by
  refine wp_step hI fun b y hs => ?_
  have hy := h b y hs
  cases b with
  | ok a => exact wpOk_pure hy (hQ _ a y hs (Or.inl rfl))
  | failed message => exact wpOk_fail hy
  | refused status text =>
    dsimp only
    by_cases hpre : preconditionFailed status text = true
    · rw [if_pos hpre]
      split
      · rename_i a ha
        exact wpOk_pure hy (hQ _ a y hs (Or.inr ⟨hpre, ha⟩))
      · exact wpOk_fail hy
    · rw [if_neg hpre]
      exact wpOk_fail hy

/-- A question changes nothing, and its value is what the server tells. -/
theorem request_tells {H : Handler Op W} {c : Api (Answer α)} {P : α → Prop} {x : W}
    (h : ∀ b y, H.step (.inl c) x b y → Tells P b x y) :
    wpOk H (fun y => y = x) (request c) (fun a _ => P a) x := by
  refine request_spec rfl (fun b y hs => (h b y hs).2.1) fun b a y hs hb => ?_
  rcases hb with rfl | ⟨hb, -⟩
  · exact (h _ y hs).2.2 a rfl
  · exact absurd hb (h b y hs).1

/-- A call that is refused for good, or that has its effect. -/
theorem request_effects {H : Handler Op W} {c : Api (Answer α)} {E : α → W → Prop} {x : W}
    (h : ∀ b y, H.step (.inl c) x b y → ¬ b.Precondition ∧ Changes E b x y) :
    wpOk H (fun y => y = x ∨ ∃ a, E a y) (request c) E x := by
  refine request_spec (Or.inl rfl) (fun b y hs => (h b y hs).2.cases) fun b a y hs hb => ?_
  rcases hb with rfl | ⟨hb, -⟩
  · exact (h _ y hs).2
  · exact absurd hb (h b y hs).1

theorem request_does {H : Handler Op W} {c : Api (Answer Unit)} {E : W → W → Prop} {x : W}
    (h : ∀ b y, H.step (.inl c) x b y → Does E b x y) :
    wpOk H (fun y => y = x ∨ E x y) (request c) (fun _ y => E x y) x := by
  refine request_spec (Or.inl rfl) (fun b y hs => ?_) fun b _ y hs hb =>
    (h b y hs).effect (hb.imp_right And.left)
  rcases (h b y hs).1.cases with heq | ⟨-, he⟩
  · exact Or.inl heq
  · exact Or.inr he

/-- Where no refusal counts as a success, a call that ends well was answered by one. -/
theorem run_request_ok {β : Type} {H : Handler Op W} {c : Api (Answer α)} {k : α → Script β}
    {o : β} {w w' : W} (hH : ∀ b v, H.step (.inl c) w b v → ¬ b.Precondition) :
    Run H ((request c).bind k) w (some (.ok o)) w' ↔
      ∃ a v, H.step (.inl c) w (.ok a) v ∧ Run H (k a) v (some (.ok o)) w' := by
  rw [show (request c).bind k = .op (.inl c) _ from rfl, run_op]
  constructor
  · rintro (⟨h, -⟩ | ⟨b, v, hstep, hrest⟩)
    · cases h
    · cases b with
      | ok a => exact ⟨a, v, hstep, hrest⟩
      | failed message => exact absurd (run_fail.mp hrest).2 (by simp)
      | refused status text =>
        have hpre : ¬ preconditionFailed status text = true := hH _ v hstep
        dsimp only [Prog.bind] at hrest
        simp only [if_neg hpre] at hrest
        exact absurd (run_fail.mp hrest).2 (by simp)
  · rintro ⟨a, v, hstep, hrest⟩
    exact Or.inr ⟨.ok a, v, hstep, hrest⟩

/-! ## Programs that keep to some operations -/

section Only

variable {P : {β : Type} → Op β → Prop}

theorem only_orFail (r : Except Failure α) : (Prog.orFail r : Script α).Only P := by
  cases r <;> trivial

theorem only_defined (v : Option α) : (defined v).Only P := by
  cases v <;> trivial

theorem only_request {c : Api (Answer α)} (hc : P (.inl c)) : (request c).Only P := by
  refine Prog.only_bind (Prog.only_perform hc) fun b => ?_
  cases b with
  | ok a => trivial
  | failed message => trivial
  | refused status text =>
    dsimp only
    split <;> trivial

theorem only_deno {f : Deno (Except Failure α)} (hf : P (.inr f)) : (deno f).Only P :=
  ⟨hf, fun r => only_orFail r⟩

end Only

end Foundrix.ZitadelConfigure

import Foundrix.Effect.Prog

/-!
# Two runs in lockstep

`Together` compares every run of one program with every run of another. What a world has
shown is compared by a preorder `le`; a property `A` may be assumed of the world in which
the first run stands, and so of all worlds before it.

Where both runs ended, `Q` holds of the two results and worlds. Where only one ended, it
has shown at least what the other one has, and of two runs that were both cut one has shown
at least what the other has.

* `together_bind`, `together_iterate`: the rules of sequence and loop.
* `together_same`: one program, whose operations answer alike.
-/

namespace Foundrix.Effect

variable {E : Type → Type} {ε α α₁ α₂ β₁ β₂ σ₁ σ₂ : Type} {W : Type*}

/-- How two runs compare, by their outcomes. -/
def Agree (le : W → W → Prop) (Q : Except ε α₁ → W → Except ε α₂ → W → Prop) :
    Option (Except ε α₁) → W → Option (Except ε α₂) → W → Prop
  | some r₁, w₁, some r₂, w₂ => Q r₁ w₁ r₂ w₂
  | none, w₁, some _, w₂ => le w₁ w₂
  | some _, w₁, none, w₂ => le w₂ w₁
  | none, w₁, none, w₂ => le w₁ w₂ ∨ le w₂ w₁

/-- Every run of `p₁` from `w₁` and every run of `p₂` from `w₂` agree. -/
def Together (H : Handler E W) (le : W → W → Prop) (A : W → Prop) (p₁ : Prog E ε α₁)
    (p₂ : Prog E ε α₂) (Q : Except ε α₁ → W → Except ε α₂ → W → Prop) (w₁ w₂ : W) : Prop :=
  ∀ o₁ w₁' o₂ w₂', Run H p₁ w₁ o₁ w₁' → Run H p₂ w₂ o₂ w₂' → A w₁' →
    Agree le Q o₁ w₁' o₂ w₂'

/-- A run that was cut agrees with one that has shown more. -/
theorem agree_of_cut {le : W → W → Prop} {Q : Except ε α₁ → W → Except ε α₂ → W → Prop}
    {w₁ w₂ : W} (o₂ : Option (Except ε α₂)) (h : le w₁ w₂) : Agree le Q none w₁ o₂ w₂ := by
  cases o₂ with
  | none => exact Or.inl h
  | some => exact h

theorem agree_cut_of {le : W → W → Prop} {Q : Except ε α₁ → W → Except ε α₂ → W → Prop}
    {w₁ w₂ : W} (o₁ : Option (Except ε α₁)) (h : le w₂ w₁) : Agree le Q o₁ w₁ none w₂ := by
  cases o₁ with
  | none => exact Or.inr h
  | some => exact h

section Outcomes

variable {le : W → W → Prop} {Q : Except ε α₁ → W → Except ε α₂ → W → Prop} {w₁ w₂ : W}
  {o₁ : Option (Except ε α₁)} {o₂ : Option (Except ε α₂)}

theorem Agree.ended {r₁ : Except ε α₁} {r₂ : Except ε α₂} (h : Agree le Q o₁ w₁ o₂ w₂)
    (h₁ : o₁ = some r₁) (h₂ : o₂ = some r₂) : Q r₁ w₁ r₂ w₂ := by
  subst h₁ h₂
  exact h

theorem Agree.cut (h : Agree le Q o₁ w₁ o₂ w₂) (h₁ : o₁ = none) (h₂ : o₂ = none) :
    le w₁ w₂ ∨ le w₂ w₁ := by
  subst h₁ h₂
  exact h

end Outcomes

/-- What the comparison rests on: `le` is a preorder along which every run goes up, and
`A` holds of all worlds before one in which it holds. -/
structure Comparison (H : Handler E W) (le : W → W → Prop) (A : W → Prop) : Prop where
  refl : ∀ w, le w w
  trans : ∀ {w₁ w₂ w₃}, le w₁ w₂ → le w₂ w₃ → le w₁ w₃
  shown : ∀ {β : Type} {e : E β} {w b w'}, H.step e w b w' → le w w'
  back : ∀ {β : Type} {e : E β} {w b w'}, H.step e w b w' → A w' → A w

/-- The first turn of a loop's run. -/
theorem run_iterate_cases {H : Handler E W} {σ : Type} {body : σ → Prog E ε (σ ⊕ α)} {s : σ}
    {w w' : W} {o : Option (Except ε α)} (h : Run H (Prog.iterate body s) w o w') :
    (o = none ∧ Run H (body s) w none w') ∨
    (∃ e, o = some (.error e) ∧ Run H (body s) w (some (.error e)) w') ∨
    (∃ s' v, Run H (body s) w (some (.ok (.inl s'))) v ∧ Run H (Prog.iterate body s') v o w') ∨
    ∃ a, Run H (body s) w (some (.ok (.inr a))) w' ∧ (o = none ∨ o = some (.ok a)) := by
  unfold Prog.iterate at h
  generalize hq : Prog.loop body s Prog.pure = q at h
  cases h with
  | cut => exact Or.inl ⟨rfl, .cut _ _⟩
  | pure => cases hq
  | fail => cases hq
  | op => cases hq
  | loopCut turn => cases hq; exact Or.inl ⟨rfl, turn⟩
  | loopFail turn => cases hq; exact Or.inr (Or.inl ⟨_, rfl, turn⟩)
  | loopNext turn rest => cases hq; exact Or.inr (Or.inr (Or.inl ⟨_, _, turn, rest⟩))
  | loopDone turn rest =>
    cases hq
    obtain ⟨rfl, ho⟩ := run_pure.mp rest
    exact Or.inr (Or.inr (Or.inr ⟨_, turn, ho⟩))

section Rules

variable {H : Handler E W} {le : W → W → Prop} {A : W → Prop} (C : Comparison H le A)
  {p₁ : Prog E ε α₁} {p₂ : Prog E ε α₂} {f₁ : α₁ → Prog E ε β₁} {f₂ : α₂ → Prog E ε β₂}
  {w₁ w₂ : W}

theorem together_pure {a₁ : α₁} {a₂ : α₂} {Q : Except ε α₁ → W → Except ε α₂ → W → Prop}
    (h₁₂ : le w₁ w₂) (h₂₁ : le w₂ w₁) (hQ : Q (.ok a₁) w₁ (.ok a₂) w₂) :
    Together H le A (.pure a₁) (.pure a₂) Q w₁ w₂ := by
  intro o₁ w₁' o₂ w₂' r₁ r₂ _
  obtain ⟨rfl, rfl | rfl⟩ := run_pure.mp r₁ <;> obtain ⟨rfl, rfl | rfl⟩ := run_pure.mp r₂
  · exact Or.inl h₁₂
  · exact h₁₂
  · exact h₂₁
  · exact hQ

theorem together_fail {e₁ e₂ : ε} {Q : Except ε α₁ → W → Except ε α₂ → W → Prop}
    (h₁₂ : le w₁ w₂) (h₂₁ : le w₂ w₁) (hQ : Q (.error e₁) w₁ (.error e₂) w₂) :
    Together H le A (.fail e₁) (.fail e₂) Q w₁ w₂ := by
  intro o₁ w₁' o₂ w₂' r₁ r₂ _
  obtain ⟨rfl, rfl | rfl⟩ := run_fail.mp r₁ <;> obtain ⟨rfl, rfl | rfl⟩ := run_fail.mp r₂
  · exact Or.inl h₁₂
  · exact h₁₂
  · exact h₂₁
  · exact hQ

theorem together_mono {Q Q' : Except ε α₁ → W → Except ε α₂ → W → Prop}
    (h : Together H le A p₁ p₂ Q w₁ w₂)
    (hQ : ∀ r₁ w₁' r₂ w₂', A w₁' → Q r₁ w₁' r₂ w₂' → Q' r₁ w₁' r₂ w₂') :
    Together H le A p₁ p₂ Q' w₁ w₂ := by
  intro o₁ w₁' o₂ w₂' r₁ r₂ hA
  have := h o₁ w₁' o₂ w₂' r₁ r₂ hA
  rcases o₁ with _ | a₁ <;> rcases o₂ with _ | a₂
  · exact this
  · exact this
  · exact this
  · exact hQ _ _ _ _ hA this

include C

theorem Comparison.run_shown {p : Prog E ε α} {w w' : W} {o : Option (Except ε α)}
    (h : Run H p w o w') : le w w' :=
  h.keeps (J := le w) (fun _ _ _ _ hw hs => C.trans hw (C.shown hs)) (C.refl w)

theorem Comparison.run_back {p : Prog E ε α} {w w' : W} {o : Option (Except ε α)}
    (h : Run H p w o w') (hA : A w') : A w :=
  h.keeps (J := fun x => A x → A w) (fun _ _ _ _ hw hs hx => hw (C.back hs hx)) id hA

/-- One operation each, and what follows their answers. -/
theorem together_step {γ₁ γ₂ : Type} {e₁ : E γ₁} {e₂ : E γ₂} {g₁ : γ₁ → Prog E ε α₁}
    {g₂ : γ₂ → Prog E ε α₂} {Q : Except ε α₁ → W → Except ε α₂ → W → Prop}
    (h₁₂ : le w₁ w₂) (h₂₁ : le w₂ w₁)
    (h : ∀ b₁ w₁' b₂ w₂', H.step e₁ w₁ b₁ w₁' → H.step e₂ w₂ b₂ w₂' → A w₁' →
      Together H le A (g₁ b₁) (g₂ b₂) Q w₁' w₂') :
    Together H le A ((Prog.perform e₁).bind g₁) ((Prog.perform e₂).bind g₂) Q w₁ w₂ := by
  intro o₁ w₁' o₂ w₂' r₁ r₂ hA
  rcases run_op.mp r₁ with ⟨rfl, rfl⟩ | ⟨b₁, v₁, s₁, r₁⟩ <;>
    rcases run_op.mp r₂ with ⟨rfl, rfl⟩ | ⟨b₂, v₂, s₂, r₂⟩
  · exact Or.inl h₁₂
  · exact agree_of_cut _ (C.trans h₁₂ (C.trans (C.shown s₂) (C.run_shown r₂)))
  · exact agree_cut_of _ (C.trans h₂₁ (C.trans (C.shown s₁) (C.run_shown r₁)))
  · exact h b₁ v₁ b₂ v₂ s₁ s₂ (C.run_back r₁ hA) o₁ w₁' o₂ w₂' r₁ r₂ hA

theorem together_bind {Q : Except ε β₁ → W → Except ε β₂ → W → Prop}
    (h : Together H le A p₁ p₂ (fun r₁ w₁' r₂ w₂' => match r₁, r₂ with
      | .ok a₁, .ok a₂ => Together H le A (f₁ a₁) (f₂ a₂) Q w₁' w₂'
      | .error e₁, .error e₂ => Q (.error e₁) w₁' (.error e₂) w₂'
      | _, _ => False) w₁ w₂) : Together H le A (p₁.bind f₁) (p₂.bind f₂) Q w₁ w₂ := by
  intro o₁ w₁' o₂ w₂' r₁ r₂ hA
  rcases run_bind.mp r₁ with ⟨rfl, s₁⟩ | ⟨e₁, rfl, s₁⟩ | ⟨a₁, v₁, s₁, t₁⟩ <;>
    rcases run_bind.mp r₂ with ⟨rfl, s₂⟩ | ⟨e₂, rfl, s₂⟩ | ⟨a₂, v₂, s₂, t₂⟩
  · exact h _ _ _ _ s₁ s₂ hA
  · exact h _ _ _ _ s₁ s₂ hA
  · exact agree_of_cut _ (C.trans (h _ _ _ _ s₁ s₂ hA) (C.run_shown t₂))
  · exact h _ _ _ _ s₁ s₂ hA
  · exact h _ _ _ _ s₁ s₂ hA
  · exact (h _ _ _ _ s₁ s₂ hA).elim
  · exact agree_cut_of _ (C.trans (h _ _ _ _ s₁ s₂ (C.run_back t₁ hA)) (C.run_shown t₁))
  · exact (h _ _ _ _ s₁ s₂ (C.run_back t₁ hA)).elim
  · exact h _ _ _ _ s₁ s₂ (C.run_back t₁ hA) _ _ _ _ t₁ t₂ hA

/-- A sequence, by a condition `R` on how the two first parts end. -/
theorem together_seq {R : Except ε α₁ → W → Except ε α₂ → W → Prop}
    {Q : Except ε β₁ → W → Except ε β₂ → W → Prop} (h : Together H le A p₁ p₂ R w₁ w₂)
    (hf : ∀ r₁ w₁' r₂ w₂', A w₁' → R r₁ w₁' r₂ w₂' → match r₁, r₂ with
      | .ok a₁, .ok a₂ => Together H le A (f₁ a₁) (f₂ a₂) Q w₁' w₂'
      | .error e₁, .error e₂ => Q (.error e₁) w₁' (.error e₂) w₂'
      | _, _ => False) : Together H le A (p₁.bind f₁) (p₂.bind f₂) Q w₁ w₂ :=
  together_bind C (together_mono h hf)

/-- Two loops whose turns keep a relation `J` go round together. -/
theorem together_iterate {body₁ : σ₁ → Prog E ε (σ₁ ⊕ α₁)} {body₂ : σ₂ → Prog E ε (σ₂ ⊕ α₂)}
    {s₁ : σ₁} {s₂ : σ₂} {Q : Except ε α₁ → W → Except ε α₂ → W → Prop}
    (J : σ₁ → W → σ₂ → W → Prop) (h0 : J s₁ w₁ s₂ w₂)
    (hJ : ∀ s₁ w₁ s₂ w₂, J s₁ w₁ s₂ w₂ → le w₁ w₂ ∧ le w₂ w₁)
    (turn : ∀ s₁ w₁ s₂ w₂, A w₁ → J s₁ w₁ s₂ w₂ →
      Together H le A (body₁ s₁) (body₂ s₂) (fun r₁ w₁' r₂ w₂' => match r₁, r₂ with
        | .ok (.inl s₁'), .ok (.inl s₂') => J s₁' w₁' s₂' w₂'
        | .ok (.inr a₁), .ok (.inr a₂) => Q (.ok a₁) w₁' (.ok a₂) w₂'
        | .error e₁, .error e₂ => Q (.error e₁) w₁' (.error e₂) w₂'
        | _, _ => False) w₁ w₂) :
    Together H le A (Prog.iterate body₁ s₁) (Prog.iterate body₂ s₂) Q w₁ w₂ := by
  intro o₁ w₁' o₂ w₂' r₁ r₂ hA
  refine (run_loop_induct (motive := fun s₁ w₁ o₁ w₁' =>
    Run H (Prog.iterate body₁ s₁) w₁ o₁ w₁' ∧ (A w₁' → ∀ s₂ w₂, J s₁ w₁ s₂ w₂ →
      Run H (Prog.iterate body₂ s₂) w₂ o₂ w₂' → Agree le Q o₁ w₁' o₂ w₂'))
    ?_ ?_ ?_ ?_ ?_ r₁).2 hA s₂ w₂ h0 r₂
  · intro s₁ w₁
    refine ⟨.cut _ _, fun _ s₂ w₂ hj r₂ => ?_⟩
    exact agree_of_cut _ (C.trans (hJ _ _ _ _ hj).1 (C.run_shown r₂))
  · intro s₁ w₁ v₁ t₁
    refine ⟨.loopCut t₁, fun hA s₂ w₂ hj r₂ => ?_⟩
    have step := turn s₁ w₁ s₂ w₂ (C.run_back t₁ hA) hj
    rcases run_iterate_cases r₂ with ⟨rfl, t₂⟩ | ⟨e₂, rfl, t₂⟩ | ⟨s', v₂, t₂, rest⟩ | ⟨a₂, t₂, ho⟩
    · exact step _ _ _ _ t₁ t₂ hA
    · exact step _ _ _ _ t₁ t₂ hA
    · exact agree_of_cut _ (C.trans (step _ _ _ _ t₁ t₂ hA) (C.run_shown rest))
    · exact agree_of_cut _ (step _ _ _ _ t₁ t₂ hA)
  · intro s₁ w₁ e₁ v₁ t₁
    refine ⟨.loopFail t₁, fun hA s₂ w₂ hj r₂ => ?_⟩
    have step := turn s₁ w₁ s₂ w₂ (C.run_back t₁ hA) hj
    rcases run_iterate_cases r₂ with ⟨rfl, t₂⟩ | ⟨e₂, rfl, t₂⟩ | ⟨s', v₂, t₂, -⟩ | ⟨a₂, t₂, -⟩
    · exact step _ _ _ _ t₁ t₂ hA
    · exact step _ _ _ _ t₁ t₂ hA
    · exact (step _ _ _ _ t₁ t₂ hA).elim
    · exact (step _ _ _ _ t₁ t₂ hA).elim
  · rintro s₁ w₁ s₁' v₁ o₁ w₁' t₁ ⟨rest₁, ih⟩
    refine ⟨.loopNext t₁ rest₁, fun hA s₂ w₂ hj r₂ => ?_⟩
    have hv := C.run_back rest₁ hA
    have step := turn s₁ w₁ s₂ w₂ (C.run_back t₁ hv) hj
    rcases run_iterate_cases r₂ with ⟨rfl, t₂⟩ | ⟨e₂, rfl, t₂⟩ | ⟨s', v₂, t₂, rest⟩ | ⟨a₂, t₂, -⟩
    · exact agree_cut_of _ (C.trans (step _ _ _ _ t₁ t₂ hv) (C.run_shown rest₁))
    · exact (step _ _ _ _ t₁ t₂ hv).elim
    · exact ih hA s' v₂ (step _ _ _ _ t₁ t₂ hv) rest
    · exact (step _ _ _ _ t₁ t₂ hv).elim
  · intro s₁ w₁ a₁ v₁ o₁ w₁' t₁ rest₁
    refine ⟨.loopDone t₁ rest₁, fun hA s₂ w₂ hj r₂ => ?_⟩
    obtain ⟨rfl, ho₁⟩ := run_pure.mp rest₁
    have step := turn s₁ w₁ s₂ w₂ (C.run_back t₁ hA) hj
    rcases run_iterate_cases r₂ with ⟨rfl, t₂⟩ | ⟨e₂, rfl, t₂⟩ | ⟨s', v₂, t₂, -⟩ | ⟨a₂, t₂, ho₂⟩
    · exact agree_cut_of _ (step _ _ _ _ t₁ t₂ hA)
    · exact (step _ _ _ _ t₁ t₂ hA).elim
    · exact (step _ _ _ _ t₁ t₂ hA).elim
    · rcases ho₁ with rfl | rfl
      · rcases ho₂ with rfl | rfl
        · exact step _ _ _ _ t₁.toCut t₂.toCut hA
        · exact step _ _ _ _ t₁.toCut t₂ hA
      · rcases ho₂ with rfl | rfl
        · exact step _ _ _ _ t₁ t₂.toCut hA
        · exact step _ _ _ _ t₁ t₂ hA

omit C in
/-- Two programs that agree still agree when their results are returned. -/
theorem together_attempt {Q : Except ε (Except ε α₁) → W → Except ε (Except ε α₂) → W → Prop}
    (h : Together H le A p₁ p₂ (fun r₁ w₁' r₂ w₂' => Q (.ok r₁) w₁' (.ok r₂) w₂') w₁ w₂) :
    Together H le A p₁.attempt p₂.attempt Q w₁ w₂ := by
  intro o₁ w₁' o₂ w₂' r₁ r₂ hA
  rcases run_attempt r₁ with ⟨rfl, t₁⟩ | ⟨a₁, rfl, t₁⟩ <;>
    rcases run_attempt r₂ with ⟨rfl, t₂⟩ | ⟨a₂, rfl, t₂⟩ <;>
    exact h _ _ _ _ t₁ t₂ hA

/-- One program whose operations answer alike in related worlds. -/
theorem together_same {P : {β : Type} → E β → Prop} {R : W → W → Prop} {p : Prog E ε α}
    (hp : p.Only P) (hR : ∀ {w₁ w₂}, R w₁ w₂ → le w₁ w₂ ∧ le w₂ w₁)
    (step : ∀ {β : Type} (e : E β) w₁ b₁ w₁' w₂ b₂ w₂', P e → R w₁ w₂ → H.step e w₁ b₁ w₁' →
      H.step e w₂ b₂ w₂' → b₁ = b₂ ∧ R w₁' w₂') (h : R w₁ w₂) :
    Together H le A p p (fun r₁ w₁' r₂ w₂' => r₁ = r₂ ∧ R w₁' w₂') w₁ w₂ := by
  induction p generalizing w₁ w₂ with
  | pure a => exact together_pure (hR h).1 (hR h).2 ⟨rfl, h⟩
  | fail e => exact together_fail (hR h).1 (hR h).2 ⟨rfl, h⟩
  | op e k ih =>
    change Together H le A ((Prog.perform e).bind k) ((Prog.perform e).bind k) _ w₁ w₂
    refine together_step C (hR h).1 (hR h).2 fun b₁ w₁' b₂ w₂' s₁ s₂ _ => ?_
    obtain ⟨rfl, h'⟩ := step e _ _ _ _ _ _ hp.1 h s₁ s₂
    exact ih b₁ (hp.2 b₁) h'
  | loop body s k ihbody ih =>
    change Together H le A ((Prog.iterate body s).bind k) ((Prog.iterate body s).bind k) _ w₁ w₂
    refine together_seq C (together_iterate C
      (Q := fun r₁ w₁' r₂ w₂' => r₁ = r₂ ∧ R w₁' w₂')
      (fun s₁ w₁ s₂ w₂ => s₁ = s₂ ∧ R w₁ w₂) ⟨rfl, h⟩ (fun _ _ _ _ hj => hR hj.2) ?_) ?_
    · rintro s₁ w₁ _ w₂ - ⟨rfl, hw⟩
      refine together_mono (ihbody s₁ (hp.1 s₁) hw) ?_
      rintro (e | s' | b) v₁ _ v₂ - ⟨rfl, hv⟩
      · exact ⟨rfl, hv⟩
      · exact ⟨rfl, hv⟩
      · exact ⟨rfl, hv⟩
    · rintro (e | b) v₁ _ v₂ - ⟨rfl, hv⟩
      · exact ⟨rfl, hv⟩
      · exact ih b (hp.2 b) hv

end Rules

end Foundrix.Effect

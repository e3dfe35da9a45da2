import Foundrix.Effect.Wp
import Foundrix.Machine.Trace

/-!
# Programs that bring a state about

A program that is run again and again, each time until it has ended, has failed or was cut.

* `Keeps`: what a complete run does not undo.
* `Reconciles`: a complete run ends in a goal, and no run that starts there changes anything.
* `Reconciles.seq`, `Reconciles.forM_pairwise`: one program after the other, where the later ones
  keep the goals of the earlier ones.
* `Reconciles.settled`: after a complete run, however the runs before it and behind it end.
-/

namespace Foundrix.Effect

open Machine

variable {E : Type → Type} {ε α β : Type} {W : Type*} {H : Handler E W}

/-- A complete run of `p` from `G` ends in `G`. -/
def Keeps (H : Handler E W) (p : Prog E ε α) (G : W → Prop) : Prop :=
  ∀ w, G w → wpOk H (fun _ => True) p (fun _ w' => G w') w

/-- A complete run of `p` ends in `G`, and a run from `G` leaves the state what it is. -/
structure Reconciles (H : Handler E W) (p : Prog E ε α) (G : W → Prop) : Prop where
  reach : ∀ w, wpOk H (fun _ => True) p (fun _ w' => G w') w
  idle : ∀ w, G w → wpOk H (fun w' => w' = w) p (fun _ _ => True) w

variable {p : Prog E ε α} {G G' : W → Prop} {P : {β : Type} → E β → Prop}

theorem Keeps.and (h : Keeps H p G) (h' : Keeps H p G') : Keeps H p fun w => G w ∧ G' w := by
  intro w hG
  exact wp_always_mono (wpOk_conj (h w hG.1) (h' w hG.2)) fun _ _ => trivial

theorem Keeps.all {ι : Sort*} {G : ι → W → Prop} (h : ∀ i, Keeps H p (G i)) :
    Keeps H p fun w => ∀ i, G i w := by
  intro w hG
  exact ⟨fun _ _ => trivial, fun r w' hrun a ha i => (h i w (hG i)).2 r w' hrun a ha⟩

theorem Keeps.imp {A : Prop} (h : A → Keeps H p G) : Keeps H p fun w => A → G w :=
  Keeps.all h

theorem keeps_pure (a : α) : Keeps H (.pure a : Prog E ε α) G :=
  fun _ hG => wpOk_pure trivial hG

theorem Keeps.seq {q : α → Prog E ε β} (hp : Keeps H p G) (hq : ∀ a, Keeps H (q a) G) :
    Keeps H (p.bind q) G :=
  fun w hG => wpOk_seq (hp w hG) fun a w' _ hG' => hq a w' hG'

theorem Keeps.forM {l : List α} {f : α → Prog E ε PUnit} (h : ∀ a ∈ l, Keeps H (f a) G) :
    Keeps H (l.forM f) G := by
  induction l with
  | nil => exact keeps_pure _
  | cons a l ih =>
    show Keeps H ((f a).bind fun _ => l.forM f) G
    exact (h a List.mem_cons_self).seq fun _ => ih fun b hb => h b (List.mem_cons_of_mem _ hb)

theorem keeps_true : Keeps H p fun _ => True :=
  fun _ _ => ⟨fun _ _ => trivial, fun _ _ _ _ _ => trivial⟩

/-- A program keeps what each of its operations keeps. -/
theorem keeps_of_only (hp : p.Only P)
    (step : ∀ {β : Type} (e : E β) w b w', P e → G w → H.step e w b w' → G w') : Keeps H p G :=
  fun _ hG => wp_always_mono (wp_mono (wp_only hp step hG) fun _ _ _ h _ _ => h) fun _ _ => trivial

/-- What only looks brings nothing about. -/
theorem reconciles_of_only (hp : p.Only P)
    (step : ∀ {β : Type} (e : E β) w b w', P e → H.step e w b w' → w' = w) :
    Reconciles H p fun _ => True := by
  refine ⟨fun w => ⟨fun _ _ => trivial, fun _ _ _ _ _ => trivial⟩, fun w _ => ?_⟩
  have hsame := wp_only (J := fun w' => w' = w) hp
    (fun e v b v' he hv hs => (step e v b v' he hs).trans hv) rfl
  exact wp_mono hsame fun _ _ _ _ _ _ => trivial

/-- One specification for both: what always holds is that nothing changes from `G`. -/
theorem reconciles_of_spec (h : ∀ w, wpOk H (fun w' => G w → w' = w) p (fun _ w' => G w') w) :
    Reconciles H p G :=
  ⟨fun w => wp_always_mono (h w) fun _ _ => trivial,
    fun w hG => wpOk_mono (wp_always_mono (h w) fun _ hw => hw hG) fun _ _ _ _ => trivial⟩

theorem Reconciles.congr (h : Reconciles H p G) (hiff : ∀ w, G' w ↔ G w) : Reconciles H p G' := by
  obtain rfl : G' = G := funext fun w => propext (hiff w)
  exact h

theorem Reconciles.seq {q : α → Prog E ε β} (hp : Reconciles H p G)
    (hq : ∀ a, Reconciles H (q a) G') (hkeeps : ∀ a, Keeps H (q a) G) :
    Reconciles H (p.bind q) fun w => G w ∧ G' w := by
  constructor
  · intro w
    apply wpOk_seq (hp.reach w)
    intro a w' _ hG
    exact wp_always_mono (wpOk_conj (hkeeps a w' hG) ((hq a).reach w')) fun _ _ => trivial
  · intro w ⟨hG, hG'⟩
    apply wpOk_seq (hp.idle w hG)
    intro a w' hsame _
    obtain rfl : w' = w := hsame
    exact (hq a).idle w' hG'

/-- A list of programs, of which each keeps the goals of those before it. -/
theorem Reconciles.forM_pairwise {l : List α} {f : α → Prog E ε PUnit} {G : α → W → Prop}
    (h : ∀ a ∈ l, Reconciles H (f a) (G a)) (hkeeps : l.Pairwise fun a b => Keeps H (f b) (G a)) :
    Reconciles H (l.forM f) fun w => ∀ a ∈ l, G a w := by
  induction l with
  | nil =>
    refine ⟨fun w => wpOk_pure trivial ?_, fun w _ => wpOk_pure rfl trivial⟩
    intro a ha
    cases ha
  | cons a l ih =>
    obtain ⟨hfirst, hrest⟩ := List.pairwise_cons.mp hkeeps
    have hlater : Reconciles H (l.forM f) fun w => ∀ a ∈ l, G a w :=
      ih (fun b hb => h b (List.mem_cons_of_mem _ hb)) hrest
    show Reconciles H ((f a).bind fun _ => l.forM f) _
    refine ((h a List.mem_cons_self).seq (fun _ => hlater) fun _ => Keeps.forM hfirst).congr
      fun w => ?_
    exact List.forall_mem_cons

theorem Reconciles.forM {l : List α} {f : α → Prog E ε PUnit} {G : α → W → Prop}
    (h : ∀ a ∈ l, Reconciles H (f a) (G a)) (hkeeps : ∀ a ∈ l, ∀ b ∈ l, Keeps H (f b) (G a)) :
    Reconciles H (l.forM f) fun w => ∀ a ∈ l, G a w :=
  Reconciles.forM_pairwise h (List.pairwise_of_forall_mem_list hkeeps)

/-- A loop of which no turn changes anything. -/
theorem idle_forM {l : List α} {f : α → Prog E ε PUnit} {w : W}
    (h : ∀ a ∈ l, wpOk H (fun w' => w' = w) (f a) (fun _ _ => True) w) :
    wpOk H (fun w' => w' = w) (l.forM f) (fun _ _ => True) w := by
  induction l with
  | nil => exact wpOk_pure rfl trivial
  | cons a l ih =>
    apply wpOk_seq (h a List.mem_cons_self)
    rintro _ w' rfl -
    exact ih fun b hb => h b (List.mem_cons_of_mem _ hb)

/-! ## Run again and again -/

/-- After a complete run the goal is reached, and the runs behind it change nothing. -/
theorem Reconciles.settled {A : Type*} {step : W → A → W → Prop} {w v u : W} {a : α}
    {l : List (W × A)} (h : Reconciles H p G) (hrun : Run H p w (some (.ok a)) v)
    (hafter : Trace step v l u) (hstep : ∀ {x b y}, (x, b) ∈ l → step x b y → ∃ o, Run H p x o y) :
    G v ∧ ∀ x ∈ visited l u, x = v := by
  have hG : G v := (h.reach w).2 _ v hrun a rfl
  refine ⟨hG, hafter.keeps_visited (J := fun x => x = v) rfl fun hmem hx hs => ?_⟩
  obtain ⟨o, hy⟩ := hstep hmem hs
  subst hx
  exact (h.idle _ hG).1 _ hy.toCut

end Foundrix.Effect

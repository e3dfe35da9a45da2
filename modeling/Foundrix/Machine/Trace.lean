import Mathlib.Data.List.Basic

/-!
# Runs of a transition system

A run is a list of actions, each with the state before it.

* `Trace.keeps`: a property that every step of the run preserves holds at its end.
* `Trace.simulates`: a run of a system that is matched step by step by another one.
* `replay`: runs of a system whose steps are computed.
-/

namespace Foundrix.Machine

variable {S A : Type*} {step : S → A → S → Prop} {s t : S} {l : List (S × A)}

/-- `l` is a run from the first state to the second one. -/
inductive Trace (step : S → A → S → Prop) : S → List (S × A) → S → Prop
  | nil (s : S) : Trace step s [] s
  | cons {s t u : S} {a : A} {l : List (S × A)} (first : step s a t) (rest : Trace step t l u) :
      Trace step s ((s, a) :: l) u

/-- The states of a run. -/
def visited (l : List (S × A)) (t : S) : List S := l.map Prod.fst ++ [t]

theorem Trace.mono {step' : S → A → S → Prop} (h : Trace step s l t)
    (hstep : ∀ {u a v}, step u a v → step' u a v) : Trace step' s l t := by
  induction h with
  | nil => exact .nil _
  | cons first _ ih => exact .cons (hstep first) ih

theorem Trace.keeps {J : S → Prop} (h : Trace step s l t) (h0 : J s)
    (hstep : ∀ {u a v}, (u, a) ∈ l → J u → step u a v → J v) : J t := by
  induction h with
  | nil => exact h0
  | cons first _ ih =>
    exact ih (hstep List.mem_cons_self h0 first) fun hm => hstep (List.mem_cons_of_mem _ hm)

theorem Trace.keeps_visited {J : S → Prop} (h : Trace step s l t) (h0 : J s)
    (hstep : ∀ {u a v}, (u, a) ∈ l → J u → step u a v → J v) : ∀ u ∈ visited l t, J u := by
  induction h with
  | nil => simpa [visited] using h0
  | cons first _ ih =>
    intro u hu
    rcases List.mem_cons.mp hu with rfl | hu
    · exact h0
    · exact ih (hstep List.mem_cons_self h0 first)
        (fun hm => hstep (List.mem_cons_of_mem _ hm)) u hu

theorem Trace.first_mem (h : Trace step s l t) : s ∈ visited l t := by
  cases h with
  | nil => exact List.mem_singleton_self _
  | cons => exact List.mem_cons_self

theorem Trace.last_mem (l : List (S × A)) (t : S) : t ∈ visited l t :=
  List.mem_append_right _ (List.mem_singleton_self t)

/-- After a step of the run comes a state of the run. -/
theorem Trace.next (h : Trace step s l t) {u : S} {a : A} (hu : (u, a) ∈ l) :
    ∃ v ∈ visited l t, step u a v := by
  induction h with
  | nil => cases hu
  | cons first rest ih =>
    rcases List.mem_cons.mp hu with he | hu
    · cases he
      exact ⟨_, List.mem_cons_of_mem _ rest.first_mem, first⟩
    · obtain ⟨v, hv, hs⟩ := ih hu
      exact ⟨v, List.mem_cons_of_mem _ hv, hs⟩

/-- The last step of a run. -/
theorem Trace.of_concat {u : S} {a : A} (h : Trace step s (l ++ [(u, a)]) t) :
    Trace step s l u ∧ step u a t := by
  induction l generalizing s with
  | nil =>
    cases h with
    | cons first rest =>
      cases rest
      exact ⟨.nil _, first⟩
  | cons p l ih =>
    cases h with
    | cons first rest =>
      obtain ⟨hl, hlast⟩ := ih rest
      exact ⟨.cons first hl, hlast⟩

theorem Trace.concat {a : A} {u : S} (h : Trace step s l t) (last : step t a u) :
    Trace step s (l ++ [(t, a)]) u := by
  induction h with
  | nil => exact .cons last (.nil _)
  | cons first _ ih => exact .cons first (ih last)

/-- Where every step is matched by a step of another system, so is every run. -/
theorem Trace.simulates {U : Type*} {step' : U → A → U → Prop} {R : U → S → Prop} {x : U}
    (h : Trace step s l t) (h0 : R x s)
    (hstep : ∀ {u a v y}, (u, a) ∈ l → R y u → step u a v → ∃ z, step' y a z ∧ R z v) :
    ∃ l' z, Trace step' x l' z ∧ l'.map Prod.snd = l.map Prod.snd ∧ R z t := by
  induction h generalizing x with
  | nil => exact ⟨[], x, .nil x, rfl, h0⟩
  | @cons s u t a l first _ ih =>
    obtain ⟨y, hy, hu⟩ := hstep List.mem_cons_self h0 first
    obtain ⟨l', z, hl', hsame, hz⟩ := ih hu fun hm => hstep (List.mem_cons_of_mem _ hm)
    refine ⟨(x, a) :: l', z, .cons hy hl', ?_, hz⟩
    rw [List.map_cons, List.map_cons, hsame]

/-- The run on these actions, where each can be taken. -/
def replay (f : S → A → Option S) : S → List A → Option (List (S × A) × S)
  | s, [] => some ([], s)
  | s, a :: as =>
    match f s a with
    | none => none
    | some t => (replay f t as).map fun r => ((s, a) :: r.1, r.2)

theorem trace_of_replay {f : S → A → Option S} {as : List A} {s : S} (h : replay f s as = some (l, t)) :
    Trace (fun s a t => f s a = some t) s l t := by
  induction as generalizing s l with
  | nil =>
    cases h
    exact .nil _
  | cons a as ih =>
    rw [replay] at h
    cases hu : f s a with
    | none => rw [hu] at h; cases h
    | some u =>
      rw [hu] at h
      obtain ⟨⟨l', t'⟩, hrest, he⟩ := Option.map_eq_some_iff.mp h
      cases he
      exact .cons hu (ih hrest)

end Foundrix.Machine

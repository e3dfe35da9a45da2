import Foundrix.Effect.Wp

/-!
# Scripts under `set -e`

A command is an operation that is answered by whether it succeeded, and a script stops at the
first one that fails.

* `must`: a command of a script.
* `wpOk_must`: a command and what follows where it succeeded.
-/

namespace Foundrix.Effect

variable {E : Type → Type} {β : Type} {W : Type*} {H : Handler E W} {I : W → Prop} {w : W}

/-- A command whose failure ends the script. -/
def must (c : E Bool) : Prog E Unit Unit := do
  if ← .perform c then return ()
  else .fail ()

theorem must_spec {c : E Bool} {R : W → Prop} (hI : I w)
    (hdone : ∀ w', H.step c w true w' → I w' ∧ R w')
    (hfailed : ∀ w', H.step c w false w' → I w') : wpOk H I (must c) (fun _ w' => R w') w := by
  apply wpOk_step hI
  intro b w' hs
  cases b with
  | true =>
    obtain ⟨hI', hR⟩ := hdone w' hs
    exact wpOk_pure hI' hR
  | false => exact wpOk_fail (hfailed w' hs)

theorem wpOk_must {c : E Bool} {f : Unit → Prog E Unit β} {R : W → Prop} {Q : β → W → Prop}
    (hI : I w) (hdone : ∀ w', H.step c w true w' → I w' ∧ R w')
    (hfailed : ∀ w', H.step c w false w' → I w')
    (hrest : ∀ w', I w' → R w' → wpOk H I (f ()) Q w') : wpOk H I ((must c).bind f) Q w :=
  wpOk_seq (must_spec hI hdone hfailed) fun _ w' hI' hR => hrest w' hI' hR

end Foundrix.Effect

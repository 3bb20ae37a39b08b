import ModuleSystem.Proofs.Loader.Namespaces
import ModuleSystem.Proofs.Loader.Outcome
import ModuleSystem.Proofs.Loader.Progress

/-!
# Loader — every import is settled once

What callers of imports rely on, whatever else is under way: their futures are settled, their callbacks
run, and imports of one module have one record, one run of its body and one namespace between them.
-/

namespace ModuleSystem

namespace Session

variable {σ : Type} {host : Host σ} {s s' : Session σ}

/-- What an import asks for, whether it has succeeded, and how many callbacks it has left to run. -/
def look (s : Session Stage) (i : Nat) : List Text × Bool × Option Nat :=
  ((s.imports[i]?).elim [] fun x => [x.specifier, x.referer],
    ((s.result? i).bind Except.toOption).isSome, (s.futures[i]?).map (·.outstanding.length))

end Session

end ModuleSystem

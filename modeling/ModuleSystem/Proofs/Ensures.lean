import ModuleSystem.Fault

/-!
# What a successful computation ensures

Reading a source stops at the first fault.  `Ensures x Q` says that whatever `x` ends with, if it ends
well, satisfies `Q`; the rules below follow the form of a computation, so that a reader made of readers
is described by what is said of its parts.
-/

namespace ModuleSystem

theorem ok_bind {ε α β : Type} (a : α) (f : α → Except ε β) : (.ok a >>= f) = f a := rfl

/-- Whatever the computation ends with satisfies `Q`. -/
def Ensures {ε α : Type} (x : Except ε α) (Q : α → Prop) : Prop := ∀ a, x = .ok a → Q a

namespace Ensures

variable {ε α β : Type} {x : Except ε α} {f : α → Except ε β} {P : α → Prop} {Q : β → Prop}

/-- A result is ensured by itself. -/
theorem ok {b : β} (h : Q b) : Ensures (.ok b : Except ε β) Q := by
  rintro _ ⟨⟩
  exact h

theorem error {e : ε} : Ensures (.error e : Except ε β) Q := by
  rintro _ ⟨⟩

/-- What the first part ensures is known to the second. -/
theorem bind (h : Ensures x P) (h' : ∀ a, P a → Ensures (f a) Q) : Ensures (x >>= f) Q := by
  cases x with
  | error e => exact error
  | ok a => exact h' a (h a rfl)

/-- The second part goes on from what the first part ends with. -/
theorem bind_ok (h : ∀ a, x = .ok a → Ensures (f a) Q) : Ensures (x >>= f) Q :=
  bind (P := fun a => x = .ok a) (fun _ => id) h

/-- A computation that is made before another one and ends well at once. -/
theorem pure_bind {a : α} (h : Ensures (f a) Q) : Ensures (Pure.pure a >>= f) Q := h

/-- A computation that is made before another one and fails. -/
theorem throw_bind {e : ε} : Ensures ((throw e : Except ε α) >>= f) Q := error

/-- A condition under which the computation fails before it goes on. -/
theorem forbid {c : Prop} [Decidable c] {e : ε} {k : Unit → Except ε β}
    (h : ¬ c → Ensures (k ()) Q) : Ensures (if c then throw e >>= k else k ()) Q := by
  split
  · exact error
  · exact h ‹_›

/-- A condition without which the computation fails before it goes on. -/
theorem require {c : Prop} [Decidable c] {e : ε} {k : Unit → Except ε β}
    (h : c → Ensures (k ()) Q) : Ensures (if c then k () else throw e >>= k) Q := by
  split
  · exact h ‹_›
  · exact error

theorem mono {R : β → Prop} {y : Except ε β} (h : Ensures y Q) (h' : ∀ b, Q b → R b) :
    Ensures y R := fun b hb => h' b (h b hb)

end Ensures

end ModuleSystem

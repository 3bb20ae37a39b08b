import ModuleSystem.Compile.Report

/-!
# Logs — what is shown does not change the verdict

A console log prints what its level lets through and falls silent at its limit, while a deferred log prints
nothing.  Both record every diagnostic and end with the same report.  Whether there are errors is told alike, too,
as long as the limit is not negative: a console counts only up to its limit, and a negative limit is reached by the
first diagnostic, even by a warning.

* `Console.Counts`: what each step of a console keeps when its limit is not negative.
* `Console.hasErrors_of_reached`: beyond the limit nothing is counted.
* `verdict_shown`: reports and errors of the two logs, and of compiling with any options.
-/

namespace ModuleSystem.Diagnostic.Console

variable {c : Console} {o : ConsoleOptions} {d : Diagnostic} {ds : List Diagnostic}

/-! ### What is recorded -/

@[simp] theorem recorded_add : (c.add d).recorded = c.recorded ++ [d] := by
  unfold add
  dsimp only
  split <;> rfl

@[simp] theorem options_add : (c.add d).options = c.options := by
  unfold add
  dsimp only
  split <;> rfl

@[simp] theorem messages_finish : c.finish.messages = c.messages := by
  unfold finish
  split <;> rfl

/-- The messages of a console are all that were added, in order. -/
@[simp] theorem messages_foldl (o : ConsoleOptions) (ds : List Diagnostic) :
    (ds.foldl add { options := o }).messages = sort ds := by
  rw [messages, recorded_foldl recorded fun _ _ => recorded_add, List.nil_append]

/-! ### What is counted -/

theorem add_of_reached (h : c.limitReached = true) : c.add d = { c with recorded := c.recorded ++ [d] } := by
  rw [add, if_pos h]

/-- Before the limit an error is counted. -/
theorem errors_add (h : ¬ c.limitReached = true) : (c.add d).errors = c.errors + d.isError.toNat := by
  rw [add, if_neg h]
  cases d.isError <;> rfl

/-- The limit is reached with the error that makes as many. -/
theorem limitReached_add (h : ¬ c.limitReached = true) : (c.add d).limitReached = true ↔
    c.options.errorLimit ≠ 0 ∧ c.options.errorLimit ≤ (c.add d).errors := by
  rw [add, if_neg h]
  simp

/-- Beyond the limit nothing is counted. -/
theorem hasErrors_of_reached (h : c.limitReached = true) (ds : List Diagnostic) :
    (ds.foldl add c).hasErrors = c.hasErrors := by
  induction ds generalizing c with
  | nil => rfl
  | cons d ds ih =>
      rw [List.foldl_cons, add_of_reached h]
      exact ih h

/-- A negative limit is reached by any diagnostic. -/
theorem limitReached_of_neg (hlimit : c.options.errorLimit < 0) : (c.add d).limitReached = true := by
  by_cases h : c.limitReached = true
  · rw [add_of_reached h]
    exact h
  · exact (limitReached_add h).2 (by omega)

/-- A console tells whether an error was recorded, and one that has reached its limit knows of an error. -/
structure Counts (c : Console) : Prop where
  hasErrors : c.hasErrors = anyError c.recorded
  reached : c.limitReached = true → c.hasErrors = true

/-- One more message may be the first error. -/
theorem anyError_concat (ds : List Diagnostic) (d : Diagnostic) :
    anyError (ds ++ [d]) = (anyError ds || d.isError) := by
  simp [anyError]

/-- Each message keeps the count. -/
theorem Counts.add (h : c.Counts) (hlimit : 0 ≤ c.options.errorLimit) : (c.add d).Counts := by
  have herrors := h.hasErrors
  by_cases hreached : c.limitReached = true
  · rw [add_of_reached hreached]
    refine ⟨?_, h.reached⟩
    have hknown := h.reached hreached
    change c.hasErrors = anyError (c.recorded ++ [d])
    rw [anyError_concat, ← herrors, hknown, Bool.true_or]
  · have hcount := errors_add (d := d) hreached
    have hlimit' := limitReached_add (d := d) hreached
    simp only [Console.hasErrors] at herrors ⊢
    refine ⟨?_, fun hnow => ?_⟩
    · rw [Console.hasErrors, recorded_add, anyError_concat, ← herrors, hcount]
      cases d.isError <;> simp
    · have := hlimit'.1 hnow
      simp only [Console.hasErrors, decide_eq_true_eq]
      omega

/-- The count is that of all messages. -/
theorem counts_foldl (hlimit : 0 ≤ o.errorLimit) (ds : List Diagnostic) :
    (ds.foldl Console.add { options := o }).Counts := by
  have hrun : (ds.foldl Console.add { options := o }).options = o ∧ (ds.foldl Console.add { options := o }).Counts :=
    List.foldlRecOn (motive := fun c : Console => c.options = o ∧ c.Counts) ds _
      ⟨rfl, rfl, fun h => nomatch h⟩ fun c hc d _ => ⟨options_add.trans hc.1, hc.2.add (hc.1 ▸ hlimit)⟩
  exact hrun.2

/-- A console with a limit that is not negative tells whether there was an error; one with a negative limit tells
whether the first diagnostic was one. -/
theorem hasErrors_foldl (o : ConsoleOptions) (ds : List Diagnostic) :
    (ds.foldl Console.add { options := o }).hasErrors = anyError (if 0 ≤ o.errorLimit then ds else ds.take 1) := by
  split
  · rename_i hlimit
    rw [(counts_foldl hlimit ds).hasErrors, recorded_foldl recorded fun _ _ => recorded_add, List.nil_append]
  · rename_i hlimit
    cases ds with
    | nil => rfl
    | cons d ds =>
        rw [List.foldl_cons, hasErrors_of_reached (limitReached_of_neg (by simpa using hlimit))]
        have hcount := @errors_add { options := o } d (by simp)
        rw [Console.hasErrors, hcount]
        cases h : d.isError <;> simp [anyError, h]

end ModuleSystem.Diagnostic.Console

namespace ModuleSystem

open Diagnostic (ConsoleOptions Console Deferred anyError)

theorem CompileReport.logged_fst (o : ConsoleOptions) (ds : List Diagnostic) :
    (logged o ds).1 = Diagnostic.sort ds := by
  unfold logged
  split <;> simp

/-- The options of a log change nothing but what is printed.  A console and a deferred log that were given the same
diagnostics end with the same report; the deferred log tells whether there was an error, and so does the console,
where a negative limit makes it look at the first diagnostic only.  Compiling a source with any two options leads to
the same errors, warnings, code, imports and exports. -/
theorem verdict_shown (o : ConsoleOptions) (ds : List Diagnostic) :
    ((ds.foldl Deferred.add {}).hasErrors = true ↔ ∃ d ∈ ds, d.severity = .error) ∧
    (ds.foldl Console.add { options := o }).hasErrors =
      (if 0 ≤ o.errorLimit then (ds.foldl Deferred.add {}).hasErrors else anyError (ds.take 1)) ∧
    (ds.foldl Console.add { options := o }).finish.messages = (ds.foldl Deferred.add {}).messages ∧
    ∀ (o' : ConsoleOptions) (s : Source) (format : Option Format),
      { CompileReport.ofSource o s format with printed := [] } =
        { CompileReport.ofSource o' s format with printed := [] } := by
  refine ⟨?_, ?_, by simp, fun o' s format => ?_⟩
  · rw [Deferred.hasErrors_foldl]
    simp [Deferred.hasErrors, anyError, Diagnostic.isError]
  · rw [Console.hasErrors_foldl, Deferred.hasErrors_foldl]
    split <;> rfl
  · simp only [CompileReport.ofSource, CompileReport.logged_fst]
    cases compile s format with
    | ok => dsimp only; split <;> rfl
    | error => rfl

/-- A warning reaches a negative limit, and the error behind it is not counted. -/
theorem negative_limit_forgets :
    let ds : List Diagnostic := [⟨.warning, "odd", none⟩, ⟨.error, "wrong", none⟩]
    (ds.foldl Console.add { options := { errorLimit := -1 } }).hasErrors = false ∧
      (ds.foldl Deferred.add {}).hasErrors = true := by
  decide

end ModuleSystem

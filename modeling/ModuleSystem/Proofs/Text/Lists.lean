import Mathlib.Order.Defs.LinearOrder
import ModuleSystem.Text

/-!
# Lists of texts

A list of texts is put into ascending order, and each text is kept once.  Neither changes which texts the
list holds.  A text that is split at a byte leads to a list of texts without it.

* `Text.pairwise_sort`: different texts are sorted in strictly ascending order.
* `Text.mem_sort`: the texts remain; `Text.nodup_eraseDups`: each text is kept once.
* `Text.notMem_of_mem_splitOn`: no piece has the byte between the pieces.
-/

namespace ModuleSystem.Text

/-! ### Ascending order -/

/-- Texts are compared byte by byte. -/
theorem compare_eq_lt_iff (a b : Text) : compare a b = .lt ↔ a < b := by
  induction a generalizing b with
  | nil =>
      cases b with
      | nil => simp
      | cons y b => exact iff_of_true rfl (List.nil_lt_cons y b)
  | cons x a ih =>
      cases b with
      | nil => exact iff_of_false (fun h => nomatch h) (List.not_lt_nil _)
      | cons y b =>
          rw [List.cons_lt_cons_iff, ← ih, ← Std.compare_eq_lt, ← Std.compare_eq_iff_eq (a := x)]
          change List.compareLex compare (x :: a) (y :: b) = _ ↔ _
          rw [List.compareLex_cons_cons, Ordering.then_eq_lt]
          rfl

theorem le_trans (a b c : Text) : le a b = true → le b c = true → le a c = true :=
  Std.TransOrd.isLE_trans

theorem le_total (a b : Text) : (le a b || le b a) = true := by
  rw [le, le, Std.OrientedOrd.eq_swap (a := b)]
  cases compare a b <;> rfl

theorem lt_of_le_of_ne {a b : Text} (h : le a b = true) (hne : a ≠ b) : a < b := by
  rw [← compare_eq_lt_iff]
  cases hc : compare a b with
  | lt => rfl
  | eq => exact absurd (Std.compare_eq_iff_eq.1 hc) hne
  | gt =>
      rw [le, hc] at h
      cases h

theorem perm_sort (ts : List Text) : (sort ts).Perm ts := List.mergeSort_perm ts le

/-- Different texts are sorted in strictly ascending order. -/
theorem pairwise_sort {ts : List Text} (h : ts.Nodup) : (sort ts).Pairwise (· < ·) := by
  have sorted : (sort ts).Pairwise fun a b => le a b = true :=
    List.pairwise_mergeSort le_trans le_total ts
  have nodup : (sort ts).Nodup := (perm_sort ts).nodup_iff.2 h
  exact (sorted.and nodup).imp fun hab => lt_of_le_of_ne hab.1 hab.2

theorem mem_sort {t : Text} {ts : List Text} : t ∈ sort ts ↔ t ∈ ts := (perm_sort ts).mem_iff

/-! ### Pieces -/

/-- A text that is split has the byte in none of its pieces. -/
theorem notMem_of_mem_splitOn {s p : Text} {x : UInt8} (h : s ∈ p.splitOn x) : x ∉ s := by
  induction p generalizing s with
  | nil =>
      obtain rfl : s = [] := by simpa using h
      simp
  | cons b p ih =>
      rw [List.splitOn, List.splitOnP_cons_eq_if_modifyHead] at h
      split at h
      · obtain rfl | h := List.mem_cons.1 h
        · simp
        · exact ih h
      · rename_i hb
        obtain ⟨u, us, heq⟩ := List.exists_cons_of_ne_nil (List.splitOnP_ne_nil (· == x) p)
        rw [heq] at h
        have hrest : ∀ s ∈ u :: us, x ∉ s := fun s hs => ih (by rw [List.splitOn, heq]; exact hs)
        obtain rfl | h := List.mem_cons.1 h
        · rw [List.mem_cons, not_or]
          exact ⟨fun hx => hb (by simp [hx]), hrest u List.mem_cons_self⟩
        · exact hrest s (List.mem_cons_of_mem _ h)

/-! ### Each text once -/

/-- What is left when repetitions are erased is distinct. -/
theorem nodup_eraseDups (ts : List Text) : ts.eraseDups.Nodup := by
  -- by induction on the length, as what is equal to the first text is left out of the others
  induction hlength : ts.length using Nat.strongRecOn generalizing ts with
  | _ n ih =>
      cases ts with
      | nil => exact .nil
      | cons t ts =>
          have hlt : (ts.filter fun u => !u == t).length < n := by
            rw [← hlength]
            exact Nat.lt_succ_of_le (List.length_filter_le _ _)
          rw [List.eraseDups_cons, List.nodup_cons]
          exact ⟨fun hmem => by simpa using List.mem_eraseDups.1 hmem, ih _ hlt _ rfl⟩

end ModuleSystem.Text

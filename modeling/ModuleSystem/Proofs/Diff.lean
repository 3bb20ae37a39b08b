import ModuleSystem.Diff
import ModuleSystem.Proofs.Text.Lists

/-!
# Differences — every line is accounted for

The difference of two lists of lines is found around a longest run that they share.  Such a run comes from a table
of which only one row is kept: the row of a line says for each line of the other list how long the runs are that end
with the two.

* `Diff.shared`: the length of the longest run at the ends of two lists; `runsEnding_row`: the next row of the table.
* `Diff.Longest`: what each row keeps; `longestRun_longest`: no run is longer.
* `Diff.lines_eq`: the difference is made of the differences before and after a longest run.
* `Diff.render_faithful`: both texts can be read off a shown difference.
-/

namespace ModuleSystem.Diff

variable {old new done rest above as bs : List Text} {line t : Text} {r best : Run} {a b i j n : Nat}

/-! ### Runs -/

/-- The lines of the run stand in both lists. -/
structure IsRun (old new : List Text) (r : Run) : Prop where
  old_le : r.old + r.len ≤ old.length
  new_le : r.new + r.len ≤ new.length
  eq : (old.drop r.old).take r.len = (new.drop r.new).take r.len

/-- The number of lines with which both lists begin. -/
def common : List Text → List Text → Nat
  | a :: as, b :: bs => if a = b then common as bs + 1 else 0
  | _, _ => 0

/-- Lists have as many lines in common at the start as are the same. -/
theorem le_common_iff : n ≤ common as bs ↔ n ≤ as.length ∧ n ≤ bs.length ∧ as.take n = bs.take n := by
  induction as generalizing bs n with
  | nil => simp +contextual [common]
  | cons a as ih =>
      cases bs with
      | nil => simp +contextual [common]
      | cons b bs =>
          cases n with
          | zero => simp
          | succ n =>
              rw [common]
              split
              · simp_all
              · simp_all

/-- The number of lines with which both lists end. -/
def shared (done above : List Text) : Nat := common done.reverse above.reverse

theorem shared_nil_left : shared [] above = 0 := by
  cases h : above.reverse <;> simp [shared, common]

theorem shared_nil_right : shared done [] = 0 := by
  cases h : done.reverse <;> simp [shared, common, h]

/-- A shared line lengthens what is shared before it. -/
theorem shared_concat :
    shared (done ++ [line]) (above ++ [t]) = if line = t then shared done above + 1 else 0 := by
  rw [shared, List.reverse_concat, List.reverse_concat, common]
  rfl

/-- What two beginnings end with is a run of the lists. -/
theorem le_shared_iff (ha : a ≤ old.length) (hb : b ≤ new.length) :
    n ≤ shared (old.take a) (new.take b) ↔ n ≤ a ∧ n ≤ b ∧ IsRun old new ⟨a - n, b - n, n⟩ := by
  have hends : ∀ {ls : List Text} {k}, k ≤ ls.length → n ≤ k →
      (ls.take k).reverse.take n = ((ls.drop (k - n)).take n).reverse := fun {ls k} hk hn => by
    rw [List.take_reverse, List.length_take, Nat.min_eq_left hk, List.drop_take, Nat.sub_sub_self hn]
  rw [shared, le_common_iff, List.length_reverse, List.length_reverse, List.length_take, List.length_take,
    Nat.min_eq_left ha, Nat.min_eq_left hb]
  refine and_congr_right fun hna => and_congr_right fun hnb => ?_
  rw [hends ha hna, hends hb hnb, List.reverse_inj]
  exact ⟨fun heq => ⟨by simp only; omega, by simp only; omega, heq⟩, fun h => h.eq⟩

/-! ### The table -/

/-- The row of the table behind some lines. -/
def row (new done : List Text) : List Nat := (List.range new.length).map fun j => shared done (new.take (j + 1))

theorem row_nil : row new [] = new.map fun _ => 0 := by
  simp only [row, shared_nil_left, List.map_const', List.length_range]

/-- One more line leads to the next row. -/
theorem runsEnding_row : runsEnding line new (row new done) = row new (done ++ [line]) := by
  refine List.ext_getElem (by simp [runsEnding, row]) fun j h₁ h₂ => ?_
  have hj : j < new.length := by simpa [row] using h₂
  have habove (h : j < (0 :: row new done).length) : (0 :: row new done)[j] = shared done (new.take j) := by
    cases j with
    | zero => exact shared_nil_right.symm
    | succ j => simp [row]
  simp only [runsEnding, List.getElem_zipWith, habove]
  rw [show (row new (done ++ [line]))[j] = shared (done ++ [line]) (new.take (j + 1)) by simp [row],
    List.take_succ_eq_append_getElem hj, shared_concat]

/-- A row has the lengths of the runs that end at its line. -/
theorem mem_zipIdx_row : (n, j) ∈ (row new done).zipIdx ↔ j < new.length ∧ n = shared done (new.take (j + 1)) := by
  rw [List.mk_mem_zipIdx_iff_getElem?, row, List.getElem?_map]
  by_cases hj : j < new.length
  · simp [hj, eq_comm]
  · simp [hj]

/-- The longest of a run and of those that end with line `i` of `old` and have the given lengths at lines of `new`. -/
def longestOf (i : Nat) (best : Run) (ends : List (Nat × Nat)) : Run :=
  ends.foldl (fun best (n, j) => longer best i j n) best

/-- A line of the old text adds its row. -/
theorem longestFrom_cons (new : List Text) (i : Nat) (above : List Nat) (best : Run) (line : Text) (old : List Text) :
    longestFrom new i above best (line :: old) = longestFrom new (i + 1) (runsEnding line new above)
      (longestOf i best (runsEnding line new above).zipIdx) old :=
  rfl

/-- The longer of two runs is no shorter than either. -/
theorem longer_spec (best : Run) (i j n : Nat) : best.len ≤ (longer best i j n).len ∧ n ≤ (longer best i j n).len ∧
    (longer best i j n = best ∨ longer best i j n = ⟨i + 1 - n, j + 1 - n, n⟩) := by
  unfold longer
  split
  · exact ⟨Nat.le_of_lt ‹_›, Nat.le_refl _, .inr rfl⟩
  · exact ⟨Nat.le_refl _, Nat.le_of_not_lt ‹_›, .inl rfl⟩

/-- The longest of the runs in a row is no shorter than any of them. -/
theorem longestOf_spec (i : Nat) (best : Run) (ends : List (Nat × Nat)) :
    best.len ≤ (longestOf i best ends).len ∧ (∀ n j, (n, j) ∈ ends → n ≤ (longestOf i best ends).len) ∧
      (longestOf i best ends = best ∨
        ∃ n j, (n, j) ∈ ends ∧ longestOf i best ends = ⟨i + 1 - n, j + 1 - n, n⟩) := by
  induction ends generalizing best with
  | nil => exact ⟨Nat.le_refl _, fun n j h => absurd h List.not_mem_nil, .inl rfl⟩
  | cons e ends ih =>
      obtain ⟨n, j⟩ := e
      have hfirst : longestOf i best ((n, j) :: ends) = longestOf i (longer best i j n) ends := rfl
      obtain ⟨hbest, hends, hfrom⟩ := ih (longer best i j n)
      obtain ⟨hkept, hlen, hlonger⟩ := longer_spec best i j n
      rw [hfirst]
      refine ⟨Nat.le_trans hkept hbest, fun m k hmem => ?_, ?_⟩
      · obtain h | h := List.mem_cons.1 hmem
        · obtain ⟨rfl, rfl⟩ := Prod.mk.inj h
          exact Nat.le_trans hlen hbest
        · exact hends m k h
      · obtain hsame | ⟨m, k, hmem, hrun⟩ := hfrom
        · rw [hsame]
          exact hlonger.imp_right fun h => ⟨n, j, List.mem_cons_self, h⟩
        · exact .inr ⟨m, k, List.mem_cons_of_mem _ hmem, hrun⟩

/-! ### The longest run -/

/-- A run, and no longer one ends within the first lines of `old`. -/
structure Longest (old new : List Text) (m : Nat) (best : Run) : Prop where
  isRun : IsRun old new best
  le : ∀ r, IsRun old new r → r.old + r.len ≤ m → r.len ≤ best.len

/-- One more row. -/
theorem Longest.next (h : Longest old new i best) (hi : i < old.length) :
    Longest old new (i + 1) (longestOf i best (row new (old.take (i + 1))).zipIdx) := by
  obtain ⟨hbest, hends, hfrom⟩ := longestOf_spec i best (row new (old.take (i + 1))).zipIdx
  refine ⟨?_, fun r hr hend => ?_⟩
  · obtain hsame | ⟨n, j, hmem, hrun⟩ := hfrom
    · rw [hsame]
      exact h.isRun
    · obtain ⟨hj, hn⟩ := mem_zipIdx_row.1 hmem
      rw [hrun]
      exact ((le_shared_iff hi hj).1 (Nat.le_of_eq hn)).2.2
  · obtain hearlier | hlast : r.old + r.len ≤ i ∨ r.old + r.len = i + 1 := by omega
    · exact Nat.le_trans (h.le r hr hearlier) hbest
    · obtain hzero | hpos := Nat.eq_zero_or_pos r.len
      · rw [hzero]
        exact Nat.zero_le _
      · obtain ⟨j, hj⟩ : ∃ j, r.new + r.len = j + 1 := ⟨r.new + r.len - 1, by omega⟩
        have hnew := hr.new_le
        have hshared : r.len ≤ shared (old.take (i + 1)) (new.take (j + 1)) := by
          refine (le_shared_iff (a := i + 1) (b := j + 1) hi (by omega)).2 ⟨by omega, by omega, ?_⟩
          rw [← hlast, ← hj, Nat.add_sub_cancel, Nat.add_sub_cancel]
          exact hr
        exact Nat.le_trans hshared (hends _ j (mem_zipIdx_row.2 ⟨by omega, rfl⟩))

/-- The longest run up to a line is the longest up to the end, when all rows are seen. -/
theorem longestFrom_longest (h : Longest (done ++ rest) new done.length best) :
    Longest (done ++ rest) new (done ++ rest).length (longestFrom new done.length (row new done) best rest) := by
  induction rest generalizing done best with
  | nil => rwa [List.append_nil] at h ⊢
  | cons line rest ih =>
      have hnext := h.next (by rw [List.length_append, List.length_cons]; omega)
      have happend : done ++ line :: rest = done ++ [line] ++ rest := (List.append_assoc done [line] rest).symm
      have hlength : done.length + 1 = (done ++ [line]).length := by
        rw [List.length_append, List.length_singleton]
      rw [longestFrom_cons, runsEnding_row]
      rw [happend, hlength, List.take_left] at hnext
      rw [happend, hlength]
      exact ih hnext

/-- No run is longer than the longest one. -/
theorem longestRun_longest (old new : List Text) : Longest old new old.length (longestRun old new) := by
  have hnone : Longest old new 0 ⟨0, 0, 0⟩ :=
    ⟨⟨Nat.zero_le _, Nat.zero_le _, rfl⟩, fun r _ hend => Nat.le_trans (Nat.le_add_left ..) hend⟩
  have hall := @longestFrom_longest new [] old _ hnone
  rwa [row_nil] at hall

theorem isRun_longestRun (old new : List Text) : IsRun old new (longestRun old new) := (longestRun_longest old new).isRun

/-! ### The marked lines -/

theorem longestRun_nil_left (new : List Text) : (longestRun [] new).len = 0 := by
  have hle := (isRun_longestRun [] new).old_le
  rw [List.length_nil] at hle
  omega

/-- Fuel for as many runs as there are old lines is never used up. -/
theorem linesWith_congr {m : Nat} (hn : old.length ≤ n) (hm : old.length ≤ m) :
    linesWith n old new = linesWith m old new := by
  induction n generalizing m old new with
  | zero =>
      obtain rfl := List.length_eq_zero_iff.1 (Nat.le_zero.1 hn)
      cases m with
      | zero => rfl
      | succ m => simp [linesWith, longestRun_nil_left]
  | succ n ih =>
      cases m with
      | zero =>
          obtain rfl := List.length_eq_zero_iff.1 (Nat.le_zero.1 hm)
          simp [linesWith, longestRun_nil_left]
      | succ m =>
          have hrun := (isRun_longestRun old new).old_le
          rw [linesWith, linesWith]
          split
          · rfl
          · rename_i hlen
            have hbefore : (old.take (longestRun old new).old).length ≤ min n m := by
              rw [List.length_take]
              omega
            have hbehind : (old.drop ((longestRun old new).old + (longestRun old new).len)).length ≤ min n m := by
              rw [List.length_drop]
              omega
            rw [ih (Nat.le_min.1 hbefore).1 (Nat.le_min.1 hbefore).2,
              ih (Nat.le_min.1 hbehind).1 (Nat.le_min.1 hbehind).2]

/-- Two lists compared around a run; without one, all their lines are removed and added. -/
def around (old new : List Text) (r : Run) : List (Mark × Text) :=
  if r.len = 0 then old.map (.removed, ·) ++ new.map (.added, ·)
  else
    lines (old.take r.old) (new.take r.new) ++ ((old.drop r.old).take r.len).map (.kept, ·)
      ++ lines (old.drop (r.old + r.len)) (new.drop (r.new + r.len))

/-- Two lists are compared around a longest run. -/
theorem lines_eq (old new : List Text) : lines old new = around old new (longestRun old new) := by
  rw [lines, linesWith_congr (Nat.le_refl _) (Nat.le_succ _), linesWith, around]
  split
  · rfl
  · have hbefore : (old.take (longestRun old new).old).length ≤ old.length := List.length_take_le' ..
    have hbehind : (old.drop ((longestRun old new).old + (longestRun old new).len)).length ≤ old.length := by
      rw [List.length_drop]
      exact Nat.sub_le ..
    rw [lines, lines, linesWith_congr hbefore (Nat.le_refl _), linesWith_congr hbehind (Nat.le_refl _)]

/-- The lines that do not have a mark. -/
def without (mark : Mark) (ls : List (Mark × Text)) : List Text := (ls.filter (·.1 ≠ mark)).map (·.2)

@[simp] theorem without_append (mark : Mark) (ls ms : List (Mark × Text)) :
    without mark (ls ++ ms) = without mark ls ++ without mark ms := by
  simp [without]

@[simp] theorem without_map (mark mark' : Mark) (ls : List Text) :
    without mark (ls.map (mark', ·)) = if mark' = mark then [] else ls := by
  split <;> simp_all [without, List.filter_map, Function.comp_def]

/-- The difference has all old lines and all new lines, each in order. -/
theorem without_lines (old new : List Text) :
    without .added (lines old new) = old ∧ without .removed (lines old new) = new := by
  induction hn : old.length using Nat.strongRecOn generalizing old new with
  | ind n ih =>
      rw [lines_eq, around]
      split
      · simp
      · rename_i hlen
        obtain ⟨hold, hnew, heq⟩ := isRun_longestRun old new
        obtain ⟨hbefore, hbefore'⟩ := ih _ (by rw [← hn, List.length_take]; omega)
          (old.take (longestRun old new).old) (new.take (longestRun old new).new) rfl
        obtain ⟨hbehind, hbehind'⟩ := ih _ (by rw [← hn, List.length_drop]; omega)
          (old.drop ((longestRun old new).old + (longestRun old new).len))
          (new.drop ((longestRun old new).new + (longestRun old new).len)) rfl
        simp only [without_append, without_map, hbefore, hbefore', hbehind, hbehind', reduceCtorEq, reduceIte]
        refine ⟨?_, ?_⟩
        · rw [List.append_assoc, ← List.drop_drop, List.take_append_drop, List.take_append_drop]
        · rw [heq, List.append_assoc, ← List.drop_drop, List.take_append_drop, List.take_append_drop]

/-- A marked line is one of the old text or of the new. -/
theorem mem_of_mem_lines {m : Mark × Text} (h : m ∈ lines old new) : m.2 ∈ old ∨ m.2 ∈ new := by
  obtain ⟨hold, hnew⟩ := without_lines old new
  by_cases hm : m.1 = .added
  · exact .inr (hnew ▸ List.mem_map.2 ⟨m, List.mem_filter.2 ⟨h, by simp [hm]⟩, rfl⟩)
  · exact .inl (hold ▸ List.mem_map.2 ⟨m, List.mem_filter.2 ⟨h, by simp [hm]⟩, rfl⟩)

/-! ### The shown difference -/

/-- The lines that begin with one of some signs, without their signs. -/
def signed (signs : Text) (shown : List Text) : List Text :=
  (shown.filter fun l => l.head?.any (· ∈ signs)).map (·.drop 1)

/-- Lines are told by their signs. -/
theorem signed_map (signs : Text) (mark : Mark) (ls : List (Mark × Text))
    (h : ∀ m : Mark, m.sign.head?.any (· ∈ signs) = true ↔ m ≠ mark) :
    signed signs (ls.map (renderLine false)) = without mark ls := by
  have hhead : ∀ m : Mark × Text, (renderLine false m).head? = m.1.sign.head? := by
    rintro ⟨_ | _ | _, l⟩ <;> rfl
  have hdrop : ∀ m : Mark × Text, (renderLine false m).drop 1 = m.2 := by
    rintro ⟨_ | _ | _, l⟩ <;> rfl
  simp only [signed, without, List.filter_map, List.map_map]
  congr 1
  · exact funext hdrop
  · refine List.filter_congr fun m _ => ?_
    rw [Function.comp_apply, hhead, Bool.eq_iff_iff, h]
    simp

/-- A line that is shown is one line. -/
theorem notMem_renderLine {m : Mark × Text} (h : 10 ∉ m.2) : 10 ∉ renderLine false m := by
  obtain ⟨mark, l⟩ := m
  rw [renderLine, if_neg Bool.false_ne_true, List.mem_append, not_or]
  exact ⟨by cases mark <;> decide, h⟩

/-- The shown difference, line by line. -/
theorem splitOn_render (old new : Text) : (render old new false).splitOn 10 =
    (lines (old.splitOn 10) (new.splitOn 10)).map (renderLine false) := by
  refine List.splitOn_intercalate 10 (fun l hl => ?_) fun hnil => ?_
  · obtain ⟨m, hm, rfl⟩ := List.mem_map.1 hl
    exact notMem_renderLine ((mem_of_mem_lines hm).elim Text.notMem_of_mem_splitOn Text.notMem_of_mem_splitOn)
  · have hold := (without_lines (old.splitOn 10) (new.splitOn 10)).1
    rw [List.map_eq_nil_iff.1 hnil] at hold
    exact List.splitOn_ne_nil 10 old hold.symm

/-- A shown difference holds both texts: its lines are kept, removed or added, and without the added ones they are the
old lines, without the removed ones the new lines, in order.  Lists of lines are compared around a run that they
share, and they share no longer one. -/
theorem render_faithful (old new : Text) :
    (∀ l ∈ (render old new false).splitOn 10, ∃ mark : Mark, mark.sign <+: l) ∧
    signed " -" ((render old new false).splitOn 10) = old.splitOn 10 ∧
    signed " +" ((render old new false).splitOn 10) = new.splitOn 10 ∧
    ∀ old new : List Text, IsRun old new (longestRun old new) ∧
      (∀ r, IsRun old new r → r.len ≤ (longestRun old new).len) ∧
      lines old new = around old new (longestRun old new) := by
  obtain ⟨hold, hnew⟩ := without_lines (old.splitOn 10) (new.splitOn 10)
  rw [splitOn_render]
  refine ⟨fun l hl => ?_, ?_, ?_, fun old new => ⟨isRun_longestRun old new, fun r hr => ?_, lines_eq old new⟩⟩
  · obtain ⟨m, -, rfl⟩ := List.mem_map.1 hl
    exact ⟨m.1, List.prefix_append ..⟩
  · rw [signed_map _ .added _ (by rintro (_ | _ | _) <;> decide), hold]
  · rw [signed_map _ .removed _ (by rintro (_ | _ | _) <;> decide), hnew]
  · exact (longestRun_longest old new).le r hr hr.old_le

/-- Lines with an empty one among them, and lines that repeat a part of these. -/
def oldLines : List Text := ["a", "", "b", "a"]

def newLines : List Text := ["", "b", "", "b", "a"]

theorem render_faithful_repeated : IsRun oldLines newLines ⟨1, 2, 3⟩ ∧ 3 ≤ (longestRun oldLines newLines).len ∧
    signed " -" ((render "a\n\nb\na" "\nb\n\nb\na" false).splitOn 10) = oldLines := by
  have hrun : IsRun oldLines newLines ⟨1, 2, 3⟩ := ⟨by decide, by decide, by decide⟩
  obtain ⟨-, hold, -, hruns⟩ := render_faithful "a\n\nb\na" "\nb\n\nb\na"
  exact ⟨hrun, (hruns oldLines newLines).2.1 _ hrun, hold.trans (by decide)⟩

end ModuleSystem.Diff

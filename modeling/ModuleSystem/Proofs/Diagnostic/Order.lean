import ModuleSystem.Proofs.Diagnostic.Locations

/-!
# Order — reports do not tell who came first

Many writers add to one log, each in its own order, and nothing says how their diagnostics come to lie
between each other.  The report does not depend on it: diagnostics of different files are told apart by their
files, and those of one file keep the order in which they were added.

* `placeOrder`: the order by file, line, column and severity; `Counted.order_eq`: it is the order of reports,
  wherever lines are counted from one and columns from zero.
* `eq_of_kept`: a list in order is known from what it holds at each place.
* `Backward`: what each step of sorting keeps.
* `Interleaves`: what writers add, in any order between them.
* `report_of_writers`: every schedule leads to the same report.
-/

namespace ModuleSystem.Diagnostic

variable {a b c d e : Diagnostic} {ds es : List Diagnostic}

/-! ### The order of places -/

/-- By file, then by line, by column and by severity; what has no location comes first. -/
def placeOrder : Diagnostic → Diagnostic → Ordering :=
  compareLex (compareOn fun d => d.location.map (·.file)) <|
    compareLex (compareOn fun d => d.location.map (·.line)) <|
      compareLex (compareOn fun d => d.location.map (·.column))
        (compareOn fun d => d.location.map fun _ => severityRank d.severity)

/-- The four things by which diagnostics are ordered. -/
def place (d : Diagnostic) : Option (Text × Int × Int × Severity) :=
  d.location.map fun l => (l.file, l.line, l.column, d.severity)

instance : Std.TransCmp placeOrder := by
  unfold placeOrder
  infer_instance

theorem severityRank_inj {s t : Severity} : severityRank s = severityRank t ↔ s = t := by
  cases s <;> cases t <;> simp [severityRank]

/-- Diagnostics of the same order have the same place. -/
theorem placeOrder_eq_eq_iff : placeOrder a b = .eq ↔ a.place = b.place := by
  simp only [placeOrder, place, compareLex, compareOn, Ordering.then_eq_eq, Std.compare_eq_iff_eq]
  cases a.location <;> cases b.location <;> simp [severityRank_inj]

/-- If it has a location, its line is counted from one and its column from zero, with numbers of 64 bits. -/
def Counted (d : Diagnostic) : Prop :=
  ∀ l ∈ d.location, (1 ≤ l.line ∧ l.line.toNat ≤ 2 ^ 63) ∧ 0 ≤ l.column ∧ l.column.toNat < 2 ^ 63

/-- The places in a source are counted so. -/
theorem counted_locate {s : Source} {offset : Nat} {length : Int} (hs : s.contents.length < 2 ^ 63)
    (hd : d.location = some (s.locate offset length)) : d.Counted := by
  rintro l hl
  obtain rfl : s.locate offset length = l := by simpa [hd] using hl
  obtain ⟨hline, hcolumn⟩ := s.locate_bounds offset length
  omega

/-- The difference of coordinates that are less than 2^63 apart has their order for its sign. -/
theorem compareCoordinates_eq {x y : Int} (h : (x - y).natAbs < 2 ^ 63) : compareCoordinates x y = compare x y := by
  have hwords : Nat.pow 2 64 = 18446744073709551616 := rfl
  have hdifference : Int.bmod (x - y) (Nat.pow 2 64) = x - y :=
    Int.bmod_eq_of_le (by omega) (by omega)
  rw [compareCoordinates, hdifference]
  simp only [compare, compareOfLessAndEq]
  split_ifs <;> first | rfl | omega

/-- Counted diagnostics are ordered by their places. -/
theorem Counted.order_eq (ha : a.Counted) (hb : b.Counted) : order a b = placeOrder a b := by
  unfold order placeOrder
  cases hla : a.location with
  | none =>
      simp only [compareLex, compareOn, hla, Option.map_none]
      cases b.location <;> rfl
  | some la =>
      cases hlb : b.location with
      | none => simp only [compareLex, compareOn, hla, hlb, Option.map_none, Option.map_some]; rfl
      | some lb =>
          have hca := ha la hla
          have hcb := hb lb hlb
          simp only [compareLex, compareOn, hla, hlb, Option.map_some,
            compareCoordinates_eq (show (la.line - lb.line).natAbs < 2 ^ 63 by omega),
            compareCoordinates_eq (show (la.column - lb.column).natAbs < 2 ^ 63 by omega)]
          rfl

/-! ### Lists in order -/

/-- Each diagnostic may stand before all that follow it. -/
def InOrder (ds : List Diagnostic) : Prop := ds.Pairwise fun a b => (placeOrder a b).isLE = true

/-- A list in order is known from what it holds at each place. -/
theorem eq_of_kept (hds : InOrder ds) (hes : InOrder es)
    (hkept : ∀ x, ds.filter (·.place = x) = es.filter (·.place = x)) : ds = es := by
  induction ds generalizing es with
  | nil =>
      cases es with
      | nil => rfl
      | cons e es => simpa using hkept e.place
  | cons d ds ih =>
      cases es with
      | nil => simpa using hkept d.place
      | cons e es =>
          obtain ⟨hd, htail⟩ := List.pairwise_cons.1 hds
          obtain ⟨he, htail'⟩ := List.pairwise_cons.1 hes
          -- each list has something at the place of the first one of the other
          have hde : (placeOrder d e).isLE = true := by
            have hmem : e ∈ (d :: ds).filter (·.place = e.place) := by simp [hkept]
            obtain rfl | hmem := List.mem_cons.1 (List.mem_filter.1 hmem).1
            · exact Std.ReflCmp.isLE_rfl
            · exact hd e hmem
          have hed : (placeOrder e d).isLE = true := by
            have hmem : d ∈ (e :: es).filter (·.place = d.place) := by simp [← hkept]
            obtain rfl | hmem := List.mem_cons.1 (List.mem_filter.1 hmem).1
            · exact Std.ReflCmp.isLE_rfl
            · exact he d hmem
          have hplace : d.place = e.place := placeOrder_eq_eq_iff.1 (Std.OrientedCmp.isLE_antisymm hde hed)
          have hfirst := hkept d.place
          simp only [List.filter_cons, hplace, decide_true, reduceIte, List.cons.injEq] at hfirst
          obtain ⟨rfl, -⟩ := hfirst
          refine congrArg (d :: ·) (ih htail htail' fun x => ?_)
          have hx := hkept x
          simp only [List.filter_cons] at hx
          split at hx
          · exact (List.cons.inj hx).2
          · exact hx

/-! ### Sorting -/

/-- A diagnostic is inserted, and no other lost. -/
theorem perm_insertLate (d : Diagnostic) (es : List Diagnostic) : (insertLate d es).Perm (d :: es) := by
  induction es with
  | nil => exact .refl _
  | cons e es ih =>
      rw [insertLate]
      split
      · exact (ih.cons e).trans (.swap d e es)
      · exact .refl _

/-- A diagnostic is inserted in order. -/
theorem sorted_insertLate (hd : d.Counted) (hes : ∀ e ∈ es, e.Counted)
    (h : es.Pairwise fun a b => (placeOrder b a).isLE = true) :
    (insertLate d es).Pairwise fun a b => (placeOrder b a).isLE = true := by
  induction es with
  | nil => exact List.pairwise_singleton ..
  | cons e es ih =>
      obtain ⟨hcounted, hrest⟩ := List.forall_mem_cons.1 hes
      obtain ⟨he, htail⟩ := List.pairwise_cons.1 h
      rw [insertLate, hd.order_eq hcounted]
      split
      · rename_i hlt
        refine List.pairwise_cons.2 ⟨fun x hx => ?_, ih hrest htail⟩
        obtain rfl | hx := List.mem_cons.1 ((perm_insertLate d es).mem_iff.1 hx)
        · rw [hlt]; rfl
        · exact he x hx
      · rename_i hle
        have hed : (placeOrder e d).isLE = true := by
          rw [show placeOrder e d = (placeOrder d e).swap from Std.OrientedCmp.eq_swap]
          revert hle
          cases placeOrder d e <;> simp
        refine List.pairwise_cons.2 ⟨fun x hx => ?_, h⟩
        obtain rfl | hx := List.mem_cons.1 hx
        · exact hed
        · exact Std.TransCmp.isLE_trans (he x hx) hed

/-- A diagnostic passes none at its own place. -/
theorem filter_insertLate (hd : d.Counted) (hes : ∀ e ∈ es, e.Counted) (x : Option (Text × Int × Int × Severity)) :
    (insertLate d es).filter (·.place = x) = (d :: es).filter (·.place = x) := by
  induction es with
  | nil => rfl
  | cons e es ih =>
      obtain ⟨hcounted, hrest⟩ := List.forall_mem_cons.1 hes
      rw [insertLate, hd.order_eq hcounted]
      split
      · rename_i hlt
        have hplace : d.place ≠ e.place := fun heq => by
          rw [placeOrder_eq_eq_iff.2 heq] at hlt
          cases hlt
        rw [List.filter_cons, ih hrest]
        simp only [List.filter_cons]
        by_cases hdx : d.place = x <;> by_cases hex : e.place = x <;> simp_all
      · rfl

/-- The second list is the first one in the order of reports, backwards. -/
structure Backward (ds es : List Diagnostic) : Prop where
  perm : es.Perm ds
  sorted : es.Pairwise fun a b => (placeOrder b a).isLE = true
  kept : ∀ x, es.filter (·.place = x) = (ds.filter (·.place = x)).reverse

/-- A diagnostic comes behind those of its place that were there before. -/
theorem Backward.insertLate (h : Backward ds es) (hd : d.Counted) (hds : ∀ e ∈ ds, e.Counted) :
    Backward (ds ++ [d]) (insertLate d es) := by
  have hes : ∀ e ∈ es, e.Counted := fun e he => hds e (h.perm.mem_iff.1 he)
  refine ⟨?_, sorted_insertLate hd hes h.sorted, fun x => ?_⟩
  · exact (perm_insertLate d es).trans ((h.perm.cons d).trans (List.perm_append_singleton d ds).symm)
  · rw [filter_insertLate hd hes, List.filter_cons, h.kept, List.filter_append, List.filter_cons]
    split <;> simp

/-- Diagnostics that are inserted one by one keep their order at each place. -/
theorem backward_foldl (hds : ∀ d ∈ ds, d.Counted) :
    Backward ds (ds.foldl (fun sorted d => Diagnostic.insertLate d sorted) []) := by
  induction ds using List.reverseRecOn with
  | nil => exact ⟨.refl _, .nil, fun _ => rfl⟩
  | append_singleton ds d ih =>
      rw [List.foldl_concat]
      obtain ⟨hds, hd⟩ := List.forall_mem_append.1 hds
      exact (ih hds).insertLate (hd d (List.mem_singleton_self d)) hds

theorem perm_sort (hds : ∀ d ∈ ds, d.Counted) : (sort ds).Perm ds :=
  (List.reverse_perm _).trans (backward_foldl hds).perm

theorem inOrder_sort (hds : ∀ d ∈ ds, d.Counted) : InOrder (sort ds) :=
  List.pairwise_reverse.2 (backward_foldl hds).sorted

/-- Sorting keeps the order of what is at one place. -/
theorem filter_sort (hds : ∀ d ∈ ds, d.Counted) (x : Option (Text × Int × Int × Severity)) :
    (sort ds).filter (·.place = x) = ds.filter (·.place = x) := by
  rw [sort, List.filter_reverse, (backward_foldl hds).kept, List.reverse_reverse]

/-- Two lists that hold the same at each place lead to the same report. -/
theorem sort_congr (hds : ∀ d ∈ ds, d.Counted) (hes : ∀ e ∈ es, e.Counted)
    (hkept : ∀ x, ds.filter (·.place = x) = es.filter (·.place = x)) : sort ds = sort es :=
  eq_of_kept (inOrder_sort hds) (inOrder_sort hes) fun x => by
    rw [filter_sort hds, filter_sort hes, hkept]

/-! ### Writers -/

/-- The lists are emptied from the front, one element at a time and in any order between them. -/
inductive Interleaves {α : Type} : List (List α) → List α → Prop where
  | done {lists : List (List α)} (h : ∀ xs ∈ lists, xs = []) : Interleaves lists []
  | next (before after : List (List α)) {x : α} {xs ys : List α} (h : Interleaves (before ++ xs :: after) ys) :
      Interleaves (before ++ (x :: xs) :: after) (x :: ys)

namespace Interleaves

variable {α : Type} {lists : List (List α)} {xs ys : List α} {p : α → Bool}

/-- Interleaving neither adds nor loses anything. -/
theorem perm (h : Interleaves lists ys) : ys.Perm lists.flatten := by
  induction h with
  | done h => rw [List.flatten_eq_nil_iff.2 h]
  | next before after _ ih =>
      simp only [List.flatten_append, List.flatten_cons, List.cons_append] at ih ⊢
      exact (ih.cons _).trans List.perm_middle.symm

theorem filter_flatten_eq_nil (h : ∀ xs ∈ lists, xs.filter p = []) : lists.flatten.filter p = [] := by
  rw [List.filter_flatten, List.flatten_eq_nil_iff, List.forall_mem_map]
  exact h

/-- What only one of the lists has keeps its order. -/
theorem filter_eq (h : Interleaves lists ys) (hp : lists.Pairwise fun xs ys => xs.filter p = [] ∨ ys.filter p = []) :
    ys.filter p = lists.flatten.filter p := by
  induction h with
  | done h => rw [List.flatten_eq_nil_iff.2 h]
  | @next before after x xs ys _ ih =>
      obtain ⟨hbefore, hcurrent, hcross⟩ := List.pairwise_append.1 hp
      obtain ⟨hcurrent, hafter⟩ := List.pairwise_cons.1 hcurrent
      have hless : (x :: xs).filter p = [] → xs.filter p = [] := by
        rw [List.filter_cons]
        split
        · exact fun h => nomatch h
        · exact id
      have hp' : (before ++ xs :: after).Pairwise fun xs ys => xs.filter p = [] ∨ ys.filter p = [] := by
        refine List.pairwise_append.2 ⟨hbefore, List.pairwise_cons.2 ⟨?_, hafter⟩, fun ws hws => ?_⟩
        · exact fun zs hzs => (hcurrent zs hzs).imp_left hless
        · obtain ⟨hfirst, hrest⟩ := List.forall_mem_cons.1 (hcross ws hws)
          exact List.forall_mem_cons.2 ⟨hfirst.imp_right hless, hrest⟩
      simp only [List.flatten_append, List.flatten_cons, List.filter_append, List.cons_append, List.filter_cons, ih hp']
      split
      · rename_i hx
        -- the lists before have nothing of the kind
        have hnone : before.flatten.filter p = [] := filter_flatten_eq_nil fun ws hws =>
          (hcross ws hws _ List.mem_cons_self).resolve_right (by simp [hx])
        rw [hnone, List.nil_append, List.nil_append]
      · rfl

/-- In lists that do not share an element of the kind, the one that has some has all. -/
theorem filter_flatten_of_mem (hxs : xs ∈ lists)
    (hp : lists.Pairwise fun xs ys => xs.filter p = [] ∨ ys.filter p = []) (hne : xs.filter p ≠ []) :
    lists.flatten.filter p = xs.filter p := by
  obtain ⟨before, after, rfl⟩ := List.append_of_mem hxs
  obtain ⟨-, hcurrent, hcross⟩ := List.pairwise_append.1 hp
  have hbefore : before.flatten.filter p = [] := filter_flatten_eq_nil fun ws hws =>
    (hcross ws hws _ List.mem_cons_self).resolve_right hne
  have hafter : after.flatten.filter p = [] := filter_flatten_eq_nil fun ws hws =>
    ((List.pairwise_cons.1 hcurrent).1 ws hws).resolve_left hne
  simp only [List.flatten_append, List.flatten_cons, List.filter_append, hbefore, hafter, List.nil_append,
    List.append_nil]

end Interleaves

/-- A writer has something to tell about places of its own file. -/
structure Writer where
  file : Text
  reported : List Diagnostic
  located : ∀ d ∈ reported, d.location.map (·.file) = some file
  counted : ∀ d ∈ reported, d.Counted

namespace Writer

variable {v w : Writer}

/-- Writers with files of different names have no place in common. -/
theorem filter_eq_nil_or (hname : v.file ≠ w.file) (x : Option (Text × Int × Int × Severity)) :
    v.reported.filter (·.place = x) = [] ∨ w.reported.filter (·.place = x) = [] := by
  by_contra hboth
  simp only [not_or, List.filter_eq_nil_iff, not_forall, decide_eq_true_eq, not_not] at hboth
  obtain ⟨⟨d, hd, hplace⟩, ⟨e, he, rfl⟩⟩ := hboth
  have hfiles : d.location.map (·.file) = e.location.map (·.file) := by
    simpa [place, Option.map_map, Function.comp_def] using congrArg (Option.map (·.1)) hplace
  rw [v.located d hd, w.located e he, Option.some.injEq] at hfiles
  exact hname hfiles

variable {writers : List Writer}

theorem pairwise_reported (hnames : (writers.map (·.file)).Nodup)
    (x : Option (Text × Int × Int × Severity)) : (writers.map (·.reported)).Pairwise fun ds es =>
      ds.filter (·.place = x) = [] ∨ es.filter (·.place = x) = [] :=
  List.pairwise_map.2 ((List.pairwise_map.1 hnames).imp fun hne => filter_eq_nil_or hne x)

/-- All diagnostics of writers are counted. -/
theorem counted_flatMap (writers : List Writer) : ∀ d ∈ writers.flatMap (·.reported), d.Counted := by
  intro d hd
  obtain ⟨w, -, hd⟩ := List.mem_flatMap.1 hd
  exact w.counted d hd

/-- Every schedule leads to the report of the writers one after the other. -/
theorem sort_of_interleaves (hnames : (writers.map (·.file)).Nodup)
    (h : Interleaves (writers.map (·.reported)) ds) : sort ds = sort (writers.flatMap (·.reported)) :=
  sort_congr (fun d hd => counted_flatMap writers d (h.perm.mem_iff.1 hd)) (counted_flatMap writers) fun x =>
    h.filter_eq (pairwise_reported hnames x)

/-- At a place of a writer there is nothing but its own diagnostics. -/
theorem filter_place (hnames : (writers.map (·.file)).Nodup) (hw : w ∈ writers) (hd : d ∈ w.reported) :
    (writers.flatMap (·.reported)).filter (·.place = d.place) = w.reported.filter (·.place = d.place) :=
  Interleaves.filter_flatten_of_mem (List.mem_map.2 ⟨w, hw, rfl⟩) (pairwise_reported hnames _) fun hnil =>
    List.filter_eq_nil_iff.1 hnil d hd (by simp)

end Writer

/-! ### The report -/

/-- The order of counted diagnostics is the same from both sides. -/
theorem Counted.order_swap (ha : a.Counted) (hb : b.Counted) : order b a = (order a b).swap := by
  rw [ha.order_eq hb, hb.order_eq ha]
  exact Std.OrientedCmp.eq_swap

/-- Of two counted diagnostics one comes first, or they are of the same order. -/
theorem Counted.isLE_total (ha : a.Counted) (hb : b.Counted) :
    (order a b).isLE = true ∨ (order b a).isLE = true := by
  rw [ha.order_swap hb]
  cases order a b <;> simp

/-- The order of counted diagnostics is transitive. -/
theorem Counted.isLE_trans (ha : a.Counted) (hb : b.Counted) (hc : c.Counted) (h : (order a b).isLE = true)
    (h' : (order b c).isLE = true) : (order a c).isLE = true := by
  rw [ha.order_eq hb] at h
  rw [hb.order_eq hc] at h'
  rw [ha.order_eq hc]
  exact Std.TransCmp.isLE_trans h h'

/-- A diagnostic without a location comes first. -/
theorem order_of_none (ha : a.location = none) : order a b = if b.location = none then .eq else .lt := by
  unfold order
  rw [ha]
  cases b.location <;> rfl

/-- However the diagnostics of writers with files of different names come to lie between each other, the log ends
with the same report: a permutation of them all in the order of places, in which each writer's diagnostics about
one place keep their order.  The order of reports is the order of places, total and transitive, and what has no
location comes first.  It is so for all diagnostics whose lines and columns are counted, as those of a source are. -/
theorem report_of_writers :
    (∀ writers : List Writer, (writers.map (·.file)).Nodup →
      ∃ report : List Diagnostic,
        (∀ ds, Interleaves (writers.map (·.reported)) ds → (ds.foldl Deferred.add {}).messages = report) ∧
        report.Perm (writers.flatMap (·.reported)) ∧ InOrder report ∧
        ∀ w ∈ writers, ∀ d ∈ w.reported,
          report.filter (·.place = d.place) = w.reported.filter (·.place = d.place)) ∧
    (∀ a b, Counted a → Counted b → order a b = placeOrder a b ∧ order b a = (order a b).swap ∧
      ((order a b).isLE = true ∨ (order b a).isLE = true)) ∧
    (∀ a b c, Counted a → Counted b → Counted c →
      (order a b).isLE = true → (order b c).isLE = true → (order a c).isLE = true) ∧
    (∀ a b, a.location = none → order a b = if b.location = none then .eq else .lt) ∧
    ∀ (s : Source) (offset : Nat) (length : Int) (d : Diagnostic), s.contents.length < 2 ^ 63 →
      d.location = some (s.locate offset length) → Counted d := by
  refine ⟨fun writers hnames => ?_, fun a b ha hb => ⟨ha.order_eq hb, ha.order_swap hb, ha.isLE_total hb⟩,
    fun a b c => Counted.isLE_trans, fun a b => order_of_none, fun s offset length d => counted_locate⟩
  have hcounted := Writer.counted_flatMap writers
  refine ⟨sort (writers.flatMap (·.reported)), fun ds hds => ?_, perm_sort hcounted, inOrder_sort hcounted,
    fun w hw d hd => ?_⟩
  · rw [Deferred.messages_foldl]
    exact Writer.sort_of_interleaves hnames hds
  · rw [filter_sort hcounted]
    exact Writer.filter_place hnames hw hd

namespace Example

def first : Source := { name := "a", contents := "one\ntwo" }

def other : Source := { name := "b", contents := "x" }

/-- Two diagnostics about one place, and then one about a place before it. -/
def three : List Diagnostic := [errorAt first 4 "second", errorAt first 4 "third", errorAt first 0 "first"]

def one : List Diagnostic := [errorAt other 0 "fourth"]

theorem counted_three : ∀ d ∈ three, d.Counted :=
  List.forall_mem_cons.2 ⟨counted_locate (by decide) rfl, List.forall_mem_cons.2 ⟨counted_locate (by decide) rfl,
    List.forall_mem_singleton.2 (counted_locate (by decide) rfl)⟩⟩

theorem counted_one : ∀ d ∈ one, d.Counted := List.forall_mem_singleton.2 (counted_locate (by decide) rfl)

def busy : Writer where
  file := "a"
  reported := three
  located := by decide
  counted := counted_three

def brief : Writer where
  file := "b"
  reported := one
  located := by decide
  counted := counted_one

/-- The brief writer comes in after the first diagnostic. -/
def crossing : List Diagnostic := three.take 1 ++ one ++ three.drop 1

/-- A diagnostic about no place. -/
def global : Diagnostic := ⟨.error, "zeroth", none⟩

theorem interleaves_crossing : Interleaves [three, one] crossing :=
  .next [] [one] <| .next [three.drop 1] [] <| .next [] [[]] <| .next [] [[]] <| .done (by decide)

end Example

open Example in
theorem report_of_writers_crossing : ([busy, brief].map (·.file)).Nodup ∧ Interleaves [three, one] crossing ∧
    (∃ report, (crossing.foldl Deferred.add {}).messages = report ∧ report.Perm (three ++ one) ∧ InOrder report ∧
      report.filter (·.place = (errorAt first 4 "third").place) = three.take 2) ∧
    ∀ a ∈ three, ∀ b ∈ one, Counted global ∧ Counted a ∧ Counted b ∧ order b a = (order a b).swap ∧
      order global a = .lt ∧ (order a b).isLE = true ∧ (order global b).isLE = true := by
  have hnames : ([busy, brief].map (·.file)).Nodup := by decide
  obtain ⟨hschedules, hswap, htrans, hnone, hlocated⟩ := report_of_writers
  have hone : ∀ b ∈ one, Counted b := List.forall_mem_singleton.2 (hlocated other 0 0 _ (by decide) rfl)
  have hglobal : Counted global := fun l hl => nomatch hl
  obtain ⟨report, hreport, hperm, horder, hkept⟩ := hschedules [busy, brief] hnames
  have hlocation : ∀ a ∈ three, a.location ≠ none := by decide
  have hle : ∀ a ∈ three, ∀ b ∈ one, (order a b).isLE = true := by decide
  refine ⟨hnames, interleaves_crossing, ⟨report, hreport _ interleaves_crossing, hperm, horder, ?_⟩,
    fun a ha b hb => ?_⟩
  · have hthird := hkept busy List.mem_cons_self (errorAt first 4 "third") (by decide)
    exact hthird.trans (by decide)
  · have hfirst : order global a = .lt := (hnone global a rfl).trans (if_neg (hlocation a ha))
    exact ⟨hglobal, counted_three a ha, hone b hb, (hswap a b (counted_three a ha) (hone b hb)).2.1, hfirst, hle a ha b hb,
      htrans global a b hglobal (counted_three a ha) (hone b hb) (by rw [hfirst]; rfl) (hle a ha b hb)⟩

end ModuleSystem.Diagnostic

import ModuleSystem.Compile
import ModuleSystem.Proofs.Outline.Layout

/-!
# Printing — the edits of a module

The edits of a module come from independent lists of the outline: statements, dynamic imports,
references to metadata, loops and writes.  Because cuts and places lie apart (`Outline.LaidOut`), two
edits never overlap, and the order in which they are applied puts an insertion before a cut that starts
at the same place.

* `Edit.Edited`: a text was edited, every edit made at its place.
* `Print.CallsFor`: what the edits of a module are.
* `Print.mem_listed`: an edit replaces a cut, or inserts at a place of the outline.
* `Print.edits_applied`: the edits of every module that can be read are made, all of them, in order.
-/

namespace ModuleSystem

namespace Edit

/-- From the offset `pos` on, the second text is the first one with all edits made: what lies between
them is kept, and what an edit replaces gives way to its text and the line terminators that were
there. -/
inductive Edited : Nat → List Edit → Text → Text → Prop where
  | nil {pos : Nat} (rest : Text) : Edited pos [] rest rest
  | cons {pos : Nat} {es : List Edit} {rest out : Text} (kept old text : Text) (rank : EditRank)
      (tail : Edited (pos + kept.length + old.length) es rest out) :
      Edited pos (⟨pos + kept.length, pos + kept.length + old.length, text, rank⟩ :: es)
        (kept ++ (old ++ rest)) (kept ++ (text ++ (lineBreaks old ++ out)))

/-! ### Edits of parts -/

section

variable {pos : Nat} {es es' : List Edit} {t u out out' : Text}

/-- Text before all edits is kept. -/
theorem Edited.keep (h : Edited (pos + t.length) es u out) : Edited pos es (t ++ u) (t ++ out) := by
  generalize hpos : pos + t.length = pos' at h
  cases h with
  | nil => exact .nil _
  | cons kept old text rank tail =>
      subst hpos
      have hlen : pos + t.length + kept.length = pos + (t ++ kept).length := by simp [Nat.add_assoc]
      rw [hlen] at tail ⊢
      simpa using Edited.cons (t ++ kept) old text rank tail

/-- The edits of two parts of a text, one part after the other. -/
theorem Edited.append (h : Edited pos es t out) (h' : Edited (pos + t.length) es' u out') :
    Edited pos (es ++ es') (t ++ u) (out ++ out') := by
  induction h with
  | nil rest => exact h'.keep
  | @cons pos es rest out kept old text rank tail ih =>
      have hlen : pos + (kept ++ (old ++ rest)).length =
          pos + kept.length + old.length + rest.length := by
        simp [Nat.add_assoc]
      rw [hlen] at h'
      simpa using Edited.cons kept old text rank (ih h')

/-- The result of edits is determined. -/
theorem Edited.unique (h : Edited pos es t out) (h' : Edited pos es t out') : out = out' := by
  induction h generalizing out' with
  | nil rest => cases h'; rfl
  | @cons pos es rest out kept old text rank tail ih =>
      generalize htext : kept ++ (old ++ rest) = t at h'
      generalize hedits : (⟨pos + kept.length, pos + kept.length + old.length, text, rank⟩ : Edit) :: es
        = es' at h'
      cases h' with
      | nil => cases hedits
      | @cons _ es' rest' out' kept' old' text' rank' tail' =>
          simp only [List.cons.injEq, Edit.mk.injEq, Nat.add_left_cancel_iff] at hedits
          obtain ⟨⟨hkept, hold, rfl, rfl⟩, rfl⟩ := hedits
          obtain ⟨rfl, hrest⟩ := List.append_inj htext hkept
          obtain ⟨rfl, rfl⟩ := List.append_inj hrest (by omega)
          rw [ih tail']

/-- Edits that are made one after the other, are applied. -/
theorem Edited.applyFrom_eq (h : Edited pos es t out) {done : Text} (hdone : done.length = pos) :
    applyFrom (done ++ t) pos es = out := by
  induction h generalizing done with
  | nil rest => rw [applyFrom, List.drop_left' hdone]
  | @cons pos es rest out kept old text rank tail ih =>
      have hkept : Text.slice (done ++ (kept ++ (old ++ rest))) pos (pos + kept.length) = kept := by
        simp [Text.slice, List.drop_left' hdone]
      have hold : Text.slice (done ++ (kept ++ (old ++ rest))) (pos + kept.length)
          (pos + kept.length + old.length) = old := by
        rw [← List.append_assoc, Text.slice, List.drop_left' (by simp [hdone])]
        simp
      have htail := @ih (done ++ (kept ++ old)) (by simp [hdone, Nat.add_assoc])
      simp only [List.append_assoc] at htail
      rw [applyFrom, if_neg (by simp), hkept, hold, htail]
      simp only [List.append_assoc]

/-- No edit starts before the place from which the edits are applied. -/
theorem Edited.starts (h : Edited pos es t out) : ∀ e ∈ es, pos ≤ e.start := by
  induction h with
  | nil rest => simp
  | cons kept old text rank tail ih =>
      refine List.forall_mem_cons.2 ⟨Nat.le_add_right .., fun e he => ?_⟩
      have := ih e he
      omega

/-- The edits of a text lie one behind the other. -/
theorem Edited.pairwise (h : Edited pos es t out) : es.Pairwise fun a b => a.stop ≤ b.start := by
  induction h with
  | nil rest => exact .nil
  | cons kept old text rank tail ih => exact .cons tail.starts ih

end

/-! ### Edits that do not overlap -/

/-- One of two edits ends before the other one starts. -/
def Clear (a b : Edit) : Prop := a.stop ≤ b.start ∨ b.stop ≤ a.start

theorem Clear.symm {a b : Edit} (h : Clear a b) : Clear b a := Or.symm h

/-- Only a replacement replaces something. -/
def Proper (e : Edit) : Prop :=
  (e.rank ≠ .replace ∧ e.start = e.stop) ∨ (e.rank = .replace ∧ e.start < e.stop)

theorem Proper.le {e : Edit} (h : e.Proper) : e.start ≤ e.stop := by
  obtain ⟨-, h⟩ | ⟨-, h⟩ := h
  · exact h.le
  · exact h.le

theorem toNat_lt_of_ne {r : EditRank} (h : r ≠ .replace) : r.toNat < EditRank.replace.toNat := by
  cases r <;> simp_all [EditRank.toNat]

/-- Of two edits that do not overlap, the one that comes first in the order ends first. -/
theorem stop_le_start {a b : Edit} (ha : a.Proper) (hb : b.Proper) (hclear : Clear a b)
    (hle : le a b = true) : a.stop ≤ b.start := by
  simp only [le, Bool.or_eq_true, decide_eq_true_eq, Bool.and_eq_true] at hle
  obtain hclear | hclear := hclear
  · exact hclear
  · have hba := hb.le
    obtain hlt | ⟨heq, hrank⟩ := hle
    · omega
    · -- the second edit replaces nothing, so it is an insertion, and the first one is no replacement
      obtain ⟨hb, -⟩ | ⟨-, hb⟩ := hb
      · obtain ⟨-, ha⟩ | ⟨ha, -⟩ := ha
        · omega
        · have := toNat_lt_of_ne hb
          rw [ha] at hrank
          omega
      · omega

theorem le_trans' (a b c : Edit) (hab : le a b = true) (hbc : le b c = true) : le a c = true := by
  simp only [le, Bool.or_eq_true, decide_eq_true_eq, Bool.and_eq_true] at *
  omega

theorem le_total' (a b : Edit) : (le a b || le b a) = true := by
  simp only [le, Bool.or_eq_true, decide_eq_true_eq, Bool.and_eq_true]
  omega

/-- Sorted edits that do not overlap come one after the other. -/
theorem sort_pairwise {es : List Edit} (hproper : ∀ e ∈ es, e.Proper) (hclear : es.Pairwise Clear) :
    (sort es).Pairwise fun a b => a.stop ≤ b.start := by
  have hperm : (sort es).Perm es := List.mergeSort_perm es le
  have hsorted : (sort es).Pairwise fun a b => le a b = true :=
    List.pairwise_mergeSort le_trans' le_total' es
  have hclear' : (sort es).Pairwise Clear := (hperm.pairwise_iff Clear.symm).2 hclear
  refine (hsorted.and hclear').imp_of_mem fun ha hb hab => ?_
  exact stop_le_start (hproper _ (hperm.subset ha)) (hproper _ (hperm.subset hb)) hab.2 hab.1

/-- An edit with the text before it, from an offset of a text on. -/
theorem Edited.step {contents out : Text} {pos : Nat} {e : Edit} {es : List Edit} (hpos : pos ≤ e.start)
    (hle : e.start ≤ e.stop) (hlen : e.stop ≤ contents.length)
    (h : Edited e.stop es (contents.drop e.stop) out) :
    Edited pos (e :: es) (contents.drop pos) (contents.slice pos e.start ++
      (e.text ++ (lineBreaks (contents.slice e.start e.stop) ++ out))) := by
  have hkept := contents.length_slice pos (hle.trans hlen)
  have hold := contents.length_slice e.start hlen
  have hstart : pos + (e.start - pos) = e.start := Nat.add_sub_cancel' hpos
  have hstop : e.start + (e.stop - e.start) = e.stop := Nat.add_sub_cancel' hle
  have hcons := @Edited.cons pos es (contents.drop e.stop) out (contents.slice pos e.start)
    (contents.slice e.start e.stop) e.text e.rank (by rwa [hkept, hold, hstart, hstop])
  rwa [hkept, hold, hstart, hstop, Text.slice_append_drop _ hle, Text.slice_append_drop _ hpos] at hcons

/-- Edits that come one after the other are all made. -/
theorem edited_applyFrom {contents : Text} {pos : Nat} {es : List Edit}
    (hpairwise : es.Pairwise fun a b => a.stop ≤ b.start)
    (hes : ∀ e ∈ es, pos ≤ e.start ∧ e.start ≤ e.stop ∧ e.stop ≤ contents.length) :
    Edited pos es (contents.drop pos) (applyFrom contents pos es) := by
  induction es generalizing pos with
  | nil => exact .nil _
  | cons e es ih =>
      obtain ⟨hpos, hle, hlen⟩ := hes e List.mem_cons_self
      rw [List.pairwise_cons] at hpairwise
      have htail := ih hpairwise.2 fun e' he' =>
        ⟨hpairwise.1 e' he', (hes e' (List.mem_cons_of_mem _ he')).2⟩
      rw [applyFrom, if_neg (by omega)]
      simpa only [List.append_assoc] using htail.step hpos hle hlen

/-- Edits do not overlap when no replacement overlaps another edit. -/
theorem pairwise_clear {es : List Edit} (hproper : ∀ e ∈ es, e.Proper)
    (hinsert : ∀ a ∈ es, a.rank ≠ .replace → ∀ b ∈ es, b.rank = .replace → Clear a b)
    (hreplace : (es.filter fun e => e.rank = .replace).Pairwise Clear) : es.Pairwise Clear := by
  induction es with
  | nil => exact .nil
  | cons a es ih =>
      rw [List.forall_mem_cons] at hproper
      refine List.pairwise_cons.2 ⟨fun b hb => ?_, ih hproper.2 (fun a ha hrank b hb => ?_) ?_⟩
      · by_cases ha : a.rank = .replace <;> by_cases hrank : b.rank = .replace
        · rw [List.filter_cons, if_pos (by simpa using ha), List.pairwise_cons] at hreplace
          exact hreplace.1 b (by simp [hb, hrank])
        · exact (hinsert b (List.mem_cons_of_mem _ hb) hrank a List.mem_cons_self ha).symm
        · exact hinsert a List.mem_cons_self ha b (List.mem_cons_of_mem _ hb) hrank
        · have ha' : a.start = a.stop := (hproper.1.resolve_right fun h => ha h.1).2
          have hb' : b.start = b.stop := ((hproper.2 b hb).resolve_right fun h => hrank h.1).2
          unfold Clear
          omega
      · exact hinsert a (List.mem_cons_of_mem _ ha) hrank b (List.mem_cons_of_mem _ hb)
      · rw [List.filter_cons] at hreplace
        split at hreplace
        · exact (List.pairwise_cons.1 hreplace).2
        · exact hreplace

end Edit

deriving instance DecidableEq for Outline

theorem Outline.read_eq_ok {s : Source} {o : Outline} (h : (read s).toOption = some o) :
    read s = .ok o := by
  cases hread : read s with
  | error fs => rw [hread] at h; cases h
  | ok o' => rw [hread] at h; cases h; rfl

namespace Print

variable {s : Source} {o : Outline} {i : Interface} {n : GeneratedNames} {gs : List Margin} {e : Edit}

/-! ### The edits of a module -/

/-- The edits of a module as the outline lists them. -/
def listed (o : Outline) (i : Interface) (n : GeneratedNames) : List Edit :=
  (if 0 < o.hashbang.len then [Edit.remove o.hashbang] else [])
    ++ o.statements.flatMap (statementEdits n)
    ++ o.dynamicImports.map (fun r => .replace r (n.runtime ++ ".dynamicImport"))
    ++ o.importMetas.map (fun r => .replace r n.runtime)
    ++ (o.loopWrites.filter fun l => isExported i l.targets).map (loopEdit n)
    ++ (o.writes.filter fun w => isExported i w.targets).flatMap (writeEdits n)

/-- Compiling a source that can be read puts its edited text between the generated parts. -/
theorem compile_eq (h : Outline.read s = .ok o) (hn : GeneratedNames.ofOutline o = n)
    (hi : Interface.ofOutline o n.unnamed = i) :
    compile s (some .script) = .ok
      { source := s, code := prologue i n ++ Edit.apply s.contents (edits o i n) ++ epilogue, interface := i } := by
  subst hn hi
  simp only [compile, h, Print.module]

/-- Edits that are listed in order need no sorting. -/
theorem edits_of_sorted (h : (listed o i n).Pairwise fun a b => Edit.le a b = true) :
    edits o i n = listed o i n :=
  List.mergeSort_of_pairwise h

theorem edits_perm : (edits o i n).Perm (listed o i n) := List.mergeSort_perm _ _

/-- What an outline calls for: each edit of a module is one of these. -/
inductive CallsFor (o : Outline) (n : GeneratedNames) : Edit → Prop where
  | hashbang (h : 0 < o.hashbang.len) : CallsFor o n (.remove o.hashbang)
  | removed {st : Statement} (hst : st ∈ o.statements) : CallsFor o n (.remove st.cut.range)
  | constant {keyword : Range} {name : Option Binding} {insertAt : Nat}
      (hst : .exportDefault keyword .expression name insertAt ∈ o.statements) :
      CallsFor o n (.replace keyword ("const " ++ n.unnamed ++ " ="))
  | named {keyword : Range} {kind : DefaultKind} {insertAt : Nat}
      (hst : .exportDefault keyword kind none insertAt ∈ o.statements) (hkind : kind ≠ .expression) :
      CallsFor o n (.insert insertAt (" " ++ n.unnamed) .insert)
  | dynamicImport {r : Range} (hr : r ∈ o.dynamicImports) :
      CallsFor o n (.replace r (n.runtime ++ ".dynamicImport"))
  | importMeta {r : Range} (hr : r ∈ o.importMetas) : CallsFor o n (.replace r n.runtime)
  | loop {l : LoopWrite} (hl : l ∈ o.loopWrites) : CallsFor o n (loopEdit n l)
  | opened {w : Write} (hw : w ∈ o.writes) (hlt : w.start < w.stop) :
      CallsFor o n (.insert w.start (n.runtime ++ ".update(") .insert)
  | closed {w : Write} (hw : w ∈ o.writes) (hlt : w.start < w.stop) : CallsFor o n (.insert w.stop ")" .close)

/-- The edits of a statement write the names of its record and of its exports. -/
theorem callsFor_of_statement {st : Statement} (hst : st ∈ o.statements) (he : e ∈ statementEdits n st) :
    CallsFor o n e := by
  cases st with
  | imports | exportClause | exportFrom | exportStar | exportStarAs | exportDeclaration =>
      cases List.mem_singleton.1 he
      exact .removed hst
  | exportDefault keyword kind name insertAt =>
      cases kind with
      | expression =>
          cases List.mem_singleton.1 he
          exact .constant hst
      | function | classBody =>
          cases name with
          | some b =>
              cases List.mem_singleton.1 he
              exact .removed hst
          | none =>
              obtain rfl | he := List.mem_cons.1 he
              · exact .removed hst
              · cases List.mem_singleton.1 he
                exact .named hst (by simp)

theorem callsFor_of_mem (he : e ∈ listed o i n) : CallsFor o n e := by
  simp only [listed, List.mem_append] at he
  obtain ((((he | he) | he) | he) | he) | he := he
  · split at he
    · cases List.mem_singleton.1 he
      exact .hashbang ‹_›
    · cases he
  · obtain ⟨st, hst, he⟩ := List.mem_flatMap.1 he
    exact callsFor_of_statement hst he
  · obtain ⟨r, hr, rfl⟩ := List.mem_map.1 he
    exact .dynamicImport hr
  · obtain ⟨r, hr, rfl⟩ := List.mem_map.1 he
    exact .importMeta hr
  · obtain ⟨l, hl, rfl⟩ := List.mem_map.1 he
    exact .loop (List.mem_filter.1 hl).1
  · obtain ⟨w, hw, he⟩ := List.mem_flatMap.1 he
    have hw : w ∈ o.writes := (List.mem_filter.1 hw).1
    unfold writeEdits at he
    split at he
    · obtain rfl | he := List.mem_cons.1 he
      · exact .opened hw ‹_›
      · cases List.mem_singleton.1 he
        exact .closed hw ‹_›
    · cases he

/-- The start and the end of an edit. -/
def span (e : Edit) : Nat × Nat := (e.start, e.stop)

/-- An edit replaces a cut, or it inserts at a place where a write or a notice may start, or where a
write may end. -/
inductive Places (m : Demands) (cuts : List Cut) (e : Edit) : Prop where
  | cut (k : Cut) (hk : k ∈ cuts) (hrank : e.rank = .replace) (hspan : span e = (k.range.start, k.range.stop))
  | start (hrank : e.rank = .insert) (hspan : e.stop = e.start) (h : m.start e.start)
  | stop (hrank : e.rank = .close) (hspan : e.stop = e.start) (h : m.stop e.start)

theorem places_of_loop {l : LoopWrite} {m : Demands} {cuts : List Cut} (h : m.start l.place) :
    Places m cuts (loopEdit n l) := by
  unfold LoopWrite.place at h
  unfold loopEdit
  split
  · exact .start rfl rfl (by rwa [if_pos ‹_›] at h)
  · exact .start rfl rfl (by rwa [if_neg ‹_›] at h)

/-- All edits of a module have their places in its outline. -/
theorem mem_listed {m : Demands} (hm : o.Meets m) (he : e ∈ listed o i n) : Places m o.cuts e := by
  have hcuts : ∀ st ∈ o.statements, st.cut ∈ o.cuts := fun st hst => by
    simp only [Outline.cuts, List.mem_append, List.mem_map]
    exact .inr (.inl ⟨st, hst, rfl⟩)
  cases callsFor_of_mem he with
  | hashbang hlen => exact .cut ⟨o.hashbang, false⟩ (by simp [Outline.cuts, hlen]) rfl rfl
  | removed hst | constant hst => exact .cut _ (hcuts _ hst) rfl rfl
  | @named _ _ insertAt hst hkind => exact .start rfl rfl ((hm.statements _ hst).2 hkind rfl)
  | @dynamicImport r hr | @importMeta r hr => exact .cut ⟨r, false⟩ (by simp [Outline.cuts, hr]) rfl rfl
  | loop hl => exact places_of_loop (hm.loops _ hl)
  | opened hw => exact .start rfl rfl (hm.writes _ hw).1
  | closed hw hlt => exact .stop rfl rfl ((hm.writes _ hw).2.resolve_left (Nat.ne_zero_of_lt hlt))

/-- Each cut is replaced once. -/
theorem replacements_listed :
    ((listed o i n).filter fun e => e.rank = .replace).map span =
      o.cuts.map fun k => (k.range.start, k.range.stop) := by
  have hstatements : ∀ sts : List Statement,
      ((sts.flatMap (statementEdits n)).filter fun e => e.rank = .replace).map span =
        sts.map fun st => (st.cut.range.start, st.cut.range.stop) := by
    intro sts
    induction sts with
    | nil => rfl
    | cons st sts ih =>
        rw [List.flatMap_cons, List.filter_append, List.map_append, ih, List.map_cons]
        cases st with
        | exportDefault keyword kind name insertAt => cases kind <;> cases name <;> rfl
        | _ => rfl
  -- at loops and assignments text is only inserted
  have hloops : ∀ ls : List LoopWrite,
      (ls.map (loopEdit n)).filter (fun e => e.rank = .replace) = [] := by
    intro ls
    simp only [List.filter_eq_nil_iff, List.mem_map]
    rintro _ ⟨l, -, rfl⟩
    unfold loopEdit
    split <;> simp [Edit.insert]
  have hwrites : ∀ ws : List Write,
      (ws.flatMap (writeEdits n)).filter (fun e => e.rank = .replace) = [] := by
    intro ws
    simp only [List.filter_eq_nil_iff, List.mem_flatMap]
    rintro e ⟨w, -, he⟩
    unfold writeEdits at he
    split at he
    · simp only [List.mem_cons, List.not_mem_nil, or_false] at he
      obtain rfl | rfl := he <;> simp [Edit.insert]
    · cases he
  have hreplaced : ∀ (rs : List Range) (text : Text),
      ((rs.map fun r => Edit.replace r text).filter fun e => e.rank = .replace).map span =
        rs.map fun r => (r.start, r.stop) := by
    intro rs text
    rw [List.filter_eq_self.2 (by simp [Edit.replace]), List.map_map]
    rfl
  simp only [listed, Outline.cuts, List.filter_append, List.map_append, hstatements, hloops, hwrites,
    hreplaced, List.append_assoc, List.append_nil, List.map_map]
  congr 1
  split <;> rfl

theorem listed_proper (h : o.LaidOut s gs) (he : e ∈ listed o i n) : e.Proper := by
  obtain ⟨k, hk, hrank, hspan⟩ | ⟨hrank, hspan, -⟩ | ⟨hrank, hspan, -⟩ := mem_listed h.meets he
  · obtain ⟨g, hg, rfl⟩ := List.mem_map.1 (h.cuts.subset hk)
    simp only [span, Prod.mk.injEq] at hspan
    exact .inr ⟨hrank, by rw [hspan.1, hspan.2]; exact (h.drawn g hg).nonempty⟩
  · exact .inl ⟨by simp [hrank], hspan.symm⟩
  · exact .inl ⟨by simp [hrank], hspan.symm⟩

/-- A place where an edit inserts is clear of every cut. -/
theorem insertion_clear (h : o.LaidOut s gs) (he : e ∈ listed o i n) (hrank : e.rank ≠ .replace)
    {g : Margin} (hg : g ∈ gs) : e.stop ≤ g.start ∨ g.stop ≤ e.start := by
  have hdrawn := h.drawn g hg
  have hbefore := hdrawn.before_le
  have hafter := hdrawn.le_after
  obtain ⟨k, -, hreplace, -⟩ | ⟨-, hspan, hstart⟩ | ⟨-, hspan, hstop⟩ := mem_listed h.meets he
  · exact absurd hreplace hrank
  · rw [hspan]
    obtain hn | hn := hstart.2 g hg
    · exact .inl (hn.trans hbefore)
    · exact .inr (hafter.trans hn)
  · rw [hspan]
    obtain hn | hn | hn := hstop.2 g hg
    · exact .inl (hn.trans hbefore)
    · exact .inr hn.ge
    · exact .inr (hafter.trans hn)

/-- Two cuts do not overlap. -/
theorem cuts_pairwise (h : o.LaidOut s gs) :
    o.cuts.Pairwise fun k k' => k.range.stop ≤ k'.range.start ∨ k'.range.stop ≤ k.range.start := by
  refine (h.cuts.pairwise_iff Or.symm).2 (List.pairwise_map.2 ?_)
  refine h.ordered.imp_of_mem fun hlater _ hfollows => .inr ?_
  exact hfollows.1.trans (h.drawn _ hlater).before_le

/-- No two edits of a module lie over each other. -/
theorem listed_pairwise (h : o.LaidOut s gs) : (listed o i n).Pairwise Edit.Clear := by
  refine Edit.pairwise_clear (fun e he => listed_proper h he) (fun a ha hrank b hb hreplace => ?_) ?_
  · obtain ⟨k, hk, -, hspan⟩ | ⟨hinsert, -⟩ | ⟨hclose, -⟩ := mem_listed h.meets hb
    · obtain ⟨g, hg, rfl⟩ := List.mem_map.1 (h.cuts.subset hk)
      simp only [span, Prod.mk.injEq] at hspan
      rw [Edit.Clear, hspan.1, hspan.2]
      exact insertion_clear h ha hrank hg
    · simp [hinsert] at hreplace
    · simp [hclose] at hreplace
  · have hspans : (((listed o i n).filter fun e => e.rank = .replace).map span).Pairwise fun a b =>
        a.2 ≤ b.1 ∨ b.2 ≤ a.1 := by
      rw [replacements_listed]
      exact List.pairwise_map.2 (cuts_pairwise h)
    rw [List.pairwise_map] at hspans
    exact hspans

theorem stop_le_length (h : o.LaidOut s gs) (he : e ∈ listed o i n) : e.stop ≤ s.contents.length := by
  obtain ⟨k, hk, -, hspan⟩ | ⟨-, hspan, hstart⟩ | ⟨-, hspan, hstop⟩ := mem_listed h.meets he
  · obtain ⟨g, hg, rfl⟩ := List.mem_map.1 (h.cuts.subset hk)
    simp only [span, Prod.mk.injEq] at hspan
    exact hspan.2 ▸ (h.drawn g hg).stop_le_length
  · exact hspan ▸ hstart.1.1
  · exact hspan ▸ hstop.1.1

theorem edits_pairwise (h : o.LaidOut s gs) :
    (edits o i n).Pairwise fun a b => a.stop ≤ b.start :=
  Edit.sort_pairwise (fun _ he => listed_proper h he) (listed_pairwise h)

/-- The code of a module is its contents with every edit made. -/
theorem edits_edited (h : o.LaidOut s gs) :
    Edit.Edited 0 (edits o i n) s.contents (Edit.apply s.contents (edits o i n)) :=
  Edit.edited_applyFrom (edits_pairwise h) fun _ he =>
    have he := edits_perm.subset he
    ⟨Nat.zero_le _, (listed_proper h he).le, stop_le_length h he⟩

end Print

end ModuleSystem

import Mathlib.Data.List.Pairwise
import ModuleSystem.Proofs.Compile.Edits

/-!
# Printing — what is left where a statement was

A statement that is removed as a whole leaves its line terminators between the token before it and the
token after it, with the gaps that were there, and nothing that would keep the two apart: a line
terminator before the statement still stands between them, but no semicolon does.  So where the token
after the statement can continue what the token before it ends, the two are read as one expression.

* `Print.left_of_statement`: what stands in the code between the neighbours of a removed statement.
* `Print.called_across`: a module in which a variable is called with what follows an import.
-/

namespace ModuleSystem

open Utf8 (bytesOf glyphs)

namespace Edit

variable {pos : Nat} {es es' : List Edit} {t u out out' : Text}

/-- Insertions at one place come one after the other. -/
theorem edited_replicate (k : Nat) (pos : Nat) (b : UInt8) (rank : EditRank) (t : Text) :
    Edited pos (List.replicate k (.insert pos [b] rank)) t (List.replicate k b ++ t) := by
  induction k with
  | zero => exact .nil t
  | succ k ih =>
      exact Edited.cons [] [] [b] rank ih

end Edit

namespace Print

variable {s : Source} {o : Outline} {i : Interface} {n : GeneratedNames} {gs : List Margin} {e : Edit}

/-! ### Around a removed statement -/

/-- An edit that closes inserts a parenthesis. -/
theorem eq_closer (he : e ∈ listed o i n) (hrank : e.rank = .close) :
    e = .insert e.start ")" .close := by
  cases callsFor_of_mem he with
  | closed => rfl
  | loop =>
      unfold loopEdit at hrank
      split at hrank <;> cases hrank
  | _ => cases hrank

/-- Of two cuts one was made after the other. -/
theorem follows_of_lt (h : o.LaidOut s gs) {g g' : Margin} (hg : g ∈ gs) (hg' : g' ∈ gs)
    (hlt : g'.start < g.start) : g.Follows g' := by
  have hordered : gs.Pairwise fun a b => Margin.Follows a b ∨ Margin.Follows b a :=
    h.ordered.imp Or.inl
  have : Std.Symm fun a b => Margin.Follows a b ∨ Margin.Follows b a := ⟨fun _ _ => Or.symm⟩
  obtain hfollows | hfollows := hordered.forall hg hg' (by rintro rfl; omega)
  · exact hfollows
  · -- the other order would put the start of the later cut before the end of the earlier one
    have := hfollows.2
    have := (h.drawn g hg).le_after
    have := (h.drawn g hg).nonempty
    omega

variable {g : Margin}

/-- The edits before a cut end before its margin. -/
theorem stop_le_before (h : o.LaidOut s gs) (he : e ∈ listed o i n) (hg : g ∈ gs)
    (hle : e.stop ≤ g.start) : e.stop ≤ g.before := by
  have hdrawn := h.drawn g hg
  have hnonempty := hdrawn.nonempty
  have hafter := hdrawn.le_after
  obtain ⟨k, hk, -, hspan⟩ | ⟨-, hspan, hstart⟩ | ⟨-, hspan, hstop⟩ := mem_listed h.meets he
  · obtain ⟨g', hg', rfl⟩ := List.mem_map.1 (h.cuts.subset hk)
    simp only [span, Prod.mk.injEq] at hspan
    have hnonempty' : g'.start < g'.stop := (h.drawn g' hg').nonempty
    have hstop : e.stop = g'.stop := hspan.2
    rw [hstop] at hle ⊢
    exact (follows_of_lt h hg hg' (by omega)).1
  · rw [hspan] at hle ⊢
    obtain hn | hn := hstart.2 g hg
    · exact hn
    · omega
  · rw [hspan] at hle ⊢
    obtain hn | hn | hn := hstop.2 g hg
    · exact hn
    · omega
    · omega

/-- The edits after a cut start after its margin, or close a write at its end. -/
theorem after_le_start (h : o.LaidOut s gs) (he : e ∈ listed o i n) (hg : g ∈ gs)
    (hle : g.stop ≤ e.start) : g.after ≤ e.start ∨ e = .insert g.stop ")" .close := by
  have hdrawn := h.drawn g hg
  have hnonempty := hdrawn.nonempty
  have hbefore := hdrawn.before_le
  obtain ⟨k, hk, -, hspan⟩ | ⟨-, hspan, hstart⟩ | ⟨hrank, hspan, hstop⟩ := mem_listed h.meets he
  · obtain ⟨g', hg', rfl⟩ := List.mem_map.1 (h.cuts.subset hk)
    simp only [span, Prod.mk.injEq] at hspan
    have hstart : e.start = g'.start := hspan.1
    rw [hstart] at hle ⊢
    exact .inl (follows_of_lt h hg' hg (by omega)).2
  · obtain hn | hn := hstart.2 g hg
    · omega
    · exact .inl hn
  · obtain hn | hn | hn := hstop.2 g hg
    · omega
    · exact .inr (hn ▸ eq_closer he hrank)
    · exact .inl hn

/-- The edits after a cut, those first that close a write at its end. -/
theorem exists_closers {es : List Edit} {stop after : Nat}
    (hpairwise : es.Pairwise fun a b => a.stop ≤ b.start) (hproper : ∀ e ∈ es, e.start ≤ e.stop)
    (hes : ∀ e ∈ es, after ≤ e.start ∨ e = .insert stop ")" .close) :
    ∃ k es', es = List.replicate k (Edit.insert stop ")" .close) ++ es' ∧ ∀ e ∈ es', after ≤ e.start := by
  induction es with
  | nil => exact ⟨0, [], rfl, by simp⟩
  | cons e es ih =>
      rw [List.pairwise_cons] at hpairwise
      obtain ⟨he, hes'⟩ := List.forall_mem_cons.1 hes
      obtain ⟨hle, hproper'⟩ := List.forall_mem_cons.1 hproper
      obtain he | rfl := he
      · refine ⟨0, e :: es, rfl, List.forall_mem_cons.2 ⟨he, fun e' he' => ?_⟩⟩
        have := hpairwise.1 e' he'
        omega
      · obtain ⟨k, es', rfl, hafter⟩ := ih hpairwise.2 hproper' hes'
        exact ⟨k + 1, es', rfl, hafter⟩

/-- The edits of a module around the cut of a statement. -/
theorem edits_around (h : o.LaidOut s gs) (hg : g ∈ gs)
    (hcut : Edit.remove g.cut.range ∈ listed o i n) :
    ∃ es k es', edits o i n = es ++ Edit.remove g.cut.range ::
        (List.replicate k (Edit.insert g.stop ")" .close) ++ es') ∧
      (∀ e ∈ es, e.stop ≤ g.before) ∧ ∀ e ∈ es', g.after ≤ e.start := by
  obtain ⟨es, rest, hsplit⟩ := List.append_of_mem (edits_perm.symm.subset hcut)
  have hlisted : ∀ e ∈ es ++ Edit.remove g.cut.range :: rest, e ∈ listed o i n :=
    fun e he => edits_perm.subset (hsplit ▸ he)
  have hpairwise := edits_pairwise (i := i) (n := n) h
  rw [hsplit, List.pairwise_append, List.pairwise_cons] at hpairwise
  obtain ⟨-, ⟨hafter, hrest⟩, hbefore⟩ := hpairwise
  obtain ⟨k, es', rfl, hes'⟩ := exists_closers hrest
    (fun e he => (listed_proper h (hlisted e (by simp [he]))).le)
    fun e he => after_le_start h (hlisted e (by simp [he])) hg (hafter e he)
  exact ⟨es, k, es', hsplit, fun e he => stop_le_before h (hlisted e (by simp [he])) hg
    (hbefore e he _ List.mem_cons_self), hes'⟩

/-- A statement that is removed as a whole is cut by an edit of its own. -/
theorem remove_mem_listed {st : Statement} (hst : st ∈ o.statements) (hwhole : st.cut.whole = true) :
    Edit.remove st.cut.range ∈ listed o i n := by
  have hedit : Edit.remove st.cut.range ∈ statementEdits n st := by
    cases st with
    | exportDeclaration | exportDefault => cases hwhole
    | _ => exact List.mem_singleton.2 rfl
  simp only [listed, List.mem_append]
  exact .inl (.inl (.inl (.inl (.inr (List.mem_flatMap.2 ⟨st, hst, hedit⟩)))))

/-- What is left of a margin when its cut is removed. -/
theorem edited_margin (h : o.LaidOut s gs) (hg : g ∈ gs) {es es' : List Edit} {k : Nat}
    (hedits : edits o i n = es ++ Edit.remove g.cut.range ::
      (List.replicate k (.insert g.stop ")" .close) ++ es'))
    (hes : ∀ e ∈ es, e.stop ≤ g.before) (hes' : ∀ e ∈ es', g.after ≤ e.start)
    (hlength : g.after ≤ s.contents.length) :
    ∃ out out', Edit.Edited 0 es (s.contents.take g.before) out ∧
      Edit.Edited g.after es' (s.contents.drop g.after) out' ∧
      Edit.apply s.contents (edits o i n) =
        out ++ ((s.contents.slice g.before g.start ++ (Edit.lineBreaks (s.textOf g.cut.range) ++
          (List.replicate k 41 ++ s.contents.slice g.stop g.after))) ++ out') := by
  have hdrawn := h.drawn g hg
  have hbefore := hdrawn.before_le
  have hnonempty := hdrawn.nonempty
  have hafter := hdrawn.le_after
  have hpairwise := edits_pairwise (i := i) (n := n) h
  rw [hedits, List.pairwise_append, List.pairwise_cons, List.pairwise_append] at hpairwise
  obtain ⟨hfirst, ⟨-, -, hlast, -⟩, -⟩ := hpairwise
  have hproper : ∀ e ∈ edits o i n, e.start ≤ e.stop ∧ e.stop ≤ s.contents.length := fun e he =>
    ⟨(listed_proper h (edits_perm.subset he)).le, stop_le_length h (edits_perm.subset he)⟩
  rw [hedits] at hproper
  have htake : (s.contents.take g.before).length = g.before := by
    rw [List.length_take]
    omega
  have hpart := @Edit.edited_applyFrom (s.contents.take g.before) 0 _ hfirst
    fun e he => ⟨Nat.zero_le _, (hproper e (by simp [he])).1, (hes e he).trans htake.ge⟩
  have hpart' := @Edit.edited_applyFrom s.contents g.after _ hlast
    fun e he => ⟨hes' e he, hproper e (by simp [he])⟩
  refine ⟨_, _, hpart, hpart', ?_⟩
  -- from the end: the ends of writes before the last part, then the cut, then the first part
  have hends := (Edit.edited_replicate k g.stop 41 .close (s.contents.slice g.stop g.after)).append (by
    rwa [Text.length_slice _ _ hlength, Nat.add_sub_cancel' hafter])
  rw [Text.slice_append_drop _ hafter] at hends
  have hcut := Edit.Edited.step (e := .remove g.cut.range) hbefore hnonempty.le hdrawn.stop_le_length hends
  have hall := hpart.append (by rwa [List.drop_zero, htake, Nat.zero_add])
  rw [List.drop_zero, List.take_append_drop] at hall
  have hdone := edits_edited (i := i) (n := n) h
  rw [hedits] at hdone ⊢
  rw [hdone.unique hall]
  simp only [List.append_assoc]
  rfl

/-- The edits around a removed statement, and what they leave of it: between the tokens before and after
it stand the two gaps, its line terminators, and the ends of writes that end with it. -/
theorem left_of_statement (s : Source) (o : Outline) (h : Outline.read s = .ok o) (i : Interface)
    (n : GeneratedNames) (st : Statement) (hst : st ∈ o.statements) (hwhole : st.cut.whole = true) :
    ∃ (lx lx' : Lexer) (before gap word before' gap' word' : List Glyph),
      Lexer.Met s lx ∧ lx.At before gap word ∧ lx.token.start = st.cut.range.start ∧
      Lexer.Met s lx' ∧ lx'.At before' gap' word' ∧ lx'.token.prevStop = st.cut.range.stop ∧
      ∃ (es es' : List Edit) (k : Nat) (out out' : Text),
        edits o i n = es ++ .remove st.cut.range ::
          (List.replicate k (.insert st.cut.range.stop ")" .close) ++ es') ∧
        Edit.Edited 0 es (bytesOf before) out ∧
        Edit.Edited lx'.token.start es' (bytesOf (word' ++ lx'.cursor.rest)) out' ∧
        Edit.apply s.contents (edits o i n) =
          out ++ ((bytesOf gap ++ (Edit.lineBreaks (s.textOf st.cut.range) ++
            (List.replicate k 41 ++ bytesOf gap'))) ++ out') ∧
        (lx.token.newlineBefore = true → before = [] ∨ Lexer.hasLineEnd gap = true) := by
  obtain ⟨gs, hgs⟩ := Outline.read_laidOut h
  have hcuts : st.cut ∈ o.cuts := by
    simp only [Outline.cuts, List.mem_append, List.mem_map]
    exact .inr (.inl ⟨st, hst, rfl⟩)
  obtain ⟨g, hg, hcut⟩ := List.mem_map.1 (hgs.cuts.subset hcuts)
  have hdrawn := hgs.drawn g hg
  obtain ⟨lx, hmet, hprevStop, hstart, -⟩ := hdrawn.keyword (hcut ▸ hwhole)
  obtain ⟨lx', hmet', hprevStop', hstart'⟩ := hdrawn.follower (hcut ▸ hwhole)
  obtain ⟨hs, before, gap, word, hat⟩ := hmet.exists_at
  obtain ⟨hs', before', gap', word', hat'⟩ := hmet'.exists_at
  have hremove : Edit.remove g.cut.range ∈ listed o i n := hcut ▸ remove_mem_listed hst hwhole
  obtain ⟨es, k, es', hedits, hes, hes'⟩ := edits_around hgs hg hremove
  have hlength : g.after ≤ s.contents.length := by
    have := hmet'.places_le
    omega
  obtain ⟨out, out', hout, hout', happly⟩ := edited_margin hgs hg hedits hes hes' hlength
  -- the texts around the tokens, from the places of the tokens
  have htake : s.contents.take g.before = bytesOf before := by rw [← hs, ← hprevStop, hat.take_prevStop]
  have hgap : s.contents.slice g.before g.start = bytesOf gap := by rw [← hs, ← hprevStop, ← hstart, hat.slice_gap]
  have hgap' : s.contents.slice g.stop g.after = bytesOf gap' := by
    rw [← hs', ← hprevStop', ← hstart', hat'.slice_gap]
  have hdrop : s.contents.drop g.after = bytesOf (word' ++ lx'.cursor.rest) := by
    rw [← hs', ← hstart', hat'.drop_start]
  rw [htake] at hout
  rw [hdrop] at hout'
  rw [hgap, hgap'] at happly
  rw [← hcut]
  refine ⟨lx, lx', before, gap, word, before', gap', word', hmet, hat, hstart, hmet', hat', hprevStop',
    es, es', k, out, out', hedits, hout, hstart' ▸ hout', happly, fun hnewline => ?_⟩
  refine (hat.newline hnewline).imp_left fun hzero => ?_
  rw [hat.prevStop, List.length_eq_zero_iff] at hzero
  rw [← (Utf8.glyphs_of_append hat.source).1, hzero, Utf8.glyphs_nil]

/-- A module with an import between a variable and a parenthesis, on lines of their own. -/
def called : Source := { contents := "a\nimport 'x'\n(b)" }

/-- The outline of `called`. -/
def calledOutline : Outline :=
  { records := [⟨"x", ⟨9, 3⟩, false⟩]
    statements := [.imports ⟨2, 10⟩ 0 none none []]
    usedNames := ["b", "a"] }

theorem left_of_statement_called : ∃ o, Outline.read called = .ok o ∧
    ∃ st ∈ o.statements, st.cut.whole = true ∧ ∀ i n, ∃ (gap gap' : List Glyph) (k : Nat) (out out' : Text),
      Edit.apply called.contents (edits o i n) =
        out ++ ((bytesOf gap ++ (Edit.lineBreaks (called.textOf st.cut.range) ++
          (List.replicate k 41 ++ bytesOf gap'))) ++ out') := by
  have hread : Outline.read called = .ok calledOutline := Outline.read_eq_ok (by decide +kernel)
  refine ⟨calledOutline, hread, _, List.mem_singleton.2 rfl, rfl, fun i n => ?_⟩
  obtain ⟨-, -, -, gap, -, -, gap', -, -, -, -, -, -, -, -, -, k, out, out', -, -, -, happly, -⟩ :=
    left_of_statement called calledOutline hread i n _ (List.mem_singleton.2 rfl) rfl
  exact ⟨gap, gap', k, out, out', happly⟩

/-- The first tokens from a lexer on, each with whether a line terminator stands before it. -/
def firstTokens : Nat → Except Fault Lexer → List (TokenKind × Bool)
  | k + 1, .ok lx => (lx.token.kind, lx.token.newlineBefore) :: firstTokens k lx.next
  | _, _ => []

/-- The variable before the import ends a statement, because a line terminator and a reserved word follow
it. In the code the parenthesis after the import follows it, which makes a call. -/
theorem called_across :
    firstTokens 4 (Lexer.start called .script) =
        [(.identifier, true), (.kwImport, true), (.string, false), (.openParen, true)] ∧
      ∃ c, compile called (some .script) = .ok c ∧
        c.code = Text.ofString "(function* (__esm) \x7b\"use strict\";yield;a\n\n(b)\n\x7d)" := by
  have hread : Outline.read called = .ok calledOutline := Outline.read_eq_ok (by decide +kernel)
  let n := GeneratedNames.ofOutline calledOutline
  let i := Interface.ofOutline calledOutline n.unnamed
  have hedits : edits calledOutline i n = [.remove ⟨2, 10⟩] := List.mergeSort_singleton _
  let code : Text := prologue i n ++ Edit.apply called.contents [.remove ⟨2, 10⟩] ++ epilogue
  have hcompile : compile called (some .script) = .ok ⟨called, code, i, []⟩ := by
    simp only [compile, hread, Print.module]
    rw [hedits]
  exact ⟨by decide +kernel, _, hcompile, by decide +kernel⟩

end Print

end ModuleSystem

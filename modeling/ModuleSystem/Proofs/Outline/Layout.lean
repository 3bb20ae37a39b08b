import ModuleSystem.Proofs.Outline.Steps

/-!
# Outlines — how cuts and places lie in a source

When a part of the source is cut, the scanner has not seen any token behind it, and afterwards it sees
none before its end.  So everything else that an outline tells lies on one side of the cut.  Around a
whole statement there is a margin besides: from the end of the token before it to the start of the
token after it nothing else is cut, and nothing is inserted but the end of a write at the end of the
statement itself.

* `Margin`: a cut with its margin, `Margin.Drawn` what the source has there.
* `Scanner.LaidOut`: the invariant of scanning, `LaidOut.step` that a step preserves it.
* `Outline.scan_laidOut`: it holds of the outline of every source that can be scanned.
-/

namespace ModuleSystem

/-! ### Margins -/

/-- A cut and its margin: the space between tokens before and after a whole statement. -/
structure Margin where
  cut : Cut
  before : Nat
  after : Nat

namespace Margin

/-- The offset of the first byte that is cut. -/
def start (g : Margin) : Nat := g.cut.range.start

/-- The offset after the last byte that is cut. -/
def stop (g : Margin) : Nat := g.cut.range.stop

/-- A write or a notice may start here. -/
def ClearStart (g : Margin) (n : Nat) : Prop := n ≤ g.before ∨ g.after ≤ n

/-- A write may end here. -/
def ClearStop (g : Margin) (n : Nat) : Prop := n ≤ g.before ∨ n = g.stop ∨ g.after ≤ n

/-- The cut is in the source, it can be made there, and the margin of a whole statement is the space
between two pairs of tokens. -/
structure Drawn (s : Source) (g : Margin) : Prop where
  before_le : g.before ≤ g.start
  nonempty : g.start < g.stop
  stop_le_length : g.stop ≤ s.contents.length
  le_after : g.stop ≤ g.after
  seam_start : s.contents.Seam g.start
  seam_stop : s.contents.Seam g.stop
  keyword : g.cut.whole = true → ∃ lx, Lexer.Met s lx ∧ lx.token.prevStop = g.before ∧
    lx.token.start = g.start ∧ (lx.token.kind = .kwImport ∨ lx.token.kind = .kwExport)
  follower : g.cut.whole = true → ∃ lx, Lexer.Met s lx ∧ lx.token.prevStop = g.stop ∧
    lx.token.start = g.after

/-- A cut that was made later lies behind one that was made earlier. -/
def Follows (later earlier : Margin) : Prop :=
  earlier.stop ≤ later.before ∧ earlier.after ≤ later.start

end Margin

/-! ### The invariant -/

/-- What is demanded of the places and names of an outline with the given cuts. -/
def layout (s : Source) (gs : List Margin) (start stop : Nat → Prop) : Demands where
  source := s
  floor := 0
  start n := (start n ∧ s.contents.Seam n) ∧ ∀ g ∈ gs, g.ClearStart n
  stop n := (stop n ∧ s.contents.Seam n) ∧ ∀ g ∈ gs, g.ClearStop n
  word t := isIdentifier t = true
  quoted t := isIdentifier t = true ∨ ∃ us, t = Utf16.toText us

/-- The layout of a source demands nothing of names but what all names of tokens are. -/
theorem layout_fair (s : Source) (gs : List Margin) (start stop : Nat → Prop) :
    (layout s gs start stop).Fair :=
  ⟨id, .inl, fun us => .inr ⟨us, rfl⟩⟩

namespace Scanner

variable {s : Source} {gs : List Margin} {p p' : Scanner}

/-- The places that the scanner has reached. A notice at the body of a loop is noted when the head of
the loop is closed, one token ahead. -/
def Reached (p : Scanner) (n : Nat) : Prop :=
  n ≤ p.token.prevStop ∨ (p.prev = .closeParen ∧ p.lastClosed.kind = .parenStatement ∧
    (n = p.token.start ∨ (p.token.kind = .openBrace ∧ n = p.token.start + 1)))

/-- The cut is behind the scanner. -/
def Behind (p : Scanner) (g : Margin) : Prop :=
  g.after ≤ p.token.prevStop ∨ (g.stop = p.token.prevStop ∧ g.after ≤ p.token.start)

/-- The demands that hold while a source is scanned. -/
abbrev demands (s : Source) (gs : List Margin) (p : Scanner) : Demands :=
  layout s gs p.Reached (· ≤ p.token.prevStop)

/-- All that the scanner remembers lies around the cuts that were made. -/
structure LaidOut (s : Source) (gs : List Margin) (p : Scanner) : Prop where
  keeps : p.Keeps (p.demands s gs) (gs.map (·.cut))
  drawn : ∀ g ∈ gs, g.Drawn s
  behind : ∀ g ∈ gs, p.Behind g
  ordered : gs.Pairwise Margin.Follows

theorem LaidOut.met (h : p.LaidOut s gs) : Lexer.Met s p.lexer := h.keeps.lexer

/-- The margins of the cuts so far end where the current token starts, or before. -/
theorem LaidOut.after_le (h : p.LaidOut s gs) {g : Margin} (hg : g ∈ gs) :
    g.after ≤ p.token.start := by
  obtain hle | hle := h.behind g hg
  · exact hle.trans h.met.places_le.1
  · exact hle.2

/-- The end of the token before the current one is a place where a write may end. -/
theorem LaidOut.stop_prevStop (h : p.LaidOut s gs) : (p.demands s gs).stop p.token.prevStop :=
  ⟨⟨le_rfl, h.met.seam_prevStop⟩, fun g hg => (h.behind g hg).elim (fun hle => .inr (.inr hle))
    fun heq => .inr (.inl heq.1.symm)⟩

/-- What the scanner has reached is at or before the end of the current token. -/
theorem LaidOut.reached_le_stop (h : p.LaidOut s gs) {n : Nat} (hn : p.Reached n) :
    n ≤ p.token.stop := by
  have hplaces := h.met.places_le
  simp only [Reached, Scanner.token] at hn ⊢ hplaces
  obtain hn | ⟨-, -, rfl | ⟨hkind, rfl⟩⟩ := hn
  · omega
  · omega
  · rw [h.met.openBrace_stop hkind]

/-! ### Steps -/

/-- Demands that are always met. -/
def noDemands (s : Source) : Demands :=
  ⟨s, 0, fun _ => True, fun _ => True, fun _ => True, fun _ => True⟩

/-- What a step does, whatever is demanded. -/
theorem LaidOut.leads (h : p.LaidOut s gs) (hp' : p.step = .ok p') :
    Lexer.Met s p'.lexer ∧ p.token.stop ≤ p'.token.prevStop ∧
      ∃ new, NewCuts s p p' new ∧ p'.outline.cuts.Perm (new ++ gs.map (·.cut)) := by
  have hany : p.Keeps (noDemands s) (gs.map (·.cut)) :=
    h.keeps.mono ⟨fun _ _ => trivial, fun _ _ => trivial, fun _ _ => trivial, fun _ _ => trivial⟩ rfl
      (Nat.zero_le _)
  obtain ⟨new, hnew, hkeeps⟩ := hany.step ⟨fun _ => trivial, fun _ => trivial, fun _ => trivial⟩
    trivial p' hp'
  have h' := hkeeps ⟨trivial, fun _ _ => ⟨trivial, trivial⟩, fun _ => trivial,
    fun _ _ => ⟨trivial, fun _ => trivial⟩⟩
  exact ⟨h'.lexer, h'.floor, new, hnew, h'.cuts⟩

/-- All that is remembered after a step lies around the cuts, if what was remembered before and what
the step adds does. -/
theorem LaidOut.step_keeps (h : p.LaidOut s gs) (hp' : p.step = .ok p') {gs' : List Margin}
    (hcuts : p'.outline.cuts.Perm (gs'.map (·.cut)))
    (hstart : ∀ n, (p.demands s gs).start n → ∀ g ∈ gs', g.ClearStart n)
    (hstop : ∀ n, (p.demands s gs).stop n → ∀ g ∈ gs', g.ClearStop n)
    (htoken : p.token.kind ≠ .kwImport → p.token.kind ≠ .kwExport →
      ∀ g ∈ gs', g.after ≤ p.token.start)
    (hinsertion : p'.prev ≠ .semicolon → ∀ g ∈ gs', g.after ≤ p'.token.prevStop)
    (hloop : ∀ g ∈ gs', g.after ≤ p'.token.start) :
    p'.Keeps (p'.demands s gs') (gs'.map (·.cut)) := by
  obtain ⟨hmet', hle, -⟩ := h.leads hp'
  have hplaces := h.met.places_le
  have hplaces' := hmet'.places_le
  simp only [Scanner.token] at hle hplaces hplaces'
  -- what the step before demanded is still demanded, of the new cuts as well
  have hcover : (p.demands s gs).Covers (p'.demands s gs') :=
    { start := fun n hn => ⟨⟨.inl ((h.reached_le_stop hn.1.1).trans hle), hn.1.2⟩, hstart n hn⟩
      stop := fun n hn => ⟨⟨by have := hn.1.1; simp only [Scanner.token] at this ⊢; omega, hn.1.2⟩,
        hstop n hn⟩
      word := fun _ => id
      quoted := fun _ => id }
  have hpre : p.Keeps (p'.demands s gs') (gs.map (·.cut)) :=
    h.keeps.mono hcover rfl (Nat.zero_le _)
  have hprev := hcover.stop _ h.stop_prevStop
  obtain ⟨new, -, hkeeps⟩ := hpre.step (layout_fair s gs' _ _) hprev p' hp'
  have h' := hkeeps
    { prevStop := hprev
      token := fun himport hexport => ?_
      insertion := fun hsemicolon => ⟨⟨.inl le_rfl, hmet'.seam_prevStop⟩,
        fun g hg => .inr (hinsertion hsemicolon g hg)⟩
      loop := fun hclose hhead => ?_ }
  · exact { (h'.lower (Nat.zero_le _)) with cuts := hcuts }
  · refine ⟨⟨⟨.inl ?_, h.met.seam_start⟩, fun g hg => .inr (htoken himport hexport g hg)⟩,
      ⟨⟨hle, h.met.seam_stop⟩, fun g hg => .inr (.inr ?_)⟩⟩
    · simp only [Scanner.token]
      omega
    · have := htoken himport hexport g hg
      simp only [Scanner.token] at this ⊢
      omega
  · refine ⟨⟨⟨.inr ⟨hclose, hhead, .inl rfl⟩, hmet'.seam_start⟩, fun g hg => .inr (hloop g hg)⟩,
      fun hbrace => ⟨⟨.inr ⟨hclose, hhead, .inr ⟨hbrace, rfl⟩⟩, ?_⟩, fun g hg => .inr ?_⟩⟩
    · rw [Scanner.token, ← hmet'.openBrace_stop hbrace]
      exact hmet'.seam_stop
    · exact (hloop g hg).trans (Nat.le_succ _)

/-- The cut of a whole statement has the space around it for its margin. -/
def newMargin (p p' : Scanner) (k : Cut) : Margin :=
  if k.whole then ⟨k, p.token.prevStop, p'.token.start⟩ else ⟨k, k.range.start, k.range.stop⟩

/-- The margin around a new cut is that of the cut. -/
theorem newMargin_cut (k : Cut) : (newMargin p p' k).cut = k := by
  unfold newMargin
  split <;> rfl

theorem newMargin_start (k : Cut) : (newMargin p p' k).start = k.range.start := by
  rw [Margin.start, newMargin_cut]

theorem newMargin_stop (k : Cut) : (newMargin p p' k).stop = k.range.stop := by
  rw [Margin.stop, newMargin_cut]

/-- The margin around a new cut reaches from the token before it to the token behind it. -/
theorem LaidOut.newMargin_drawn (h : p.LaidOut s gs) {k : Cut} (hcut : CutsTo s p p' k)
    (hmet' : Lexer.Met s p'.lexer) : (newMargin p p' k).Drawn s := by
  have hplaces := h.met.places_le
  have hplaces' := hmet'.places_le
  have hstart := hcut.start
  have hnonempty := hcut.nonempty
  have hstop := hcut.stop_le
  simp only [Scanner.token] at hplaces hplaces' hstart hstop
  refine
    { before_le := ?_
      nonempty := by rwa [newMargin_start, newMargin_stop]
      stop_le_length := by rw [newMargin_stop]; omega
      le_after := ?_
      seam_start := by rw [newMargin_start, hcut.start]; exact h.met.seam_start
      seam_stop := by rw [newMargin_stop]; exact hcut.seam
      keyword := fun hwhole => ⟨p.lexer, h.met, ?_, ?_, hcut.kind⟩
      follower := fun hwhole => ⟨p'.lexer, hmet', ?_, ?_⟩ }
  · rw [newMargin_start, newMargin]
    split
    · simp only [Scanner.token]
      omega
    · exact le_rfl
  · rw [newMargin_stop, newMargin]
    split
    · simp only [Scanner.token]
      omega
    · exact le_rfl
  · rw [newMargin_cut] at hwhole
    rw [newMargin, if_pos hwhole]
    rfl
  · rw [newMargin_start, hcut.start]
    rfl
  · rw [newMargin_cut] at hwhole
    rw [newMargin_stop, (hcut.whole hwhole).1]
    rfl
  · rw [newMargin_cut] at hwhole
    rw [newMargin, if_pos hwhole]
    rfl

/-- The margin of a new cut is clear of all that was remembered before. -/
theorem LaidOut.newMargin_clear (h : p.LaidOut s gs) {k : Cut} (hcut : CutsTo s p p' k)
    (hbody : k.whole = true → p.prev = .closeParen → p.lastClosed.kind ≠ .parenStatement) {n : Nat} :
    ((p.demands s gs).start n → (newMargin p p' k).ClearStart n) ∧
      ((p.demands s gs).stop n → (newMargin p p' k).ClearStop n) := by
  have hplaces := h.met.places_le
  have hstart := hcut.start
  simp only [Scanner.token] at hplaces hstart
  refine ⟨fun hn => .inl ?_, fun hn => .inl ?_⟩
  · have hreached : p.Reached n := hn.1.1
    simp only [Reached, Scanner.token] at hreached
    unfold newMargin
    split
    · rename_i hwhole
      obtain hle | ⟨hprev, hlast, -⟩ := hreached
      · exact hle
      · exact absurd hlast (hbody hwhole hprev)
    · have hkind : p.lexer.token.kind ≠ .openBrace := by
        obtain hk | hk := hcut.kind <;> simp only [Scanner.token] at hk <;> simp [hk]
      simp only [hkind, false_and, or_false] at hreached
      show n ≤ k.range.start
      omega
  · have hle : n ≤ p.token.prevStop := hn.1.1
    simp only [Scanner.token] at hle
    unfold newMargin
    split
    · exact hle
    · show n ≤ k.range.start
      omega

/-- A step keeps the layout, with one more cut or none. -/
theorem LaidOut.step (h : p.LaidOut s gs) : Ensures p.step fun p' => ∃ gs', p'.LaidOut s gs' := by
  intro p' hp'
  obtain ⟨hmet', hle, new, hnew, hcuts⟩ := h.leads hp'
  have hplaces := h.met.places_le
  have hplaces' := hmet'.places_le
  simp only [Scanner.token] at hle hplaces hplaces'
  -- the cuts that were made before are behind the new place
  have hbehind : ∀ g ∈ gs, g.after ≤ p'.token.prevStop := by
    intro g hg
    have := h.after_le hg
    simp only [Scanner.token] at this ⊢
    omega
  obtain rfl | ⟨k, rfl, hcut, hbody⟩ := hnew
  · refine ⟨gs, h.step_keeps hp' hcuts (fun n hn => hn.2) (fun n hn => hn.2)
      (fun _ _ g hg => h.after_le hg) (fun _ => hbehind) (fun g hg => (hbehind g hg).trans hplaces'.1),
      h.drawn, fun g hg => .inl (hbehind g hg), h.ordered⟩
  · have hstop := hcut.stop_le
    have hdrawn := h.newMargin_drawn hcut hmet'
    have hafter : (newMargin p p' k).after ≤ p'.token.start := by
      unfold newMargin
      split
      · exact le_rfl
      · exact hstop.trans hplaces'.1
    refine ⟨newMargin p p' k :: gs, h.step_keeps hp' ?_ ?_ ?_ ?_ ?_ ?_, ?_, ?_, ?_⟩
    · rw [List.map_cons, newMargin_cut]
      exact hcuts
    · intro n hn
      exact List.forall_mem_cons.2 ⟨(h.newMargin_clear hcut hbody).1 hn, hn.2⟩
    · intro n hn
      exact List.forall_mem_cons.2 ⟨(h.newMargin_clear hcut hbody).2 hn, hn.2⟩
    · intro himport hexport
      exact (hcut.kind.elim himport hexport).elim
    · intro hsemicolon
      refine List.forall_mem_cons.2 ⟨?_, hbehind⟩
      rw [newMargin, if_neg fun hwhole => hsemicolon (hcut.whole hwhole).2]
      exact hstop
    · exact List.forall_mem_cons.2 ⟨hafter, fun g hg => (hbehind g hg).trans hplaces'.1⟩
    · exact List.forall_mem_cons.2 ⟨hdrawn, h.drawn⟩
    · refine List.forall_mem_cons.2 ⟨?_, fun g hg => .inl (hbehind g hg)⟩
      by_cases hwhole : k.whole = true
      · exact .inr ⟨by rw [newMargin_stop]; exact (hcut.whole hwhole).1, hafter⟩
      · exact .inl (by rw [newMargin, if_neg hwhole]; exact hstop)
    · refine List.pairwise_cons.2 ⟨fun g hg => ⟨?_, ?_⟩, h.ordered⟩
      · have hle := (h.drawn g hg).le_after
        have hbefore : p.token.prevStop ≤ (newMargin p p' k).before := by
          unfold newMargin
          split
          · exact le_rfl
          · rw [hcut.start]
            exact hplaces.1
        obtain hg' | hg' := h.behind g hg
        · exact (hle.trans hg').trans hbefore
        · exact hg'.1.le.trans hbefore
      · rw [newMargin_start, hcut.start]
        exact h.after_le hg

/-- A token that is read again is at the same place, so the layout stays. -/
theorem LaidOut.retokenize (h : p.LaidOut s gs) : Ensures p.retokenize (LaidOut s gs) := by
  refine (h.keeps.retokenize h.stop_prevStop).mono ?_
  rintro p' ⟨hkeeps, hre⟩
  refine ⟨hkeeps.mono ?_ rfl (Nat.zero_le _), h.drawn, ?_, h.ordered⟩
  · refine ⟨fun n hn => ⟨⟨?_, hn.1.2⟩, hn.2⟩, fun n hn => ⟨⟨hre.prevStop ▸ hn.1.1, hn.1.2⟩, hn.2⟩,
      fun _ => id, fun _ => id⟩
    have hreached : p.Reached n := hn.1.1
    unfold Reached at hreached ⊢
    rw [hre.prevStop, hre.start, hre.prev, hre.lastClosed]
    exact hreached.imp_right fun ⟨hprev, hlast, hplace⟩ =>
      ⟨hprev, hlast, hplace.imp_right fun ⟨hkind, hn⟩ => ⟨hre.openBrace hkind, hn⟩⟩
  · intro g hg
    unfold Behind
    rw [hre.prevStop, hre.start]
    exact h.behind g hg

/-! ### Whole sources -/

/-- A scanner at the first token that it handles, when nothing is remembered but the cuts. -/
theorem laidOut_start {lx : Lexer} {o : Outline} (hlx : Lexer.Met s lx)
    (ho : o.Meets (layout s gs (Reached { lexer := lx }) (· ≤ lx.token.prevStop)))
    (hcuts : o.cuts.Perm (gs.map (·.cut))) (hdrawn : ∀ g ∈ gs, g.Drawn s)
    (hbehind : ∀ g ∈ gs, g.after ≤ lx.token.prevStop) (hordered : gs.Pairwise Margin.Follows) :
    LaidOut s gs { lexer := lx, outline := o } where
  keeps :=
    { lexer := hlx
      floor := Nat.zero_le _
      outline := ho
      cuts := hcuts
      top := ⟨by simp, by simp, by simp, by simp⟩
      below := by simp
      lastClosed := ⟨by simp, by simp, by simp, by simp⟩
      left := ⟨by simp, by simp⟩
      pending := by simp }
  drawn := hdrawn
  behind g hg := .inl (hbehind g hg)
  ordered := hordered

/-- Each step draws the margins of its cuts behind those before. -/
theorem LaidOut.run (h : p.LaidOut s gs) (fuel : Nat) :
    Ensures (p.run fuel) fun p' => ∃ gs', p'.LaidOut s gs' :=
  run_induct (I := fun p => ∃ gs, p.LaidOut s gs)
    (fun _ ⟨gs, hp⟩ => hp.retokenize.mono fun _ hp' => ⟨gs, hp'⟩) (fun _ ⟨_, hp⟩ _ => hp.step) fuel
    ⟨gs, h⟩

end Scanner

namespace Outline

/-- All that an outline tells lies around the cuts. -/
structure LaidOut (s : Source) (gs : List Margin) (o : Outline) : Prop where
  meets : o.Meets (layout s gs (· ≤ s.contents.length) (· ≤ s.contents.length))
  cuts : o.cuts.Perm (gs.map (·.cut))
  drawn : ∀ g ∈ gs, g.Drawn s
  ordered : gs.Pairwise Margin.Follows

variable {s : Source}

/-- At the end of the source the layout of the scanner is that of the outline. -/
theorem finish_laidOut {gs : List Margin} {p : Scanner} (h : p.LaidOut s gs) :
    Ensures p.finish (LaidOut s gs) := by
  refine (h.keeps.finish h.stop_prevStop).mono fun o ho =>
    ⟨ho.1.mono ?_, ho.2, h.drawn, h.ordered⟩
  have hlength := h.met.places_le
  refine ⟨fun n hn => ⟨⟨?_, hn.1.2⟩, hn.2⟩, fun n hn => ⟨⟨?_, hn.1.2⟩, hn.2⟩, fun _ => id, fun _ => id⟩
  · exact (h.reached_le_stop hn.1.1).trans hlength.2.2
  · have hle : n ≤ p.token.prevStop := hn.1.1
    simp only [Scanner.token] at hle
    omega

/-- The first line of a script that a shell reads is cut. -/
theorem hashbang_laidOut {lx lx' : Lexer} (h : Lexer.start s .script = .ok lx)
    (hkind : lx.token.kind = .hashbang) (h' : lx.next = .ok lx') :
    ∃ gs, Scanner.LaidOut s gs { lexer := lx', outline := { hashbang := lx.token.range } } := by
  have hmet : Lexer.Met s lx := .start h
  have hmet' := hmet.next h'
  have hlt := hmet.start_lt_stop (by simp [hkind]) (by simp [hkind])
  have hplaces := hmet.places_le
  have hstop := Scanner.stop_between hlt.le
  have hprev := Lexer.prevStop_of_next h'
  have hlen : 0 < lx.token.range.len := Nat.sub_pos_of_lt hlt
  refine ⟨[⟨⟨lx.token.range, false⟩, lx.token.start, lx.token.stop⟩], Scanner.laidOut_start hmet'
    ⟨by simp, by simp, by simp, by simp⟩ (by simp [Outline.cuts, hlen]) ?_ (by simp [hprev])
    (by simp)⟩
  refine List.forall_mem_singleton.2
    { before_le := le_rfl
      nonempty := by rw [Margin.stop, Token.range, hstop]; exact hlt
      stop_le_length := by rw [Margin.stop, Token.range, hstop]; exact hplaces.2.2
      le_after := by rw [Margin.stop, Token.range, hstop]
      seam_start := hmet.seam_start
      seam_stop := by rw [Margin.stop, Token.range, hstop]; exact hmet.seam_stop
      keyword := by simp
      follower := by simp }

/-- A source is opened with the margin of its first line, if that names an interpreter. -/
theorem opening_laidOut : Ensures (opening s) fun p => ∃ gs, p.LaidOut s gs := by
  intro p hp
  cases opening_ok p hp with
  | plain start =>
      exact ⟨[], Scanner.laidOut_start (.start start) ⟨by simp, by simp, by simp, by simp⟩ (by simp [cuts])
        (by simp) (by simp) (by simp)⟩
  | hashbang start kind moved => exact hashbang_laidOut start kind moved

/-- Wherever a source can be scanned, its cuts and places lie apart. -/
theorem scan_laidOut : Ensures (scan s) fun o => ∃ gs, o.LaidOut s gs := by
  rw [scan_eq]
  refine opening_laidOut.bind fun p hp => ?_
  obtain ⟨gs, hp⟩ := hp
  refine Ensures.bind (hp.run _) fun p' hp' => ?_
  obtain ⟨gs', hp'⟩ := hp'
  exact (finish_laidOut hp').mono fun o ho => ⟨gs', ho⟩

/-- The cuts of every outline can be laid out. -/
theorem read_laidOut {o : Outline} (h : read s = .ok o) : ∃ gs, o.LaidOut s gs := by
  unfold read at h
  split at h
  · cases h
  · rename_i o' hscan
    split at h
    · cases h
      exact scan_laidOut _ hscan
    · cases h

end Outline

end ModuleSystem

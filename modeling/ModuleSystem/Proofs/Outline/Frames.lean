import Mathlib.Data.List.TakeDrop
import ModuleSystem.Proofs.Outline.Progress

/-!
# The scanner — frames, brackets and assignments

The scanner keeps a frame for every open bracket, and for every assignment whose end is not known the depth
that it started at.  `Scanner.Consistent` says that its indices fit each other: every pending end belongs to a
write, a later one to a later write at the same depth or deeper, the frame of the module is the lowest one, and
a pattern is bound by a frame below it.  `Scanner.Holds ts hung` says besides what the frames and writes
have to do with the tokens `ts` that were read: the frames are the brackets that the tokens leave open, and since
a pending assignment started, the tokens have opened the brackets that lie above its frame.

While the brace that ends a substitution is read again, the frame of the substitution is closed and the bracket is
not; `hung` is what hangs over then.

* `Consistent.push`, `Holds.push`, …: what the single operations of the scanner keep.
* `Tracks s ts p`: the invariant between two turns.
* `Settled s ts left p`, `Poised s ts p q`: the invariant within a turn, before the current token is handled and when
  it is done with.
* `Poised.next`, `Settled.reads`: moving on.
-/

namespace ModuleSystem

/-- What a list with falling keys holds behind those from a bound on. -/
theorem lt_of_mem_dropWhile {α : Type} {key : α → Nat} {l : List α} (h : l.Pairwise fun a b => key b ≤ key a)
    {n : Nat} {a : α} (ha : a ∈ l.dropWhile fun a => n ≤ key a) : key a < n := by
  induction h with
  | nil => cases ha
  | @cons b l hb hl ih =>
      rw [List.dropWhile_cons] at ha
      split at ha
      · exact ih ha
      · rename_i hn
        have hlt : key b < n := by simpa using hn
        obtain rfl | ha := List.mem_cons.1 ha
        · exact hlt
        · exact (hb a ha).trans_lt hlt

/-- What does not satisfy the test is not dropped. -/
theorem mem_dropWhile_of_not {α : Type} {f : α → Bool} {l : List α} {a : α} (ha : a ∈ l) (hf : f a = false) :
    a ∈ l.dropWhile f := by
  have hsplit := List.takeWhile_append_dropWhile (p := f) (l := l)
  rw [← hsplit, List.mem_append] at ha
  refine ha.resolve_left fun ha => ?_
  have := List.mem_takeWhile_imp ha
  simp [hf] at this

/-! ### Frames -/

namespace FrameKind

/-- The bracket that a frame stands for. -/
def toBracket : FrameKind → Bracket
  | .paren | .parenStatement | .dynamicImport => .paren
  | .bracket | .arrayPattern => .square
  | .template => .template
  | _ => .brace

theorem closes_closer {k : FrameKind} (h : k ≠ .template) : k.closer.closes? = some k.toBracket := by
  cases k <;> first | rfl | exact absurd rfl h

theorem opens_closer (k : FrameKind) : k.closer.opens? = none := by cases k <;> rfl

end FrameKind

/-- Every pattern among the frames, the innermost first, is bound by a frame around it. -/
def Frame.Stacked : List Frame → Prop
  | [] => True
  | f :: fs => (f.kind.isPattern = true → f.declFrame < fs.length) ∧ Stacked fs

/-- The frame of a pattern's declaration has a smaller index than the pattern. -/
theorem Frame.Stacked.get {fs : List Frame} (h : Frame.Stacked fs) {i : Nat} {f : Frame}
    (hf : fs.reverse[i]? = some f) (hpattern : f.kind.isPattern = true) : f.declFrame < i := by
  induction fs with
  | nil => cases hf
  | cons g fs ih =>
      rw [List.reverse_cons, List.getElem?_append] at hf
      split at hf
      · exact ih h.2 hf
      · rename_i hi
        rw [List.length_reverse] at hf hi
        rw [List.getElem?_singleton] at hf
        split at hf
        · cases hf
          have := h.1 hpattern
          omega
        · cases hf

namespace Scanner

variable {s : Source} {p p' q r : Scanner} {left : Leftover} {ts us : List Token} {hung : List Bracket}

/-- The indices of a scanner fit each other. -/
structure Consistent (p : Scanner) : Prop where
  closes : p.closes.Pairwise fun later earlier => earlier.write < later.write ∧ earlier.depth ≤ later.depth
  bounds : ∀ c ∈ p.closes, c.write < p.outline.writes.length ∧ c.depth ≤ p.depth
  bottom : ∀ f ∈ (p.top :: p.below).getLast?, f.kind = .module
  patterns : Frame.Stacked (p.top :: p.below)
  exports : ∀ f ∈ p.top :: p.below, ∀ i ∈ f.decl.export?, p.outline.Declares i

/-- The indices fit each other as long as frames, writes and ends stay. -/
theorem Consistent.of_retains (h : p.Consistent) (hr : Retains p q) : q.Consistent where
  closes := hr.closes ▸ h.closes
  bounds := by
    rw [hr.closes, hr.writes, hr.depth]
    exact h.bounds
  bottom := by
    rw [hr.below]
    have hbottom := h.bottom
    cases hbelow : p.below with
    | nil => simpa [hbelow, hr.kind] using hbottom
    | cons f fs => simpa [hbelow] using hbottom
  patterns := by
    have hpatterns := h.patterns
    rw [hr.below]
    exact ⟨by rw [hr.kind, hr.declFrame]; exact hpatterns.1, hpatterns.2⟩
  exports := by
    rw [hr.below]
    intro f hf i hi
    obtain rfl | hf := List.mem_cons.1 hf
    · exact (hr.export? i hi).elim (fun hi => hr.declares i (h.exports _ List.mem_cons_self i hi)) id
    · exact hr.declares i (h.exports f (List.mem_cons_of_mem _ hf) i hi)

/-- The module is the only frame that nothing is below. -/
theorem Consistent.below_ne_nil (h : p.Consistent) (htop : p.top.kind ≠ .module) : p.below ≠ [] := by
  intro hbelow
  have hbottom := h.bottom
  rw [hbelow] at hbottom
  exact htop (hbottom p.top rfl)

/-! ### Closing and recording -/

@[simp] theorem closeWhile_closes (f : PendingClose → Bool) : (p.closeWhile f).closes = p.closes.dropWhile f := by
  rw [closeWhile, List.span_eq_takeWhile_dropWhile]

/-- Ending assignments sets the ends of their writes. -/
@[simp] theorem closeWhile_writes (f : PendingClose → Bool) : (p.closeWhile f).outline.writes =
    endWrites p.token.prevStop p.outline.writes (p.closes.takeWhile f) := by
  rw [closeWhile, List.span_eq_takeWhile_dropWhile]

/-- The ends of some writes are set. -/
theorem getElem?_endWrites (stop : Nat) (writes : List Write) (closing : List PendingClose) (i : Nat) :
    (endWrites stop writes closing)[i]? =
      writes[i]?.map fun w => if ∃ c ∈ closing, c.write = i then { w with stop } else w := by
  unfold endWrites
  induction closing generalizing writes with
  | nil => simp
  | cons c closing ih =>
      rw [List.foldl_cons, ih, List.getElem?_modify]
      cases writes[i]? with
      | none => rfl
      | some w =>
          by_cases hc : c.write = i
          · simp [hc]
          · simp [hc]

/-- Setting ends adds no write. -/
@[simp] theorem length_endWrites (stop : Nat) (writes : List Write) (closing : List PendingClose) :
    (endWrites stop writes closing).length = writes.length := by
  unfold endWrites
  induction closing generalizing writes with
  | nil => rfl
  | cons c closing ih => rw [List.foldl_cons, ih, List.length_modify]

/-- The assignments that stay open fit as before. -/
theorem Consistent.closeWhile (h : p.Consistent) (f : PendingClose → Bool) : (p.closeWhile f).Consistent where
  closes := by
    rw [closeWhile_closes]
    exact h.closes.sublist (List.dropWhile_sublist f)
  bounds c hc := by
    rw [closeWhile_closes] at hc
    rw [closeWhile_writes, length_endWrites]
    exact h.bounds c ((List.dropWhile_sublist f).subset hc)
  bottom := h.bottom
  patterns := h.patterns
  exports := h.exports

/-- Behind what starts at a depth, nothing is pending that started there. -/
theorem Consistent.depth_lt (h : p.Consistent) {depth : Nat} {c : PendingClose}
    (hc : c ∈ (p.closeWrites depth).closes) : c.depth < depth := by
  rw [closeWrites, closeWhile_closes] at hc
  exact lt_of_mem_dropWhile (h.closes.imp And.right) hc

/-- Together with writes, the assignments that refer to them are forgotten. -/
theorem Consistent.discardWrites (h : p.Consistent) (count : Nat) : (p.discardWrites count).Consistent := by
  unfold Scanner.discardWrites
  split
  · exact h
  · rename_i hcount
    refine
      { closes := h.closes.sublist (List.dropWhile_sublist _)
        bounds := fun c hc => ⟨?_, (h.bounds c ((List.dropWhile_sublist _).subset hc)).2⟩
        bottom := h.bottom
        patterns := h.patterns
        exports := h.exports }
    have hlt := lt_of_mem_dropWhile (h.closes.imp fun hab => hab.1.le) hc
    rw [List.length_take]
    omega

theorem Consistent.addWrite (h : p.Consistent) (targets : List Binding) (start stop : Nat) :
    (p.addWrite targets start stop).Consistent :=
  { h with
    bounds := fun c hc => ⟨by
      have := (h.bounds c hc).1
      simp only [Scanner.addWrite, List.length_append, List.length_singleton]
      omega, (h.bounds c hc).2⟩ }

/-- A new assignment refers to the last write, at the depth that is reached. -/
theorem Consistent.startWrite (h : p.Consistent) (targets : List Binding) (start : Nat) :
    (p.startWrite targets start).Consistent where
  closes := List.pairwise_cons.2 ⟨fun c hc => h.bounds c hc, h.closes⟩
  bounds c hc := by
    have hadd := (h.addWrite targets start 0).bounds c
    obtain rfl | hc := List.mem_cons.1 hc
    · exact ⟨by simp [Scanner.startWrite, Scanner.addWrite], le_rfl⟩
    · exact hadd hc
  bottom := h.bottom
  patterns := h.patterns
  exports := h.exports

/-! ### Opening and closing frames -/

/-- A frame that is opened comes to lie on top, and if it is a pattern, its declaration is further out. -/
theorem Consistent.push (h : p.Consistent) {f : Frame}
    (hpattern : f.kind.isPattern = true → f.declFrame ≤ p.below.length) (hexport : f.decl.export? = none) : (p.push f).Consistent where
  closes := h.closes
  bounds c hc := ⟨(h.bounds c hc).1, (h.bounds c hc).2.trans (by simp [Scanner.push, Scanner.depth])⟩
  bottom := by simpa [Scanner.push] using h.bottom
  patterns := ⟨fun hf => Nat.lt_succ_of_le (hpattern hf), h.patterns⟩
  exports g hg i hi := by
    obtain rfl | hg := List.mem_cons.1 hg
    · exact absurd hi (by simp [Scanner.push, hexport])
    · exact h.exports g hg i hi

/-- Where there is a frame around it, the innermost one is closed. -/
theorem pop_eq {f : Frame} {fs : List Frame} (hbelow : p.below = f :: fs) : p.pop = { p with
    top := f
    below := fs
    functionDepth := if p.top.kind = .functionBody then p.functionDepth - 1 else p.functionDepth } := by
  unfold Scanner.pop
  split
  · simp_all
  · rename_i g gs hg
    obtain ⟨rfl, rfl⟩ := List.cons.inj (hg.symm.trans hbelow)
    rfl

/-- A frame is closed when no assignment is open in it. -/
theorem Consistent.pop (h : p.Consistent) (hcloses : ∀ c ∈ p.closes, c.depth < p.depth) : p.pop.Consistent := by
  cases hbelow : p.below with
  | nil =>
      have heq : p.pop = p := by
        unfold Scanner.pop
        split
        · rfl
        · simp_all
      rwa [heq]
  | cons f fs =>
      rw [pop_eq hbelow]
      refine
        { closes := h.closes
          bounds := fun c hc => ⟨(h.bounds c hc).1, ?_⟩
          bottom := fun g hg => h.bottom g (by simpa [hbelow] using hg)
          patterns := (hbelow ▸ h.patterns).2
          exports := fun g hg i hi => h.exports g (List.mem_cons_of_mem _ (hbelow ▸ hg)) i hi }
      have hlt := hcloses c hc
      simp only [Scanner.depth, hbelow, List.length_cons] at hlt ⊢
      omega

/-! ### Brackets and frames -/

/-- The brackets of the frames above the module, the innermost first. -/
def stack (p : Scanner) : List Bracket := (p.top :: p.below).dropLast.map (·.kind.toBracket)

/-- The innermost frame that is not the module gives the innermost bracket. -/
theorem stack_cons {f : Frame} {fs : List Frame} (hbelow : p.below = f :: fs) :
    p.stack = p.top.kind.toBracket :: (f :: fs).dropLast.map (·.kind.toBracket) := by
  rw [stack, hbelow, List.dropLast_cons_cons, List.map_cons]

theorem stack_push (f : Frame) : (p.push f).stack = f.kind.toBracket :: p.stack := stack_cons (p := p.push f) rfl

/-- The brackets stay as long as the frames do. -/
theorem stack_of_retains (hr : Retains p q) : q.stack = p.stack := by
  cases hbelow : p.below with
  | nil => rw [stack, stack, hr.below, hbelow]; rfl
  | cons f fs => rw [stack_cons (hr.below.trans hbelow), stack_cons hbelow, hr.kind]

/-- The frames and writes of a scanner fit the tokens that were read, with some brackets that hang over. -/
structure Holds (ts : List Token) (hung : List Bracket) (p : Scanner) : Prop extends p.Consistent where
  stack : Bracket.after [] ts = some (hung ++ p.stack)
  frames : ∀ i f, (p.top :: p.below)[i]? = some f → i < p.below.length → f.kind ≠ .template →
    Opened ts f.start (hung ++ p.stack.take (i + 1))
  pending : ∀ c ∈ p.closes, ∀ w, p.outline.writes[c.write]? = some w →
    Opened ts w.start (hung ++ p.stack.take (p.depth - c.depth))
  ended : ∀ i w, p.outline.writes[i]? = some w → (∃ c ∈ p.closes, c.write = i) ∨ Wrapped ts w.start w.stop

/-- Frames and writes fit the tokens as long as they stay. -/
theorem Holds.of_retains (h : p.Holds ts hung) (hr : Retains p q) : q.Holds ts hung where
  toConsistent := h.toConsistent.of_retains hr
  stack := by rw [stack_of_retains hr]; exact h.stack
  frames := by
    rw [stack_of_retains hr, hr.below]
    intro i f hf hi hkind
    cases i with
    | zero =>
        cases hf
        rw [hr.start]
        exact h.frames 0 _ rfl hi (hr.kind ▸ hkind)
    | succ i => exact h.frames (i + 1) f hf hi hkind
  pending := by
    rw [stack_of_retains hr, hr.closes, hr.writes, hr.depth]
    exact h.pending
  ended := by
    rw [hr.closes, hr.writes]
    exact h.ended

/-- More tokens that close what hangs over, and leave open what was open around it. -/
theorem Holds.append (h : p.Holds ts hung) (hafter : ∀ st, Bracket.after (hung ++ st) us = some st) :
    p.Holds (ts ++ us) [] where
  toConsistent := h.toConsistent
  stack := by
    rw [Bracket.after_append, h.stack]
    exact hafter _
  frames i f hf hi hkind := (h.frames i f hf hi hkind).append (hafter _)
  pending c hc w hw := (h.pending c hc w hw).append (hafter _)
  ended i w hw := (h.ended i w hw).imp_right (·.append us)

theorem Holds.balanced (h : p.Holds ts []) (hus : Balanced us) : p.Holds (ts ++ us) [] := h.append fun _ => hus.after

/-- Assignments end with the last token that was read when all brackets that they opened are closed. -/
theorem Holds.closeWhile (h : p.Holds ts []) (hlast : ∀ t ∈ ts.getLast?, t.stop = p.token.prevStop)
    {f : PendingClose → Bool} (hf : ∀ c ∈ p.closes, f c = true → p.stack.take (p.depth - c.depth) = []) :
    (p.closeWhile f).Holds ts [] where
  toConsistent := h.toConsistent.closeWhile f
  stack := h.stack
  frames := h.frames
  pending c hc w hw := by
    rw [closeWhile_closes] at hc
    rw [closeWhile_writes, getElem?_endWrites] at hw
    obtain ⟨w', hw', rfl⟩ := Option.map_eq_some_iff.1 hw
    have hopened := h.pending c ((List.dropWhile_sublist f).subset hc) w' hw'
    split <;> exact hopened
  ended i w hw := by
    rw [closeWhile_writes, getElem?_endWrites] at hw
    obtain ⟨w', hw', rfl⟩ := Option.map_eq_some_iff.1 hw
    -- an assignment ends here, or it is pending or has ended as before
    by_cases hclosing : ∃ c ∈ p.closes.takeWhile f, c.write = i
    · obtain ⟨c, hc, rfl⟩ := hclosing
      have hmem := (List.takeWhile_sublist f).subset hc
      have hopened := h.pending c hmem w' hw'
      rw [hf c hmem (List.mem_takeWhile_imp hc)] at hopened
      rw [if_pos ⟨c, hc, rfl⟩]
      exact .inr (hopened.wrapped hlast)
    · rw [if_neg hclosing, closeWhile_closes]
      refine (h.ended i w' hw').imp_left fun ⟨c, hc, hi⟩ => ⟨c, ?_, hi⟩
      rw [← List.takeWhile_append_dropWhile (p := f) (l := p.closes), List.mem_append] at hc
      exact hc.resolve_left fun hc => hclosing ⟨c, hc, hi⟩

/-- The writes that end at this depth end with the last token, and their tokens are in balance. -/
theorem Holds.closeWrites (h : p.Holds ts []) (hlast : ∀ t ∈ ts.getLast?, t.stop = p.token.prevStop) :
    (p.closeWrites p.depth).Holds ts [] :=
  h.closeWhile hlast fun c _ hc => by rw [Nat.sub_eq_zero_of_le (by simpa using hc), List.take_zero]

/-- Forgetting writes leaves the others as they were. -/
theorem Holds.discardWrites (h : p.Holds ts hung) (count : Nat) : (p.discardWrites count).Holds ts hung := by
  have hconsistent := h.toConsistent.discardWrites count
  unfold Scanner.discardWrites at hconsistent ⊢
  split
  · exact h
  · rename_i hcount
    rw [if_neg hcount] at hconsistent
    refine
      { toConsistent := hconsistent
        stack := h.stack
        frames := h.frames
        pending := fun c hc w hw => ?_
        ended := fun i w hw => ?_ }
    · rw [List.getElem?_take] at hw
      split at hw
      · exact h.pending c ((List.dropWhile_sublist _).subset hc) w hw
      · cases hw
    · rw [List.getElem?_take] at hw
      split at hw
      · refine (h.ended i w hw).imp_left fun ⟨c, hc, hci⟩ => ⟨c, mem_dropWhile_of_not hc ?_, hci⟩
        simp only [decide_eq_false_iff_not]
        omega
      · cases hw

/-- A write whose tokens are in balance may be added. -/
theorem Holds.addWrite (h : p.Holds ts hung) {targets : List Binding} {start stop : Nat}
    (hw : Wrapped ts start stop) : (p.addWrite targets start stop).Holds ts hung where
  toConsistent := h.toConsistent.addWrite targets start stop
  stack := h.stack
  frames := h.frames
  pending c hc w hcw := by
    have hlt := (h.bounds c hc).1
    simp only [Scanner.addWrite, List.getElem?_append_left hlt] at hcw
    exact h.pending c hc w hcw
  ended i w hiw := by
    simp only [Scanner.addWrite, List.getElem?_append, List.getElem?_singleton] at hiw
    split at hiw
    · exact h.ended i w hiw
    · split at hiw
      · cases hiw
        exact .inr hw
      · cases hiw

/-- A write may start at a place from which on the tokens are in balance. -/
theorem Holds.startWrite (h : p.Holds ts []) {targets : List Binding} {start : Nat} (hstart : Opened ts start []) :
    (p.startWrite targets start).Holds ts [] where
  toConsistent := h.toConsistent.startWrite targets start
  stack := h.stack
  frames := h.frames
  pending c hc w hw := by
    obtain rfl | hc := List.mem_cons.1 hc
    · simp only [Scanner.startWrite, Scanner.addWrite, List.getElem?_concat_length, Option.some.injEq] at hw
      subst hw
      simpa [Scanner.startWrite, Scanner.addWrite, Scanner.depth] using hstart
    · have hlt := (h.bounds c hc).1
      simp only [Scanner.startWrite, Scanner.addWrite, List.getElem?_append_left hlt] at hw
      exact h.pending c hc w hw
  ended i w hw := by
    simp only [Scanner.startWrite, Scanner.addWrite, List.getElem?_append, List.getElem?_singleton] at hw
    split at hw
    · refine (h.ended i w hw).imp_left ?_
      rintro ⟨c, hc, hi⟩
      exact ⟨c, List.mem_cons_of_mem _ hc, hi⟩
    · rename_i hi
      split at hw
      · exact .inl ⟨_, List.mem_cons_self, by dsimp only; omega⟩
      · cases hw

/-- The current token opens a frame. -/
theorem Holds.push (h : p.Holds ts hung) {f : Frame}
    (hpass : ∀ st, Bracket.pass (hung ++ st) p.token.kind = some (f.kind.toBracket :: st))
    (hhung : f.kind = .template ∨ hung = [])
    (hpattern : f.kind.isPattern = true → f.declFrame ≤ p.below.length) (hexport : f.decl.export? = none) :
    (p.push f).Holds (ts ++ [p.token]) [] where
  toConsistent := h.toConsistent.push hpattern hexport
  stack := by
    rw [Bracket.after_concat h.stack, hpass, stack_push]
    rfl
  frames i g hg hi hkind := by
    rw [stack_push]
    cases i with
    | zero =>
        cases hg
        obtain htemplate | rfl := hhung
        · exact absurd htemplate hkind
        · exact Opened.single (hpass [])
    | succ i => exact (h.frames i g hg (by simpa [Scanner.push] using hi) hkind).concat (hpass _)
  pending c hc w hw := by
    have hdepth := (h.bounds c hc).2
    -- the new bracket lies above all frames since the assignment started
    rw [stack_push, show (p.push f).depth - c.depth = (p.depth - c.depth) + 1 by
      simp only [Scanner.push, Scanner.depth, List.length_cons] at hdepth ⊢
      omega]
    exact (h.pending c hc w hw).concat (hpass _)
  ended i w hw := (h.ended i w hw).imp_right (·.append _)

/-- The innermost frame is left, and its bracket hangs over. -/
theorem Holds.pop (h : p.Holds ts []) (hbelow : p.below ≠ []) (hcloses : ∀ c ∈ p.closes, c.depth < p.depth) :
    p.pop.Holds ts [p.top.kind.toBracket] := by
  have hconsistent := h.toConsistent.pop hcloses
  obtain ⟨f, fs, hbelow⟩ := List.exists_cons_of_ne_nil hbelow
  rw [pop_eq hbelow] at hconsistent ⊢
  have hstack := stack_cons hbelow
  refine
    { toConsistent := hconsistent
      stack := h.stack.trans (congrArg some hstack)
      frames := fun i g hg hi hkind => ?_
      pending := fun c hc w hw => ?_
      ended := h.ended }
  · have hopened := h.frames (i + 1) g (by rwa [hbelow]) (by simpa [hbelow] using hi) hkind
    rwa [hstack] at hopened
  · have hlt := hcloses c hc
    have hopened := h.pending c hc w hw
    rw [hstack] at hopened
    have hdepth : p.depth - c.depth = (fs.length + 1 - c.depth) + 1 := by
      simp only [Scanner.depth, hbelow, List.length_cons] at hlt ⊢
      omega
    rwa [hdepth] at hopened

/-- The current token closes the innermost frame. -/
theorem Holds.close (h : p.Holds ts []) (hlast : ∀ t ∈ ts.getLast?, t.stop = p.token.prevStop)
    (htemplate : p.top.kind ≠ .template) : Ensures p.close fun q => q.Holds (ts ++ [p.token]) [] ∧
      q.lexer = p.lexer ∧ q.left = p.left ∧ q.pendingUpdate = p.pendingUpdate ∧
      Opened (ts ++ [p.token]) q.lastClosed.start [] := by
  unfold Scanner.close
  split
  · exact .error
  · rename_i hcloser
    simp only [Bool.or_eq_true, not_or, decide_eq_true_eq, not_not, List.isEmpty_iff] at hcloser
    obtain ⟨hkind, hbelow⟩ := hcloser
    have hpass : ∀ st, Bracket.after (p.top.kind.toBracket :: st) [p.token] = some st := by
      intro st
      rw [Bracket.after_cons, ← hkind, Bracket.pass_closes (p.top.kind.closes_closer htemplate) p.top.kind.opens_closer]
      rfl
    have hpop := ((h.closeWrites hlast).pop hbelow fun c hc => h.toConsistent.depth_lt hc).append hpass
    obtain ⟨f, fs, hfs⟩ := List.exists_cons_of_ne_nil hbelow
    have hopened := h.frames 0 p.top rfl (by simp [hfs]) htemplate
    rw [stack_cons hfs] at hopened
    refine .ok ⟨{ hpop with }, ?_, ?_, ?_, hopened.append (hpass [])⟩
    all_goals
      dsimp only
      rw [pop_eq (p := p.closeWrites p.depth) hfs]
      rfl

end Scanner

/-! ### The invariant -/

namespace Scanner

variable {s : Source} {p p' q r : Scanner} {left : Leftover} {ts us : List Token}

/-- What hangs over before the current token is handled. -/
def hung (p : Scanner) : List Bracket := if p.token.kind.resumes then [.template] else []

/-- Only a token that goes on with a template has a bracket hanging over. -/
theorem hung_of_resumes (h : p.token.kind.resumes = false) : p.hung = [] := by
  rw [hung, h]
  rfl

theorem Holds.of_resumes (h : p.Holds ts []) (hresumes : p.token.kind.resumes = false) : p.Holds ts p.hung :=
  (hung_of_resumes hresumes).symm ▸ h

/-- Before the rest of a template, the bracket of its substitution hangs over. -/
theorem Holds.of_hanging (h : p.Holds ts [.template]) (hresumes : p.token.kind.resumes = true) : p.Holds ts p.hung := by
  rw [hung, if_pos hresumes]
  exact h

/-- After the tokens that were read, the scanner has its brackets and assignments in order. -/
structure Tracks (s : Source) (ts : List Token) (p : Scanner) : Prop where
  met : Lexer.Met s p.lexer
  last : ∀ t ∈ ts.getLast?, t.stop = p.token.prevStop
  holds : p.Holds ts p.hung
  closed : p.prev = .closeBracket ∨ p.prev = .closeBrace → Opened ts p.lastClosed.start []
  ref : ∀ b ∈ p.left.ref, Opened ts b.start []
  update : ∀ n ∈ p.left.update, Opened ts n []
  pending : ∀ u ∈ p.pendingUpdate, Opened ts u.1 []

/-- Nothing is noted for the next token yet. -/
structure Cleared (p : Scanner) : Prop where
  ref : p.left.ref = none
  update : p.left.update = none
  pending : p.pendingUpdate = none

theorem Cleared.of_retains (h : p.Cleared) (hr : Retains p q) : q.Cleared :=
  ⟨hr.ref.trans h.ref, hr.update.trans h.update, hr.pending.trans h.pending⟩

/-- All is settled for the current token: what the token before it left behind is set aside. -/
structure Settled (s : Source) (ts : List Token) (left : Leftover) (p : Scanner) : Prop where
  met : Lexer.Met s p.lexer
  last : ∀ t ∈ ts.getLast?, t.stop = p.token.prevStop
  holds : p.Holds ts p.hung
  closed : p.prev = .closeBracket ∨ p.prev = .closeBrace → Opened ts p.lastClosed.start []
  ref : ∀ b ∈ left.ref, Opened ts b.start []
  update : ∀ n ∈ left.update, Opened ts n []
  cleared : p.Cleared

/-- The scanner has moved on over some tokens, and has its brackets and assignments in order. -/
def Gets (s : Source) (ts : List Token) (p p' : Scanner) : Prop :=
  ∃ us, p.lexer.Goes us p'.lexer ∧ p'.Tracks s (ts ++ us)

/-- From the token of `p`, `q` can move on: with that token, its brackets and assignments are in order. -/
structure Poised (s : Source) (ts : List Token) (p q : Scanner) : Prop where
  met : Lexer.Met s p.lexer
  isLast : p.token.isLast = false
  lexer : q.lexer = p.lexer
  holds : q.Holds (ts ++ [p.token]) []
  closed : p.token.kind = .closeBracket ∨ p.token.kind = .closeBrace → Opened (ts ++ [p.token]) q.lastClosed.start []
  cleared : q.Cleared

theorem hung_of_alike (ha : Alike p q) : q.hung = p.hung := by rw [hung, ha.token, hung]

/-- A scanner that stays where it is, with its frames, stays in order. -/
theorem Tracks.of_retains (h : p.Tracks s ts) (hr : Retains p q) (ha : Alike p q) : q.Tracks s ts where
  met := ha.lexer ▸ h.met
  last := ha.token ▸ h.last
  holds := hung_of_alike ha ▸ h.holds.of_retains hr
  closed := by
    rw [ha.prev, ha.lastClosed]
    exact h.closed
  ref := by
    rw [hr.ref]
    exact h.ref
  update := by
    rw [hr.update]
    exact h.update
  pending := by
    rw [hr.pending]
    exact h.pending

/-- More is noted for the next token. -/
theorem Tracks.note (h : p.Tracks s ts) {l : Leftover} {u? : Option (Nat × Binding)}
    (href : ∀ b ∈ l.ref, Opened ts b.start []) (hupdate : ∀ n ∈ l.update, Opened ts n [])
    (hpending : ∀ u ∈ u?, Opened ts u.1 []) : ({ p with left := l, pendingUpdate := u? } : Scanner).Tracks s ts where
  met := h.met
  last := h.last
  holds := { h.holds with }
  closed := h.closed
  ref := href
  update := hupdate
  pending := hpending

/-- Changes that leave the frames alone may follow a move. -/
theorem Gets.of_retains (h : Gets s ts p p') (hr : Retains p' q) (ha : Alike p' q) : Gets s ts p q := by
  obtain ⟨us, hgoes, htracks⟩ := h
  exact ⟨us, ha.lexer ▸ hgoes, htracks.of_retains hr ha⟩

theorem Gets.of_lexer (h : Gets s ts q r) (hlexer : q.lexer = p.lexer) : Gets s ts p r := by
  obtain ⟨us, hgoes, htracks⟩ := h
  exact ⟨us, hlexer ▸ hgoes, htracks⟩

/-- What the token leaves behind may be set after the move. -/
theorem Gets.leave (h : Gets s ts p p') {f : Leftover → Leftover} (href : (f p'.left).ref = p'.left.ref)
    (hupdate : (f p'.left).update = p'.left.update) : Gets s ts p (p'.leave f) :=
  h.of_retains (retains_leave href hupdate) ⟨rfl, rfl, rfl⟩

/-- Changes that leave the frames alone may come between the handling of a token and the move. -/
theorem Poised.of_retains (h : Poised s ts p q) (hr : Retains q r) (hlexer : r.lexer = q.lexer) : Poised s ts p r :=
  { h with
    lexer := hlexer.trans h.lexer
    holds := h.holds.of_retains hr
    closed := hr.lastClosed ▸ h.closed
    cleared := h.cleared.of_retains hr }

/-- The token that is passed over is the last one that was read. -/
theorem last_concat {lx : Lexer} (h : p.lexer.next = .ok lx) :
    ∀ t ∈ (ts ++ [p.token]).getLast?, t.stop = lx.token.prevStop := by
  intro t ht
  rw [List.getLast?_concat, Option.mem_some_iff] at ht
  subst ht
  exact (Lexer.prevStop_of_next h).symm

/-- Moving on from a token. -/
theorem Poised.next (h : Poised s ts p q) (exprAllowed : Bool) : Ensures (q.next exprAllowed) fun p' =>
    p.lexer.Goes [p.token] p'.lexer ∧ p'.Tracks s (ts ++ [p.token]) := by
  intro p' hp'
  obtain ⟨lx, hlx, rfl⟩ := next_ok hp'
  rw [h.lexer] at hlx
  have hresumes := Lexer.resumes_of_next h.met hlx
  have htoken : q.token = p.token := congrArg Lexer.token h.lexer
  refine ⟨.one h.isLast hlx, ?_⟩
  exact
    { met := h.met.next hlx
      last := last_concat hlx
      holds := Holds.of_resumes { h.holds with } hresumes
      closed := by simpa only [htoken] using h.closed
      ref := by simp [h.cleared.ref]
      update := by simp [h.cleared.update]
      pending := by simp [h.cleared.pending] }

theorem Poised.gets (h : Poised s ts p q) (exprAllowed : Bool) : Ensures (q.next exprAllowed) (Gets s ts p) :=
  (h.next exprAllowed).mono fun _ hp' => ⟨_, hp'⟩

namespace Settled

variable (h : p.Settled s ts left)

include h

theorem hung_eq_nil (hkind : p.token.kind.resumes = false) : p.Holds ts [] := hung_of_resumes hkind ▸ h.holds

/-- What is settled stays settled as long as the frames and the place stay. -/
theorem of_retains (hr : Retains p q) (ha : Alike p q) : q.Settled s ts left where
  met := ha.lexer ▸ h.met
  last := ha.token ▸ h.last
  holds := hung_of_alike ha ▸ h.holds.of_retains hr
  closed := by
    rw [ha.prev, ha.lastClosed]
    exact h.closed
  ref := h.ref
  update := h.update
  cleared := h.cleared.of_retains hr

/-- Only writes and their ends change. -/
theorem record {o : Outline} {closes : List PendingClose} (hq : q = { p with outline := o, closes })
    (hholds : q.Holds ts q.hung) : q.Settled s ts left := by
  subst hq
  exact { h with holds := hholds, cleared := ⟨h.cleared.ref, h.cleared.update, h.cleared.pending⟩ }

/-- Assignments of this depth may end before the current token. -/
theorem closeWhile (hresumes : p.token.kind.resumes = false) {f : PendingClose → Bool}
    (hf : ∀ c ∈ p.closes, f c = true → p.depth ≤ c.depth) : (p.closeWhile f).Settled s ts left :=
  h.record rfl (.of_resumes ((h.hung_eq_nil hresumes).closeWhile h.last fun c hc hfc => by
    rw [Nat.sub_eq_zero_of_le (hf c hc hfc), List.take_zero]) hresumes)

theorem closeWrites (hresumes : p.token.kind.resumes = false) : (p.closeWrites p.depth).Settled s ts left :=
  h.record rfl (.of_resumes ((h.hung_eq_nil hresumes).closeWrites h.last) hresumes)

theorem discardWrites (count : Nat) : (p.discardWrites count).Settled s ts left := by
  have hholds := h.holds.discardWrites count
  unfold Scanner.discardWrites at hholds ⊢
  split
  · exact h
  · rename_i hcount
    rw [if_neg hcount] at hholds
    exact h.record rfl hholds

/-- An assignment may start at its target. -/
theorem startWrite (hresumes : p.token.kind.resumes = false) {targets : List Binding} {start : Nat}
    (hstart : Opened ts start []) : (p.startWrite targets start).Settled s ts left :=
  h.record rfl (.of_resumes ((h.hung_eq_nil hresumes).startWrite hstart) hresumes)

/-- A token that is no bracket. -/
theorem poised (hplain : p.token.kind.isPlain = true) : Poised s ts p p where
  met := h.met
  isLast := Lexer.isLast_of_isPlain hplain
  lexer := rfl
  holds := (h.hung_eq_nil (TokenKind.resumes_of_isPlain hplain)).balanced (.plain hplain)
  closed hkind := by obtain hkind | hkind := hkind <;> rw [hkind] at hplain <;> cases hplain
  cleared := h.cleared

/-- A token that is no bracket may be passed over after changes that leave the frames alone. -/
theorem next_of_retains (hplain : p.token.kind.isPlain = true) (hr : Retains p q) (hlexer : q.lexer = p.lexer)
    (exprAllowed : Bool) : Ensures (q.next exprAllowed) (Gets s ts p) :=
  ((h.poised hplain).of_retains hr hlexer).gets exprAllowed

theorem next (hplain : p.token.kind.isPlain = true) (exprAllowed : Bool) :
    Ensures (p.next exprAllowed) (Gets s ts p) :=
  h.next_of_retains hplain (.refl p) rfl exprAllowed

/-- The end of a template. -/
theorem poised_tail (hkind : p.token.kind = .templateTail) : Poised s ts p p where
  met := h.met
  isLast := Lexer.isLast_of_kind hkind rfl
  lexer := rfl
  holds := h.holds.append fun st => by
    rw [Scanner.hung, Bracket.after_cons, hkind]
    rfl
  closed := by simp [hkind]
  cleared := h.cleared

/-- The current token opens a frame. -/
theorem poised_push {f : Frame} (hlast : p.token.isLast = false)
    (hpass : ∀ st, Bracket.pass (p.hung ++ st) p.token.kind = some (f.kind.toBracket :: st))
    (hhung : f.kind = .template ∨ p.hung = []) (hpattern : f.kind.isPattern = true → f.declFrame ≤ p.below.length)
    (hexport : f.decl.export? = none) : Poised s ts p (p.push f) where
  met := h.met
  isLast := hlast
  lexer := rfl
  holds := h.holds.push hpass hhung hpattern hexport
  closed hkind := by
    have hpass' := hpass []
    obtain hkind | hkind := hkind <;> rw [hung, hkind] at hpass' <;> cases hpass'
  cleared := ⟨h.cleared.ref, h.cleared.update, h.cleared.pending⟩

/-- A bracket that is no part of a template opens a frame. -/
theorem poised_open {f : Frame} {b : Bracket} (hopens : p.token.kind.opens? = some b)
    (hcloses : p.token.kind.closes? = none) (hf : f.kind.toBracket = b)
    (hpattern : f.kind.isPattern = true → f.declFrame ≤ p.below.length) (hexport : f.decl.export? = none) :
    Poised s ts p (p.push f) := by
  have hhung : p.hung = [] := hung_of_resumes (TokenKind.resumes_of_closes?_eq_none hcloses)
  refine h.poised_push (Lexer.isLast_of_opens? hopens) (fun st => ?_) (.inr hhung) hpattern hexport
  · rw [hhung, Bracket.pass_opens hopens hcloses, hf]
    rfl

end Settled

/-- What moving on over a whole statement keeps. -/
theorem Settled.reads (h : p.Settled s ts left) (hresumes : p.token.kind.resumes = false) (hr : Reads p q) :
    Gets s ts p q := by
  obtain ⟨us, hgoes, hus⟩ := hr.goes
  have hcleared := h.cleared.of_retains hr.toRetains
  refine ⟨us, hgoes, ?_⟩
  refine
    { met := hgoes.met h.met
      last := hgoes.prevStop h.last
      holds := ?_
      closed := fun hprev => (hprev.elim hr.prev.1 hr.prev.2).elim
      ref := by simp [hcleared.ref]
      update := by simp [hcleared.update]
      pending := by simp [hcleared.pending] }
  rw [hung_of_resumes (hgoes.resumes h.met hresumes)]
  exact ((h.hung_eq_nil hresumes).of_retains hr.toRetains).balanced hus

/-- Moving on before the statement is known. -/
theorem Settled.advance (h : p.Settled s ts left) (hplain : p.token.kind.isPlain = true) :
    Ensures p.advance fun q => p.lexer.Goes [p.token] q.lexer ∧ q.Settled s (ts ++ [p.token]) {} ∧
      q.token.kind.resumes = false := by
  intro q hq
  obtain ⟨lx, hlx, rfl⟩ := advance_ok hq
  have hpoised := h.poised hplain
  have hresumes := Lexer.resumes_of_next h.met hlx
  refine ⟨.one hpoised.isLast hlx, ?_, hresumes⟩
  refine
    { met := h.met.next hlx
      last := last_concat hlx
      holds := Holds.of_resumes { hpoised.holds with } hresumes
      closed := fun hprev => (h.closed hprev).append ((Balanced.plain hplain).after)
      ref := by simp
      update := by simp
      cleared := ⟨h.cleared.ref, h.cleared.update, h.cleared.pending⟩ }

/-- Tokens that were passed over before count for the whole move. -/
theorem Gets.of_goes (hgoes : p.lexer.Goes us q.lexer) (h : Gets s (ts ++ us) q r) : Gets s ts p r := by
  obtain ⟨vs, hgoes', htracks⟩ := h
  exact ⟨us ++ vs, hgoes.trans hgoes', by rwa [← List.append_assoc]⟩

end Scanner

end ModuleSystem

import ModuleSystem.Proofs.Outline.Consistency

/-!
# The scanner — every assignment is put between brackets as a whole

The outline of a source tells where its assignments start and end, and code is put around each of them.  What
is between is made up of whole tokens in which all brackets pair up, so that the code before it and the code
behind it are inside of the same bracket.

* `Scanner.Runs p ts q`: from `p` on, the scanner reads the tokens `ts`, and comes to the end of the source in `q`.
* `Outline.Tokens s ts`: the tokens of a source as the scanner reads them, slashes and braces read again.
* `writes_wrapped`: the assignments of an outline.
-/

namespace ModuleSystem

variable {s : Source} {ts us vs : List Token}

namespace Scanner

variable {p p' q r r' : Scanner} {fuel : Nat}

/-- Turn after turn, the scanner reads these tokens up to the end of the source. -/
inductive Runs : Scanner → List Token → Scanner → Prop where
  | done {p q : Scanner} (h : p.retokenize = .ok q) (hend : q.token.kind = .endOfFile) : Runs p [] q
  | turn {p q p' r : Scanner} {us ts : List Token} (h : p.retokenize = .ok q) (hend : q.token.kind ≠ .endOfFile)
      (hstep : q.step = .ok p') (hgoes : q.lexer.Goes us p'.lexer) (tail : Runs p' ts r) : Runs p (us ++ ts) r

/-- The scanner reads one sequence of tokens. -/
theorem Runs.unique (h : Runs p us r) (h' : Runs p vs r') (hp : Outline.AtTurn s p) : us = vs := by
  induction h generalizing vs with
  | done h hend =>
      cases h' with
      | done => rfl
      | turn h' hend' =>
          cases h.symm.trans h'
          exact absurd hend hend'
  | turn h hend hstep hgoes _ ih =>
      cases h' with
      | done h' hend' =>
          cases h.symm.trans h'
          exact absurd hend' hend
      | turn h' _ hstep' hgoes' tail' =>
          cases h.symm.trans h'
          cases hstep.symm.trans hstep'
          rw [hgoes.unique hgoes' (hp.rereads h).1, ih tail' (.inr ⟨_, hp.handles h hend, hstep⟩)]

/-- The tokens lie one behind the other. -/
theorem Runs.inOrder (h : Runs p us r) (hp : Outline.AtTurn s p) (hts : InOrder ts)
    (hbefore : ∀ t ∈ ts, t.stop ≤ p.token.prevStop) : InOrder (ts ++ us) := by
  induction h generalizing ts with
  | done => simpa using hts
  | turn h hend hstep hgoes _ ih =>
      obtain ⟨hmet, hre⟩ := hp.rereads h
      obtain ⟨hts', hbefore'⟩ := hgoes.inOrder hmet hts fun t ht => (hbefore t ht).trans hre.prevStop.ge
      rw [← List.append_assoc]
      exact ih (.inr ⟨_, hp.handles h hend, hstep⟩) hts' hbefore'

/-- What the scanner has in order at a turn, it has in order at the end. -/
theorem Tracks.run (h : p.Tracks s ts) (hp : Outline.AtTurn s p)
    (hvalid : ∀ q, Outline.Handles s q → q.token.kind ≠ .invalid) (hrun : p.run fuel = .ok r) :
    ∃ us, Runs p us r ∧ r.Tracks s (ts ++ us) ∧ r.token.kind = .endOfFile := by
  induction fuel generalizing p ts with
  | zero => cases hrun
  | succ fuel ih =>
      rw [Scanner.run] at hrun
      cases hread : p.retokenize with
      | error f =>
          rw [hread] at hrun
          cases hrun
      | ok q =>
          rw [hread, ok_bind] at hrun
          obtain ⟨hq, htemplate⟩ := h.retokenize q hread
          split at hrun
          · rename_i hend
            cases hrun
            exact ⟨[], .done hread hend, by rwa [List.append_nil], hend⟩
          · rename_i hend
            have hhandles := hp.handles hread hend
            cases hstep : q.step with
            | error f =>
                rw [hstep] at hrun
                cases hrun
            | ok p' =>
                rw [hstep, ok_bind] at hrun
                have hlast : q.token.isLast = false := by simp [Token.isLast, hend, hvalid q hhandles]
                obtain ⟨us, hgoes, hp'⟩ := hq.step hlast htemplate p' hstep
                obtain ⟨vs, hruns, htracks, hr⟩ := ih hp' (.inr ⟨q, hhandles, hstep⟩) hrun
                exact ⟨us ++ vs, .turn hread hend hstep hgoes hruns, by rwa [← List.append_assoc], hr⟩

/-- At the end of the source, every bracket is closed and every assignment has an end. -/
theorem Tracks.finish (h : p.Tracks s ts) (hend : p.token.kind = .endOfFile) :
    Ensures p.finish fun o => Balanced ts ∧ ∀ w ∈ o.writes, Wrapped ts w.start w.stop := by
  have hholds : p.Holds ts [] := hung_of_resumes (by rw [hend]; rfl) ▸ h.holds
  have hclose : ∀ q : Scanner, q.Holds ts [] → q.below = [] → q.token = p.token →
      ∀ w ∈ (q.closeWrites 0).outline.writes, Wrapped ts w.start w.stop := by
    intro q hq hbelow htoken w hw
    have hended := (hq.closeWhile (f := fun c => 0 ≤ c.depth) (htoken ▸ h.last) (by simp [stack, hbelow])).ended
    obtain ⟨i, hi⟩ := List.mem_iff_getElem?.1 hw
    refine (hended i w hi).resolve_left ?_
    rw [closeWhile_closes, List.dropWhile_eq_nil_iff.2 (by simp)]
    simp
  intro o ho
  obtain ⟨hbelow, q, hq, rfl⟩ := finish_ok ho
  refine ⟨by rw [Balanced, hholds.stack]; simp [stack, hbelow], ?_⟩
  obtain rfl | ⟨u, hu, rfl⟩ := hq
  · exact hclose q hholds hbelow rfl
  · exact hclose _ (hholds.addWrite ((h.pending u hu).wrapped h.last)) hbelow rfl

end Scanner

namespace Outline

variable {o : Outline}

/-- These are the tokens of a source when the scanner reads them. -/
def Tokens (s : Source) (ts : List Token) : Prop :=
  ∃ lx us p vs r, Lexer.start s .script = .ok lx ∧ opening s = .ok p ∧ lx.Goes us p.lexer ∧ Scanner.Runs p vs r ∧
    ts = us ++ vs

/-- A source has one sequence of tokens at most. -/
theorem Tokens.unique (h : Tokens s ts) (h' : Tokens s us) : ts = us := by
  obtain ⟨lx, before, p, after, r, hlx, hopen, hgoes, hruns, rfl⟩ := h
  obtain ⟨lx', before', p', after', r', hlx', hopen', hgoes', hruns', rfl⟩ := h'
  cases hlx.symm.trans hlx'
  cases hopen.symm.trans hopen'
  rw [hgoes.unique hgoes' (.start hlx), hruns.unique hruns' (.inl hopen)]

/-- The tokens of a source come one behind the other. -/
theorem Tokens.inOrder (h : Tokens s ts) : InOrder ts := by
  obtain ⟨lx, before, p, after, r, hlx, hopen, hgoes, hruns, rfl⟩ := h
  obtain ⟨hbefore, hle⟩ := hgoes.inOrder (.start hlx) (show InOrder [] from ⟨by simp, .nil⟩) (by simp)
  exact hruns.inOrder (.inl hopen) hbefore hle

/-- In `[x=y++,(z=1)]` an assignment stands in another one's bracket. -/
def nested : Source := { key := "m", name := "m", contents := "[x=y++,(z=1)]" }

end Outline

end ModuleSystem

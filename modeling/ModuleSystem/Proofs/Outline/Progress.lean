import ModuleSystem.Proofs.Outline.Faults
import ModuleSystem.Proofs.Outline.Handles
import ModuleSystem.Proofs.Outline.Layout

/-!
# The scanner — every turn gets on

A turn of the scanner reads the current token again where it has to, and handles it, with the whole statement
that it may start.  Either it stops with a fault, or the scanner stands on a later token, whatever the
tokens are: only the end and a character that starts no token are never left.

* `AtTurn.start_lt`: a turn gets on.
* `Scanner.Ends p x`: turn after turn, without any bound on their number, scanning from `p` comes to `x`.
* `turns_get_on`: scanning comes to an end wherever every character starts a token.
-/

namespace ModuleSystem

variable {s : Source}

namespace Scanner

variable {p q : Scanner}

/-! ### Turns -/

/-- The current token is read again if it has to be, and handled. -/
def turn (p : Scanner) : Except Fault Scanner := p.retokenize >>= step

/-- A token that is read again is no end and no lone character, and neither was the token before. -/
theorem isLast_of_retokenize (h : p.retokenize = .ok q) : q.token.isLast = p.token.isLast := by
  obtain ⟨rfl, -⟩ | ⟨lx, hkind, hlx, rfl⟩ | ⟨lx, hkind, -, hlx, rfl⟩ := retokenize_ok h
  · rfl
  · have hregExp : lx.token.kind = .regExp := Lexer.kind_of_asRegExp hlx
    obtain hkind | hkind := hkind <;> rw [Token.isLast, Token.isLast, hkind] <;>
      rw [show Scanner.token _ = lx.token from rfl, hregExp] <;> rfl
  · have hresumes := Lexer.resumes_of_asTemplate hlx
    rw [Token.isLast, Token.isLast, hkind, show Scanner.token _ = lx.token from rfl]
    simp only [TokenKind.resumes, Bool.or_eq_true, beq_iff_eq] at hresumes
    obtain hk | hk := hresumes <;> rw [hk] <;> rfl

end Scanner

namespace Outline

variable {p p' q : Scanner}

/-- The scanner comes to a turn in this state when it reads the source. -/
def AtTurn (s : Source) (p : Scanner) : Prop := opening s = .ok p ∨ ∃ q, Handles s q ∧ q.step = .ok p

/-- Wherever a token is handled, the cuts so far are laid out. -/
theorem Handles.laidOut (h : Handles s p) : ∃ gs, p.LaidOut s gs := by
  induction h with
  | first hopen hread _ =>
      obtain ⟨gs, hp⟩ := opening_laidOut _ hopen
      exact ⟨gs, hp.retokenize _ hread⟩
  | next _ hstep hread _ ih =>
      obtain ⟨gs, hp⟩ := ih
      obtain ⟨gs', hq⟩ := hp.step _ hstep
      exact ⟨gs', hq.retokenize _ hread⟩

namespace AtTurn

/-- Wherever a turn begins, the cuts so far are laid out. -/
theorem laidOut (h : AtTurn s p) : ∃ gs, p.LaidOut s gs := by
  obtain hopen | ⟨q, hq, hstep⟩ := h
  · exact opening_laidOut p hopen
  · obtain ⟨gs, hlaid⟩ := hq.laidOut
    exact hlaid.step p hstep

/-- Wherever a turn begins, the lexer reads the source. -/
theorem met (h : AtTurn s p) : Lexer.Met s p.lexer := by
  obtain ⟨gs, hlaid⟩ := h.laidOut
  exact hlaid.met

/-- The token that is read again stands where the current token does. -/
theorem rereads (h : AtTurn s p) (hread : p.retokenize = .ok q) : Lexer.Met s q.lexer ∧ p.Rereads q := by
  obtain ⟨gs, hlaid⟩ := h.laidOut
  obtain ⟨hkeeps, hre⟩ := hlaid.keeps.retokenize hlaid.stop_prevStop q hread
  exact ⟨hkeeps.lexer, hre⟩

/-- A turn reads its token again, and handles it unless it is the end. -/
theorem handles (h : AtTurn s p) (hread : p.retokenize = .ok q) (hend : q.token.kind ≠ .endOfFile) :
    Handles s q := by
  obtain hopen | ⟨q', hq', hstep⟩ := h
  · exact .first hopen hread hend
  · exact .next hq' hstep hread hend

/-- The scanner gets on. -/
theorem start_lt (h : AtTurn s p) (hlast : p.token.isLast = false) (hread : p.retokenize = .ok q)
    (hstep : q.step = .ok p') : p.token.start < p'.token.start := by
  obtain ⟨gs, hlaid⟩ := h.laidOut
  have hq := hlaid.retokenize q hread
  obtain ⟨hmet', hle, -⟩ := hq.leads hstep
  have hlt : q.token.start < q.token.stop :=
    Lexer.start_lt_stop_of_isLast hq.met (by rwa [← Scanner.isLast_of_retokenize hread] at hlast)
  have hplaces' := hmet'.places_le
  have hstart := (h.rereads hread).2.start
  simp only [Scanner.token] at *
  omega

end AtTurn

end Outline

/-! ### Whole sources -/

namespace Scanner

variable {p p' q : Scanner} {x : Except Fault Scanner}

/-- Turn after turn, scanning comes to this end: the scanner at the end of the source, or a fault. -/
inductive Ends : Scanner → Except Fault Scanner → Prop where
  | misread {p : Scanner} {f : Fault} (h : p.retokenize = .error f) : Ends p (.error f)
  | last {p q : Scanner} (h : p.retokenize = .ok q) (hend : q.token.kind = .endOfFile) : Ends p (.ok q)
  | fault {p q : Scanner} {f : Fault} (h : p.retokenize = .ok q) (hend : q.token.kind ≠ .endOfFile)
      (hstep : q.step = .error f) : Ends p (.error f)
  | turn {p q p' : Scanner} {x : Except Fault Scanner} (h : p.retokenize = .ok q)
      (hend : q.token.kind ≠ .endOfFile) (hstep : q.step = .ok p') (tail : Ends p' x) : Ends p x

/-- Scanning that comes to an end comes to a state, or to a fault that is legible. -/
theorem Ends.legible (h : Ends p x) (hp : Outline.AtTurn s p) : Fails x (Fault.Legible s) := by
  induction h with
  | misread h => exact .error (retokenize_legible _ h)
  | last => exact .ok
  | fault h _ hstep => exact .error (step_legible (hp.rereads h).1 _ hstep)
  | turn h hend hstep _ ih => exact ih (.inr ⟨_, hp.handles h hend, hstep⟩)

/-- Where every character starts a token, the bound on the turns is never reached. -/
theorem ends_run (hvalid : ∀ q, Outline.Handles s q → q.token.kind ≠ .invalid) {fuel : Nat}
    (hp : Outline.AtTurn s p) (hfuel : s.contents.length < fuel + p.token.start) : Ends p (p.run fuel) := by
  induction fuel generalizing p with
  | zero =>
      have hplaces := hp.met.places_le
      simp only [Scanner.token] at hfuel
      omega
  | succ fuel ih =>
      rw [Scanner.run]
      cases hread : p.retokenize with
      | error f => exact .misread hread
      | ok q =>
          simp only [bind, Except.bind]
          split
          · exact .last hread ‹_›
          · rename_i hend
            have hq := hp.handles hread hend
            cases hstep : q.step with
            | error f => exact .fault hread hend hstep
            | ok p' =>
                have hlast : p.token.isLast = false := by
                  rw [← isLast_of_retokenize hread, Token.isLast]
                  simp [hend, hvalid q hq]
                -- the start of the token rises as the bound falls
                have hlt := hp.start_lt hlast hread hstep
                exact .turn hread hend hstep (ih (.inr ⟨q, hq, hstep⟩) (by omega))

/-- A character that starts no token is never left, and nothing is done with it. -/
theorem step_invalid (h : p.token.kind = .invalid) : ∃ lx, lx.token.kind = .invalid ∧
    p.step = .ok { p.settled.1 with prev := .invalid, exprAllowed := true, lexer := lx } := by
  have hkind : p.settled.1.token.kind = .invalid := by rw [p.settled_alike.token, h]
  rw [step_eq_handleToken]
  generalize p.settled = r at hkind
  obtain ⟨lx, hlx, hlast⟩ : ∃ lx, r.1.lexer.next = .ok lx ∧ lx.token.kind = .invalid := by
    rw [Lexer.next, if_pos (show r.1.lexer.token.kind = .invalid from hkind)]
    exact ⟨_, rfl, rfl⟩
  refine ⟨lx, hlast, ?_⟩
  have hname : TokenKind.isName .invalid = false := rfl
  have hkey : (if r.2.keyPosition = true then r.1.stepKey else none) = none := by
    split
    · unfold Scanner.stepKey
      simp [hkind, hname]
    · rfl
  have hstep : r.1.stepKind r.2 = r.1.next true := by
    unfold Scanner.stepKind
    simp only [hkind]
    rfl
  unfold Scanner.handleToken
  rw [if_neg (by simp [hkind, hname]), hkey]
  dsimp only
  rw [hstep, Scanner.next, Scanner.advance, hlx, hkind]
  rfl

/-- A character that starts no token is not read again. -/
theorem retokenize_invalid (h : p.token.kind = .invalid) : p.retokenize = .ok p := by
  unfold Scanner.retokenize
  simp only [h]
  rfl

end Scanner

namespace Outline

open Scanner (step_invalid retokenize_invalid ends_run)

variable {p p' q : Scanner} {fuel : Nat}

/-- Scanning the source comes to this end. -/
def Ends (s : Source) (x : Except Fault Outline) : Prop :=
  (∃ f, opening s = .error f ∧ x = .error f) ∨
    ∃ p r, opening s = .ok p ∧ p.Ends r ∧ x = r >>= Scanner.finish

/-- Opening a source fails legibly: at its first tokens. -/
theorem opening_legible : Fails (opening s) (Fault.Legible s) := by
  unfold opening
  refine Lexer.next_legible.bind fun lx _ => ?_
  split
  · exact Lexer.next_legible.bind fun _ _ => .ok
  · exact .ok

/-- The end of a source fails legibly: where a bracket is still open. -/
theorem finish_legible : Fails p.finish (Fault.Legible s) := by
  unfold Scanner.finish
  split
  · exact .ok
  · exact .error trivial

/-- Scanning that has come to a token goes on from there, unless it is cut off before. -/
theorem Handles.scan_eq (h : Handles s p) :
    (∃ n, scan s = .error (.endless n)) ∨ ∃ fuel, scan s = p.step >>= Outline.readRest fuel := by
  have hturn : ∀ {p p' : Scanner} {fuel : Nat}, p.retokenize = .ok p' → p'.token.kind ≠ .endOfFile →
      Outline.readRest (fuel + 1) p = p'.step >>= Outline.readRest fuel := by
    intro p p' fuel hread hend
    rw [Outline.readRest, Scanner.run, hread]
    simp only [bind, Except.bind, if_neg hend]
    cases p'.step <;> rfl
  -- on the turns before the token: each takes one from the bound
  induction h with
  | first hopen hread hend =>
      refine .inr ⟨s.contents.length + 1, ?_⟩
      rw [Outline.scan_eq, hopen, ok_bind, hturn hread hend]
  | @next p q p' _ hstep hread hend ih =>
      obtain hcut | ⟨fuel, hscan⟩ := ih
      · exact .inl hcut
      · rw [hstep, ok_bind] at hscan
        cases fuel with
        | zero => exact .inl ⟨_, hscan⟩
        | succ fuel => exact .inr ⟨fuel, by rw [hscan, hturn hread hend]⟩

/-- From a character that starts no token, scanning gets nowhere. -/
theorem readRest_invalid (h : p.token.kind = .invalid) : ∃ n, readRest fuel p = .error (.endless n) := by
  induction fuel generalizing p with
  | zero => exact ⟨_, rfl⟩
  | succ fuel ih =>
      obtain ⟨lx, hlx, hstep⟩ := step_invalid h
      obtain ⟨n, hn⟩ := ih (p := { p.settled.1 with prev := .invalid, exprAllowed := true, lexer := lx }) hlx
      refine ⟨n, ?_⟩
      rw [readRest, Scanner.run, retokenize_invalid h]
      simp only [bind, Except.bind, h, reduceCtorEq, if_false, hstep]
      exact hn

/-- From a character that starts no token, scanning does not get away. -/
theorem scan_invalid (h : Handles s p) (hinvalid : p.token.kind = .invalid) : ∃ n, scan s = .error (.endless n) := by
  obtain hcut | ⟨fuel, hscan⟩ := h.scan_eq
  · exact hcut
  · obtain ⟨lx, hlx, hstep⟩ := step_invalid hinvalid
    rw [hscan, hstep, ok_bind]
    exact readRest_invalid (p := { p.settled.1 with prev := .invalid, exprAllowed := true, lexer := lx }) hlx

/-- Every turn of the scanner stops with a fault or comes to a later token, unless the current token is the end
or a character that starts no token. So where each character starts a token, scanning comes to an end, which is
the outline or a fault that is reported; any other source is scanned forever. -/
theorem turns_get_on (s : Source) :
    (∀ p, AtTurn s p → p.token.kind ≠ .endOfFile → p.token.kind ≠ .invalid →
      (∃ f, p.turn = .error f ∧ f.Legible s) ∨ ∃ p', p.turn = .ok p' ∧ p.token.start < p'.token.start) ∧
    ((∀ q, Handles s q → q.token.kind ≠ .invalid) → Ends s (scan s) ∧ Fails (scan s) (Fault.Legible s)) ∧
    ∀ q, Handles s q → q.token.kind = .invalid → ∃ n, scan s = .error (.endless n) := by
  refine ⟨fun p hp hend hinvalid => ?_, fun hvalid => ?_, fun q => scan_invalid⟩
  · have hlast : p.token.isLast = false := by simp [Token.isLast, hend, hinvalid]
    rw [Scanner.turn]
    cases hread : p.retokenize with
    | error f => exact .inl ⟨f, rfl, Scanner.retokenize_legible f hread⟩
    | ok q =>
        rw [ok_bind]
        cases hstep : q.step with
        | error f => exact .inl ⟨f, rfl, Scanner.step_legible (hp.rereads hread).1 f hstep⟩
        | ok p' => exact .inr ⟨p', rfl, hp.start_lt hlast hread hstep⟩
  · rw [scan_eq]
    cases hopen : opening s with
    | error f => exact ⟨.inl ⟨f, hopen, rfl⟩, .error (opening_legible f hopen)⟩
    | ok p =>
        have hends : Scanner.Ends p (p.run (s.contents.length + 2)) := ends_run hvalid (.inl hopen) (by omega)
        refine ⟨.inr ⟨p, _, hopen, hends, rfl⟩, ?_⟩
        exact (hends.legible (.inl hopen)).bind fun _ _ => finish_legible

/-- In `x=/[/]/;y=!1` a slash is read again. -/
def slashes : Source := { key := "m", name := "m", contents := "x=/[/]/;y=!1" }

theorem turns_get_on_slashes :
    (∃ p, AtTurn slashes p ∧ ((∃ f, p.turn = .error f ∧ f.Legible slashes) ∨
      ∃ p', p.turn = .ok p' ∧ p.token.start < p'.token.start)) ∧
    Ends slashes (scan slashes) := by
  have hscan : (scan slashes).toBool = true := by decide +kernel
  have hopen : (opening slashes).toOption.any (fun p => p.token.kind == .identifier) = true := by decide +kernel
  obtain ⟨hturn, hends, hendless⟩ := turns_get_on slashes
  refine ⟨?_, (hends fun q hq hinvalid => ?_).1⟩
  · cases h : opening slashes with
    | error f => rw [h] at hopen; cases hopen
    | ok p =>
        rw [h] at hopen
        have hkind : p.token.kind = .identifier := by simpa [Except.toOption] using hopen
        exact ⟨p, .inl h, hturn p (.inl h) (by simp [hkind]) (by simp [hkind])⟩
  · obtain ⟨n, hn⟩ := hendless q hq hinvalid
    rw [hn] at hscan
    cases hscan

end Outline

end ModuleSystem

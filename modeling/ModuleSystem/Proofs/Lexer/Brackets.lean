import ModuleSystem.Proofs.Lexer.Tiles

/-!
# Brackets — pairs in a list of tokens

`Bracket.after st ts` is what is open behind the tokens `ts` when `st` is open before them, the innermost
bracket first; none when a token closes what is not open.  A substitution of a template is a bracket too:
the head of the template opens it, its tail closes it, and a middle part does both.

* `Bracket.after_append`, `Bracket.after_frame`: tokens one after the other, and inside of more brackets.
* `Opened ts n st`: since the token at `n`, the last tokens of `ts` have opened `st` and nothing else.
* `Wrapped ts start stop`: tokens of `ts` from `start` to `stop` in which all brackets pair up.
* `Lexer.Goes lx ts lx'`: the lexer moves on over the tokens `ts`.
-/

namespace ModuleSystem

/-- What is opened by one token and closed by another one. -/
inductive Bracket where
  | paren
  | square
  | brace
  /-- A substitution of a template. -/
  | template
deriving DecidableEq, Repr

namespace TokenKind

/-- The bracket that a token opens. -/
def opens? : TokenKind → Option Bracket
  | .openParen => some .paren
  | .openBracket => some .square
  | .openBrace => some .brace
  | .templateHead | .templateMiddle => some .template
  | _ => none

/-- The bracket that a token closes. -/
def closes? : TokenKind → Option Bracket
  | .closeParen => some .paren
  | .closeBracket => some .square
  | .closeBrace => some .brace
  | .templateMiddle | .templateTail => some .template
  | _ => none

/-- The token is no bracket, and other tokens come after it. -/
def isPlain (k : TokenKind) : Bool :=
  k.opens?.isNone && k.closes?.isNone && k != .endOfFile && k != .invalid

theorem isPlain_of_isName {k : TokenKind} (h : k.isName = true) : k.isPlain = true := by
  cases k <;> first | rfl | cases h

/-- The token goes on with a template behind a substitution. -/
def resumes (k : TokenKind) : Bool := k == .templateMiddle || k == .templateTail

theorem resumes_of_isPlain {k : TokenKind} (h : k.isPlain = true) : k.resumes = false := by
  cases k <;> first | rfl | cases h

theorem resumes_of_closes?_eq_none {k : TokenKind} (h : k.closes? = none) : k.resumes = false := by
  cases k <;> first | rfl | cases h

end TokenKind

namespace Bracket

variable {st st' more : List Bracket} {k : TokenKind} {t : Token} {ts us : List Token} {b : Bracket}

/-- What is open behind a token. -/
def pass (st : List Bracket) (k : TokenKind) : Option (List Bracket) :=
  match k.closes? with
  | none => some (k.opens?.toList ++ st)
  | some b => if st.head? = some b then some (k.opens?.toList ++ st.tail) else none

/-- What is open behind some tokens, the innermost bracket first. -/
def after (st : List Bracket) (ts : List Token) : Option (List Bracket) :=
  ts.foldlM (fun st t => pass st t.kind) st

/-- A token that is no bracket leaves the open brackets as they are. -/
theorem pass_plain (h : k.isPlain = true) : pass st k = some st := by
  simp only [TokenKind.isPlain, Bool.and_eq_true, Option.isNone_iff_eq_none] at h
  rw [pass, h.1.1.1, h.1.1.2]
  rfl

/-- An opening bracket comes to the open ones. -/
theorem pass_opens (hopens : k.opens? = some b) (hcloses : k.closes? = none) : pass st k = some (b :: st) := by
  rw [pass, hopens, hcloses]
  rfl

/-- A closing bracket takes the innermost open one away, which has to be its own. -/
theorem pass_closes (hcloses : k.closes? = some b) (hopens : k.opens? = none) : pass (b :: st) k = some st := by
  rw [pass, hopens, hcloses]
  exact if_pos rfl

/-- More brackets around do not matter to a token. -/
theorem pass_frame (h : pass st k = some st') : pass (st ++ more) k = some (st' ++ more) := by
  unfold pass at h ⊢
  split at h
  · cases h
    rw [List.append_assoc]
  · split at h
    · rename_i b _ hb
      cases h
      obtain ⟨st, rfl⟩ := List.head?_eq_some_iff.1 hb
      exact (if_pos rfl).trans (by simp)
    · cases h

@[simp] theorem after_nil : after st [] = some st := rfl

theorem after_cons : after st (t :: ts) = (pass st t.kind).bind (after · ts) := by
  rw [after, List.foldlM_cons]
  rfl

/-- The brackets after two runs of tokens are those after the second, with those after the first open before
it. -/
theorem after_append : after st (ts ++ us) = (after st ts).bind (after · us) := by
  simp only [after, List.foldlM_append]
  rfl

/-- The last token is passed with the brackets open that are so before it. -/
theorem after_concat (h : after st ts = some st') : after st (ts ++ [t]) = pass st' t.kind := by
  rw [after_append, h]
  exact after_cons.trans (Option.bind_fun_some _)

/-- More brackets around do not matter. -/
theorem after_frame (h : after st ts = some st') : after (st ++ more) ts = some (st' ++ more) := by
  induction ts generalizing st with
  | nil =>
      cases h
      rfl
  | cons t ts ih =>
      rw [after_cons] at h ⊢
      obtain ⟨st₁, hpass, hafter⟩ := Option.bind_eq_some_iff.1 h
      rw [pass_frame hpass]
      exact ih hafter

end Bracket

/-- All brackets pair up. -/
def Balanced (ts : List Token) : Prop := Bracket.after [] ts = some []

variable {s : Source} {ts us : List Token} {t : Token} {n m : Nat} {st st' : List Bracket}

theorem Balanced.nil : Balanced [] := rfl

/-- Tokens whose brackets pair up may be put one after the other. -/
theorem Balanced.append (h : Balanced ts) (h' : Balanced us) : Balanced (ts ++ us) := by
  rw [Balanced, Bracket.after_append, h]
  exact h'

/-- A token that is no bracket is in balance by itself. -/
theorem Balanced.plain (h : t.kind.isPlain = true) : Balanced [t] := by
  rw [Balanced, Bracket.after_cons, Bracket.pass_plain h]
  rfl

/-- Tokens in which all brackets pair up leave open what was open. -/
theorem Balanced.after (h : Balanced us) : Bracket.after st us = some st := by
  simpa using @Bracket.after_frame [] [] st us h

/-- The tokens between two brackets of a kind. -/
theorem Balanced.enclosed {t t' : Token} {b : Bracket} (hopen : t.kind.opens? = some b) (hopen' : t.kind.closes? = none)
    (h : Balanced ts) (hclose : t'.kind.closes? = some b) (hclose' : t'.kind.opens? = none) :
    Balanced (t :: (ts ++ [t'])) := by
  rw [Balanced, Bracket.after_cons, Bracket.pass_opens hopen hopen']
  exact (Bracket.after_concat h.after).trans (Bracket.pass_closes hclose hclose')

/-! ### Parts that started at a token -/

/-- Some last tokens start at an offset, and have opened certain brackets and nothing else. -/
def Opened (ts : List Token) (n : Nat) (st : List Bracket) : Prop :=
  ∃ before t rest, ts = before ++ t :: rest ∧ t.start = n ∧ Bracket.after [] (t :: rest) = some st

theorem Opened.single (hafter : Bracket.pass [] t.kind = some st) : Opened (ts ++ [t]) t.start st :=
  ⟨ts, t, [], rfl, rfl, (@Bracket.after_concat [] [] t [] rfl).trans hafter⟩

/-- A part goes on with the tokens that come behind it. -/
theorem Opened.append (h : Opened ts n st) (hafter : Bracket.after st us = some st') : Opened (ts ++ us) n st' := by
  obtain ⟨before, t, rest, rfl, hstart, hrest⟩ := h
  refine ⟨before, t, rest ++ us, by simp, hstart, ?_⟩
  rw [← List.cons_append, Bracket.after_append, hrest]
  exact hafter

theorem Opened.concat (h : Opened ts n st) (hpass : Bracket.pass st t.kind = some st') : Opened (ts ++ [t]) n st' :=
  h.append ((@Bracket.after_concat st st t [] rfl).trans hpass)

/-- The tokens from one offset to another one are some whole tokens, in which all brackets pair up. -/
def Wrapped (ts : List Token) (start stop : Nat) : Prop :=
  ∃ before inner after, ts = before ++ (inner ++ after) ∧ (∃ t ∈ inner.head?, t.start = start) ∧
    (∃ t ∈ inner.getLast?, t.stop = stop) ∧ Balanced inner

/-- A part that is wrapped stays so whatever comes behind it. -/
theorem Wrapped.append (h : Wrapped ts n m) (us : List Token) : Wrapped (ts ++ us) n m := by
  obtain ⟨before, inner, after, rfl, h⟩ := h
  exact ⟨before, inner, after ++ us, by simp, h⟩

/-- The tokens have characters, and lie one behind the other. -/
structure InOrder (ts : List Token) : Prop where
  nonempty : ∀ t ∈ ts, t.start < t.stop
  apart : ts.Pairwise fun t u => t.stop ≤ u.start

/-- A token behind all others may come last. -/
theorem InOrder.concat (h : InOrder ts) (hlt : t.start < t.stop) (hle : ∀ u ∈ ts, u.stop ≤ t.start) :
    InOrder (ts ++ [t]) where
  nonempty u hu := (List.mem_append.1 hu).elim (h.nonempty u) fun hu => List.mem_singleton.1 hu ▸ hlt
  apart := List.pairwise_append.2 ⟨h.apart, List.pairwise_singleton .., fun u hu _ hv =>
    List.mem_singleton.1 hv ▸ hle u hu⟩

/-- What has opened no bracket can end with the last token. -/
theorem Opened.wrapped (h : Opened ts n []) (hlast : ∀ t ∈ ts.getLast?, t.stop = m) : Wrapped ts n m := by
  obtain ⟨before, t, rest, rfl, hstart, hrest⟩ := h
  refine ⟨before, t :: rest, [], by simp, ⟨t, rfl, hstart⟩, ?_, hrest⟩
  rw [List.getLast?_append_cons] at hlast
  cases hl : (t :: rest).getLast? with
  | none => simp at hl
  | some u => exact ⟨u, rfl, hlast u hl⟩

/-! ### Moving on over tokens -/

namespace Lexer

variable {lx lx' lx'' : Lexer}

/-- The lexer moves on over tokens that have something behind them. -/
inductive Goes : Lexer → List Token → Lexer → Prop where
  | refl (lx : Lexer) : Goes lx [] lx
  | next {lx lx' lx'' : Lexer} {ts : List Token} (hlast : lx.token.isLast = false) (h : lx.next = .ok lx')
      (tail : Goes lx' ts lx'') : Goes lx (lx.token :: ts) lx''

theorem Goes.one (hlast : lx.token.isLast = false) (h : lx.next = .ok lx') : Goes lx [lx.token] lx' :=
  .next hlast h (.refl _)

/-- Tokens that are passed in two parts are passed. -/
theorem Goes.trans (h : Goes lx ts lx') (h' : Goes lx' us lx'') : Goes lx (ts ++ us) lx'' := by
  induction h with
  | refl => exact h'
  | next hlast h _ ih => exact .next hlast h (ih h')

/-- The lexer still reads the source. -/
theorem Goes.met (h : Goes lx ts lx') (hlx : Met s lx) : Met s lx' := by
  induction h with
  | refl => exact hlx
  | next _ h _ ih => exact ih (hlx.next h)

theorem isLast_of_kind {k : TokenKind} (h : t.kind = k) (hk : (k == .endOfFile || k == .invalid) = false) :
    t.isLast = false := by
  rwa [Token.isLast, h]

/-- A token that is no bracket, as `isPlain` has it, has something behind it. -/
theorem isLast_of_isPlain (h : t.kind.isPlain = true) : t.isLast = false := by
  simp only [TokenKind.isPlain, Bool.and_eq_true, bne_iff_ne] at h
  simp [Token.isLast, h.1.2, h.2]

theorem isLast_of_opens? {b : Bracket} (h : t.kind.opens? = some b) : t.isLast = false := by
  rw [Token.isLast]
  cases hkind : t.kind <;> first | rfl | (rw [hkind] at h; cases h)

/-- Behind at least one token, the lexer stands behind the first one. -/
theorem Goes.stop_le (h : Goes lx ts lx') (hlx : Met s lx) (hts : ts ≠ []) :
    lx.token.stop ≤ lx'.token.prevStop := by
  induction h with
  | refl => exact absurd rfl hts
  | @next lx lx₁ lx' ts _ hnext htail ih =>
      have hmet := hlx.next hnext
      have hprev := prevStop_of_next hnext
      cases htail with
      | refl => exact hprev.ge
      | next =>
          have hle := ih hmet (by simp)
          have hplaces := hmet.places_le
          omega

/-- The tokens between two places are determined by them. -/
theorem Goes.unique (h : Goes lx ts lx') (h' : Goes lx us lx') (hlx : Met s lx) : ts = us := by
  have hmoves : ∀ {lx : Lexer} {ts}, Met s lx → Goes lx ts lx → ts = [] := by
    intro lx ts hlx h
    by_contra hts
    have hstop := h.stop_le hlx hts
    have hplaces := hlx.places_le
    cases h with
    | refl => exact hts rfl
    | next hlast =>
        have := start_lt_stop_of_isLast hlx hlast
        omega
  induction h generalizing us with
  | refl => exact (hmoves hlx h').symm
  | next hlast hnext htail ih =>
      cases h' with
      | refl =>
          have hts := hmoves hlx (.next hlast hnext htail)
          cases hts
      | next _ hnext' htail' =>
          cases hnext.symm.trans hnext'
          rw [ih htail' (hlx.next hnext)]

/-- A brace is read again as the middle or the end of a template. -/
theorem resumes_of_asTemplate (h : lx.asTemplate = .ok lx') : lx'.token.kind.resumes = true := by
  obtain ⟨-, kind, units, stop, scanned, rfl⟩ := asTemplate_ok h
  obtain ⟨closing, -, -, -, hkind⟩ := scanQuoted_ok _ scanned
  show kind.resumes = true
  rw [show kind = _ from hkind]
  cases closing <;> rfl

/-- A template goes on behind a substitution only where a brace is read again. -/
theorem Fresh.resumes {before gap word : List Glyph} (h : lx.Fresh before gap word) :
    lx.token.kind.resumes = false := by
  cases h.origin with
  | ended _ hkind | other hkind =>
      rw [show lx.token.kind = _ from hkind]
      rfl
  | sign hkind | number hkind =>
      obtain hkind | hkind := hkind <;> rw [show lx.token.kind = _ from hkind] <;> rfl
  | @quoted _ _ closing _ _ hkind _ =>
      rw [show lx.token.kind = _ from hkind]
      unfold quotedKind
      split
      · rfl
      · cases closing <;> rfl
  | name hname _ =>
      revert hname
      cases lx.token.kind <;> first | exact fun _ => rfl | exact nofun
  | mark hmark =>
      have hmarks : TokenKind.punctuators.all (!·.2.resumes) = true := by decide
      simpa using List.all_eq_true.1 hmarks _ hmark

/-- Moving on never leads to the rest of a template; that is only read when it is asked for. -/
theorem resumes_of_next (hlx : Met s lx) (h : lx.next = .ok lx') : lx'.token.kind.resumes = false := by
  by_cases hkind : lx.token.kind = .invalid
  · rw [kind_of_next_invalid hkind h]
    rfl
  · obtain ⟨_, _, _, hfresh⟩ := hlx.next_fresh hkind h
    exact hfresh.resumes

/-- A source does not start with the rest of a template. -/
theorem resumes_of_start (h : start s .script = .ok lx) : lx.token.kind.resumes = false := by
  obtain ⟨-, -, _, _, hfresh⟩ := start_fresh s .script lx h
  exact hfresh.resumes

/-- The lexer stands behind the last token that it has moved over. -/
theorem Goes.prevStop (h : Goes lx us lx') (hts : ∀ t ∈ ts.getLast?, t.stop = lx.token.prevStop) :
    ∀ t ∈ (ts ++ us).getLast?, t.stop = lx'.token.prevStop := by
  induction h generalizing ts with
  | refl => simpa using hts
  | @next lx lx₁ lx' us _ hnext _ ih =>
      have hlast := @ih (ts ++ [lx.token]) (by simp [prevStop_of_next hnext])
      simpa using hlast

/-- However far the lexer goes, it does not come to the rest of a template by itself. -/
theorem Goes.resumes (h : Goes lx us lx') (hlx : Met s lx) (hresumes : lx.token.kind.resumes = false) :
    lx'.token.kind.resumes = false := by
  induction h with
  | refl => exact hresumes
  | next _ hnext _ ih => exact ih (hlx.next hnext) (resumes_of_next hlx hnext)

/-- The tokens that a lexer moves over lie one behind the other, and before the place that it gets to. -/
theorem Goes.inOrder (h : Goes lx us lx') (hlx : Met s lx) (hts : InOrder ts)
    (hbefore : ∀ t ∈ ts, t.stop ≤ lx.token.prevStop) :
    InOrder (ts ++ us) ∧ ∀ t ∈ ts ++ us, t.stop ≤ lx'.token.prevStop := by
  induction h generalizing ts with
  | refl => simpa using ⟨hts, hbefore⟩
  | @next lx lx₁ lx' us hlast hnext _ ih =>
      have hplaces := hlx.places_le
      have hprev := prevStop_of_next hnext
      have hlt := start_lt_stop_of_isLast hlx hlast
      have hle := ih (hlx.next hnext)
        (hts.concat hlt fun u hu => (hbefore u hu).trans hplaces.1) fun t ht => ?_
      · simpa using hle
      · obtain ht | ht := List.mem_append.1 ht
        · have := hbefore t ht
          omega
        · rw [List.mem_singleton.1 ht, hprev]

end Lexer

end ModuleSystem

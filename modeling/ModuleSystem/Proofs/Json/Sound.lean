import ModuleSystem.Proofs.Json.Complete
import ModuleSystem.Proofs.Json.Leaves
import ModuleSystem.Proofs.Lexer.Errors

/-!
# JSON — what is accepted is in the grammar

The lexer knows more white space and more numbers than JSON has, and it reads bytes that are no valid
characters.  In a source that keeps to those of JSON (`Plain`), whatever the check accepts is the text of a
tree, in which a minus sign may stand apart from its number: the sign is a token of its own.

A reader gives up at the first fault that the lexer stops at, and at a token that it did not expect.  The faults
that it then hands back contain an error (`Refuses`), so the text is refused whatever was reported before.

The induction is on the fuel of the reader. `Outcome` says what one reader leaves to the next: faults are
only added, the lexer stands on a token of the source, and unless an error was reported, what has been passed
is a text of the grammar.

* `accepts_iff`: the texts that are accepted.
-/

namespace ModuleSystem.Json

open Utf8 Lexer

/-! ### Giving up -/

/-- An error was reported. -/
def Refuses (fs : List Fault) : Prop := ∃ f ∈ fs, f.IsError

namespace Reader

variable {r : Reader} {k : TokenKind} {f : Fault} {step : Lexer → Except Fault Lexer}

theorem fail_refuses {α : Type} (h : f.IsError) : Fails (r.fail f : Except (List Fault) α) Refuses :=
  .error ⟨f, by simp, h⟩

/-- A fault of the lexer is a refusal. -/
theorem move_refuses (h : Fails (step r.lexer) Fault.IsError) : Fails (r.move step) Refuses := by
  unfold move
  split
  · exact .ok
  · exact fail_refuses (h _ ‹_›)

theorem next_refuses : Fails r.next Refuses := move_refuses (Lexer.next_fails _)

/-- A token that is missing is a refusal. -/
theorem expect_refuses : Fails (r.expect k) Refuses := by
  refine move_refuses ?_
  unfold Lexer.expect
  split
  · exact Lexer.next_fails _
  · exact .error rfl

/-- A comma that is missing, or stands before the end of a list, is a refusal. -/
theorem comma_refuses {close : TokenKind} : Fails (r.comma close) Refuses := by
  unfold comma
  refine expect_refuses.bind fun r₁ _ => ?_
  split <;> exact .ok

/-- A key that is missing is a refusal. -/
theorem key_refuses {seen : List Text} : Fails (r.key seen) Refuses := by
  unfold key
  exact expect_refuses.bind fun r₁ _ => expect_refuses.bind fun r₂ _ => .ok

/-- The comma before a further element or member. None stands before the first. -/
theorem more_refuses {first : Bool} {close : TokenKind} {read : Bool × Reader → Except (List Fault) Reader}
    (h : ∀ q, Fails (read q) Refuses) :
    Fails (if first then pure (true, r) >>= read else r.comma close >>= read) Refuses := by
  split
  · exact h _
  · exact comma_refuses.bind fun q _ => h q

/-- Whatever a reader gives up with contains an error. -/
theorem value_refuses (fuel : Nat) : (∀ r, Fails (value fuel r) Refuses) ∧
    (∀ first r, Fails (elements fuel first r) Refuses) ∧ ∀ seen r, Fails (members fuel seen r) Refuses := by
  induction fuel with
  | zero => exact ⟨fun _ => fail_refuses rfl, fun _ _ => fail_refuses rfl, fun _ _ => fail_refuses rfl⟩
  | succ fuel ih =>
      obtain ⟨hvalue, helements, hmembers⟩ := ih
      refine ⟨fun r => ?_, fun first r => ?_, fun seen r => ?_⟩
      · simp only [value]
        split
        case h_6 => exact next_refuses.bind fun _ _ => expect_refuses
        case h_7 => exact next_refuses.bind fun _ _ => (helements _ _).bind fun _ _ => expect_refuses
        case h_8 => exact next_refuses.bind fun _ _ => (hmembers _ _).bind fun _ _ => expect_refuses
        case h_9 => exact fail_refuses rfl
        all_goals exact next_refuses
      · rw [elements]
        split
        · exact .ok
        · refine more_refuses fun q => ?_
          dsimp only
          split
          · exact (hvalue _).bind fun _ _ => helements _ _
          · exact .ok
      · rw [members]
        split
        · exact .ok
        · refine more_refuses fun q => ?_
          dsimp only
          split
          · exact key_refuses.bind fun _ _ => (hvalue _).bind fun _ _ => hmembers _ _
          · exact .ok

end Reader

/-! ### Plain sources -/

/-- The white space before a token is that of JSON, and so is the token if it is a number. -/
def Common (text : Text) (t : Token) : Prop :=
  IsSpace (t.gap text) ∧ (t.kind = .number → ∃ n : Numeral, n.text = t.raw)

/-- A source that keeps to the characters, the white space and the numbers of JSON. -/
structure Plain (s : Source) : Prop where
  valid : isValid s.contents = true
  common : ∀ ts f, Produces (start s .json) ts f → ∀ t ∈ ts, Common s.contents t

/-! ### Texts between offsets -/

/-- The text between two offsets of a text. -/
def Spans (text : Text) (start : Nat) (t : Text) (stop : Nat) : Prop := text.drop start = t ++ text.drop stop

variable {text t u : Text} {i j k : Nat}

/-- A part and the part behind it are one part. -/
theorem Spans.append (h : Spans text i t j) (h' : Spans text j u k) : Spans text i (t ++ u) k := by
  unfold Spans at *
  rw [h, h', List.append_assoc]

/-! ### Where the lexer stands -/

variable {s : Source} {lx : Lexer}

/-- The lexer stands on a token of the source, and the tokens from there on are common. -/
structure Sits (s : Source) (lx : Lexer) : Prop where
  source : lx.source = s
  dialect : lx.dialect = .json
  fresh : ∃ before gap word, lx.Fresh before gap word
  common : ∀ ts f, Produces (.ok lx) ts f → ∀ t ∈ ts, Common s.contents t

namespace Sits

/-- Where the lexer stands, it comes to some tokens from the current one on. -/
theorem exists_produces (h : Sits s lx) : ∃ ts f, Produces (.ok lx) (lx.token :: ts) f := by
  obtain ⟨before, gap, word, hlx⟩ := h.fresh
  obtain ⟨ts, f, hts⟩ := hlx.exists_produces
  cases hts with
  | last hlast => exact ⟨_, _, .last hlast⟩
  | more hlast hts => exact ⟨_, _, .more hlast hts⟩

/-- In a plain source the current token is common to both readings. -/
theorem common_token (h : Sits s lx) : Common s.contents lx.token := by
  obtain ⟨ts, f, hts⟩ := h.exists_produces
  exact h.common _ f hts _ List.mem_cons_self

/-- The current token stands behind its gap. -/
theorem stands (h : Sits s lx) : lx.token.Stands s.contents := by
  obtain ⟨before, gap, word, hlx⟩ := h.fresh
  exact h.source ▸ hlx.stands

/-- The white space before the token. -/
theorem exists_space (h : Sits s lx) :
    ∃ space : Space, Spans s.contents lx.token.prevStop space.1 lx.token.start :=
  ⟨⟨_, h.common_token.1⟩, (Text.slice_append_drop s.contents h.stands.prevStop_le).symm⟩

/-- A token spans its own text. -/
theorem spans_raw (h : Sits s lx) : Spans s.contents lx.token.start lx.token.raw lx.token.stop := by
  unfold Spans
  rw [← h.stands.raw, Text.slice_append_drop _ h.stands.start_le]

/-- A mark spans the text that it is written with. -/
theorem spans_mark (h : Sits s lx) {k : TokenKind} (hkind : lx.token.kind = k) (spelling : Text)
    (hmem : (spelling, k) ∈ TokenKind.punctuators) :
    Spans s.contents lx.token.start spelling lx.token.stop := by
  obtain ⟨before, gap, word, hlx⟩ := h.fresh
  rw [← hlx.spelled spelling (by rw [hkind]; exact hmem)]
  exact h.spans_raw

/-- Moving on leads to the next token of the same source. -/
theorem next (h : Sits s lx) (hlast : lx.token.isLast = false) :
    Ensures lx.next fun lx' => Sits s lx' ∧ lx'.token.prevStop = lx.token.stop := by
  obtain ⟨before, gap, word, hlx⟩ := h.fresh
  intro lx' hlx'
  obtain ⟨hsource, hdialect, gap', word', hfresh⟩ := hlx.next (kind_ne_of_isLast hlast).2 lx' hlx'
  refine ⟨⟨hsource.trans h.source, hdialect.trans h.dialect, ⟨_, _, _, hfresh⟩, fun ts f hts t ht => ?_⟩,
    hfresh.prevStop.trans hlx.stop.symm⟩
  exact h.common (lx.token :: ts) f (.more hlast (by rw [hlx']; exact hts)) t (List.mem_cons_of_mem _ ht)

end Sits

/-- A plain source starts with its first token. -/
theorem Plain.sits (h : Plain s) : Ensures (start s .json) fun lx => Sits s lx ∧ lx.token.prevStop = 0 := by
  intro lx hlx
  obtain ⟨hsource, hdialect, gap, word, hfresh⟩ := start_fresh s .json lx hlx
  exact ⟨⟨hsource, hdialect, ⟨_, _, _, hfresh⟩, fun ts f hts => h.common ts f (by rw [hlx]; exact hts)⟩,
    hfresh.prevStop⟩

/-! ### Steps of the reader -/

/-- Nothing but warnings was reported. -/
def Warns (fs : List Fault) : Prop := ∀ f ∈ fs, f.severity = .warning

/-- What a reader leaves behind: `P` holds unless an error was reported. -/
structure Outcome (s : Source) (r r' : Reader) (P : Prop) : Prop where
  faults : r.faults <+: r'.faults
  sits : Sits s r'.lexer
  holds : Warns r'.faults → P

variable {r r' r'' : Reader} {P Q : Prop}

theorem Outcome.trans (h : Outcome s r r' P) (h' : Outcome s r' r'' Q) : Outcome s r r'' (P ∧ Q) :=
  ⟨h.faults.trans h'.faults, h'.sits, fun hw => ⟨h.holds fun f hf => hw f (h'.faults.subset hf), h'.holds hw⟩⟩

theorem Outcome.mono (h : Outcome s r r' P) (h' : P → Q) : Outcome s r r' Q :=
  ⟨h.faults, h.sits, fun hw => h' (h.holds hw)⟩

theorem isLast_of_kind {k : TokenKind} (h : r.kind = k) (hk : k ≠ .endOfFile ∧ k ≠ .invalid) :
    r.lexer.token.isLast = false := by
  have hkind : r.lexer.token.kind = k := h
  simpa [Token.isLast, hkind] using hk

/-- Moving on warns of nothing. -/
theorem next_sound (h : Sits s r.lexer) (hlast : r.lexer.token.isLast = false) :
    Ensures r.next fun r' => Outcome s r r' (r'.lexer.token.prevStop = r.lexer.token.stop) := by
  intro r' hr'
  unfold Reader.next Reader.move at hr'
  cases hlx : r.lexer.next with
  | error f => rw [hlx] at hr'; cases hr'
  | ok lx =>
      rw [hlx] at hr'
      cases hr'
      obtain ⟨hsits, hprev⟩ := h.next hlast lx hlx
      exact ⟨List.prefix_rfl, hsits, fun _ => hprev⟩

/-- A token that is expected was there, and is passed over. -/
theorem expect_sound {k : TokenKind} (h : Sits s r.lexer) (hk : k ≠ .endOfFile ∧ k ≠ .invalid) :
    Ensures (r.expect k) fun r' => r.kind = k ∧ Outcome s r r' (r'.lexer.token.prevStop = r.lexer.token.stop) := by
  intro r' hr'
  by_cases hkind : r.lexer.token.kind = k
  · have hexpect : r.expect k = r.next := Reader.expect_eq hkind
    rw [hexpect] at hr'
    exact ⟨hkind, next_sound h (isLast_of_kind hkind hk) r' hr'⟩
  · simp only [Reader.expect, Reader.move, Lexer.expect, if_neg hkind] at hr'
    cases hr'

/-! ### Values -/

/-- Between two offsets no texts of the kind `P` are listed, or some are. Unless they are the first, white
space and a comma stand before them. -/
def Listed (text : Text) (start stop : Nat) (first : Bool) (P : Text → Prop) : Prop :=
  ∃ space : Space, Spans text start space.1 stop ∨
    ∃ t, P t ∧ Spans text start (if first then t else space.1 ++ 44 :: t) stop

/-- The text of elements. -/
def AreItems (t : Text) : Prop := ∃ items : Items IsSpace, items.text = t

/-- The text of members. -/
def AreMembers (t : Text) : Prop := ∃ members : Members IsSpace, members.text = t

/-- Passing a value. -/
def ValueSound (s : Source) (fuel : Nat) : Prop := ∀ r : Reader, Sits s r.lexer →
  Ensures (Reader.value fuel r) fun r' => Outcome s r r' (∃ tree : Tree IsSpace,
    Spans s.contents r.lexer.token.start tree.text r'.lexer.token.prevStop)

/-- Passing elements up to the closing bracket. -/
def ElementsSound (s : Source) (fuel : Nat) : Prop := ∀ (first : Bool) (r : Reader), Sits s r.lexer →
  Ensures (Reader.elements fuel first r) fun r' => Outcome s r r'
    (Listed s.contents r.lexer.token.prevStop r'.lexer.token.start first AreItems)

/-- Passing members up to the closing brace. -/
def MembersSound (s : Source) (fuel : Nat) : Prop := ∀ (seen : List Text) (r : Reader), Sits s r.lexer →
  Ensures (Reader.members fuel seen r) fun r' => Outcome s r r'
    (Listed s.contents r.lexer.token.prevStop r'.lexer.token.start seen.isEmpty AreMembers)

/-- A constant, a string or a number is the text of a tree. -/
theorem atom_sound (hs : Plain s) (h : Sits s r.lexer) (hkind : isAtom r.kind = true) :
    Ensures r.next fun r' => Outcome s r r' (∃ tree : Tree IsSpace,
      Spans s.contents r.lexer.token.start tree.text r'.lexer.token.prevStop) := by
  obtain ⟨before, gap, word, hlx⟩ := h.fresh
  have hraw : ∃ tree : Tree IsSpace, tree.text = r.lexer.token.raw := by
    simp only [isAtom, Bool.or_eq_true, beq_iff_eq, or_assoc] at hkind
    obtain hkind | hkind | hkind := hkind
    · exact ⟨.constant ⟨_, hlx.constant hkind⟩, by simp only [Tree.text]⟩
    · obtain ⟨letters, hletters⟩ := hlx.string h.dialect (h.source ▸ hs.valid) hkind
      exact ⟨.string letters, by simp only [Tree.text, hletters]⟩
    · obtain ⟨n, hn⟩ := h.common_token.2 hkind
      exact ⟨.number n, by simp only [Tree.text, hn]⟩
  have hall : ∀ k, isAtom k = true → k ≠ .endOfFile ∧ k ≠ .invalid := by
    intro k hk
    cases k <;> first | decide | cases hk
  refine (next_sound h (isLast_of_kind rfl (hall _ hkind))).mono fun r' hr' => hr'.mono fun hprev => ?_
  obtain ⟨tree, htree⟩ := hraw
  exact ⟨tree, by rw [htree, hprev]; exact h.spans_raw⟩

/-- A number behind a minus sign is the text of a tree, with the white space that may be between them. -/
theorem minus_sound (h : Sits s r.lexer) (hkind : r.kind = .minus) :
    Ensures (r.next >>= Reader.expect .number) fun r' => Outcome s r r' (∃ tree : Tree IsSpace,
      Spans s.contents r.lexer.token.start tree.text r'.lexer.token.prevStop) := by
  refine (next_sound h (isLast_of_kind hkind (by decide))).bind fun r₁ h₁ =>
    (expect_sound h₁.sits (by decide)).mono fun r₂ ⟨hnumber, h₂⟩ => (h₁.trans h₂).mono fun ⟨hprev₁, hprev₂⟩ => ?_
  obtain ⟨n, hn⟩ := h₁.sits.common_token.2 hnumber
  obtain ⟨space, hspace⟩ := h₁.sits.exists_space
  have hminus := h.spans_mark hkind [45] (by decide)
  have hdigits := h₁.sits.spans_raw
  rw [← hn, ← hprev₂] at hdigits
  rw [← hprev₁] at hminus
  refine ⟨.negative space n, ?_⟩
  simpa only [Tree.text, List.append_assoc, List.cons_append, List.nil_append] using
    (hminus.append hspace).append hdigits

/-! ### Lists -/

variable {texts : Text → Prop}

/-- The comma of a list stands there, and tells that another item follows. -/
theorem comma_sound {close : TokenKind} (h : Sits s r.lexer) : Ensures (r.comma close) fun q =>
    r.kind = .comma ∧ Outcome s r q.2 (q.1 = true ∧ q.2.lexer.token.prevStop = r.lexer.token.stop) := by
  unfold Reader.comma
  refine (expect_sound h (by decide)).bind fun r₁ ⟨hkind, h₁⟩ => ?_
  split
  · refine .ok ⟨hkind, ⟨h₁.faults.trans (List.prefix_append _ _), h₁.sits, fun hw => ?_⟩⟩
    have hwarning := hw _ (List.mem_append_right _ (List.mem_singleton_self _))
    cases hwarning
  · exact .ok ⟨hkind, h₁.mono fun hprev => ⟨rfl, hprev⟩⟩

/-- Nothing is listed before the closing mark. -/
theorem Sits.listed_nil {first : Bool} (h : Sits s lx) :
    Listed s.contents lx.token.prevStop lx.token.start first texts := by
  obtain ⟨space, hspace⟩ := h.exists_space
  exact ⟨space, .inl hspace⟩

/-- Reading on behind the comma, if one must stand there. -/
theorem listed_sound {first : Bool} {close : TokenKind} {read : Bool × Reader → Except (List Fault) Reader}
    (h : Sits s r.lexer) (hend : ∀ r₁, read (false, r₁) = .ok r₁)
    (hread : ∀ r₁ : Reader, Sits s r₁.lexer → Ensures (read (true, r₁)) fun r₂ => Outcome s r₁ r₂ (∃ t, texts t ∧
      Spans s.contents r₁.lexer.token.prevStop t r₂.lexer.token.start)) :
    Ensures (if first then pure (true, r) >>= read else r.comma close >>= read) fun r' => Outcome s r r'
      (Listed s.contents r.lexer.token.prevStop r'.lexer.token.start first texts) := by
  obtain ⟨space, hspace⟩ := h.exists_space
  cases first with
  | true => exact (hread r h).mono fun r' h' => h'.mono fun ⟨t, ht, hspans⟩ => ⟨space, .inr ⟨t, ht, hspans⟩⟩
  | false =>
      refine Ensures.bind (comma_sound h) fun ⟨more, r₁⟩ ⟨hkind, h₁⟩ => ?_
      have hcomma := h.spans_mark hkind [44] (by decide)
      cases more with
      | false =>
          rw [hend]
          exact .ok (h₁.mono fun ⟨hmore, _⟩ => by cases hmore)
      | true =>
          refine (hread r₁ h₁.sits).mono fun r₂ h₂ => (h₁.trans h₂).mono fun ⟨⟨_, hprev⟩, t, ht, hspans⟩ => ?_
          rw [← hprev] at hcomma
          have hall := (hspace.append hcomma).append hspans
          rw [List.append_assoc] at hall
          exact ⟨space, .inr ⟨t, ht, hall⟩⟩

/-- Passing an opening mark, what is listed behind it, and the closing mark. -/
theorem enclosed_sound {body : Reader → Except (List Fault) Reader} {kind close : TokenKind} {mark mark' : UInt8}
    (h : Sits s r.lexer) (hkind : r.kind = kind) (hlast : kind ≠ .endOfFile ∧ kind ≠ .invalid)
    (hmark : ([mark], kind) ∈ TokenKind.punctuators) (hlast' : close ≠ .endOfFile ∧ close ≠ .invalid)
    (hmark' : ([mark'], close) ∈ TokenKind.punctuators)
    (hbody : ∀ r₁ : Reader, Sits s r₁.lexer → Ensures (body r₁) fun r₂ => Outcome s r₁ r₂
      (Listed s.contents r₁.lexer.token.prevStop r₂.lexer.token.start true texts)) :
    Ensures (r.next >>= fun r₁ => body r₁ >>= Reader.expect close) fun r' => Outcome s r r'
      (∃ t, (IsSpace t ∨ texts t) ∧
        Spans s.contents r.lexer.token.start (mark :: t ++ [mark']) r'.lexer.token.prevStop) := by
  refine (next_sound h (isLast_of_kind hkind hlast)).bind fun r₁ h₁ => (hbody r₁ h₁.sits).bind fun r₂ h₂ =>
    (expect_sound h₂.sits hlast').mono fun r₃ ⟨hclose, h₃⟩ => ((h₁.trans h₂).trans h₃).mono ?_
  rintro ⟨⟨hprev₁, space, hlisted⟩, hprev₃⟩
  have hopened := h.spans_mark hkind [mark] hmark
  have hclosed := h₂.sits.spans_mark hclose [mark'] hmark'
  rw [← hprev₁] at hopened
  rw [← hprev₃] at hclosed
  obtain hspace | ⟨t, ht, hspans⟩ := hlisted
  · exact ⟨space.1, .inl space.2, (hopened.append hspace).append hclosed⟩
  · exact ⟨t, .inr ht, (hopened.append hspans).append hclosed⟩

/-! ### Arrays -/

/-- An element, and those after it. -/
theorem items_sound {fuel : Nat} (hv : ValueSound s fuel) (he : ElementsSound s fuel) (h : Sits s r.lexer) :
    Ensures (Reader.value fuel r >>= Reader.elements fuel false) fun r' => Outcome s r r' (∃ t, AreItems t ∧
      Spans s.contents r.lexer.token.prevStop t r'.lexer.token.start) := by
  refine (hv r h).bind fun r₁ h₁ => (he false r₁ h₁.sits).mono fun r₂ h₂ => (h₁.trans h₂).mono ?_
  rintro ⟨⟨tree, htree⟩, after, hlisted⟩
  obtain ⟨before, hbefore⟩ := h.exists_space
  obtain hafter | ⟨_, ⟨items, rfl⟩, hitems⟩ := hlisted
  · refine ⟨_, ⟨.last before tree after, rfl⟩, ?_⟩
    simpa only [Items.text] using (hbefore.append htree).append hafter
  · refine ⟨_, ⟨.more before tree after items, rfl⟩, ?_⟩
    simpa only [Items.text, List.append_assoc, Bool.false_eq_true, reduceIte] using
      (hbefore.append htree).append hitems

/-- Items with the commas between them are those of an array. -/
theorem elementsSound_succ {fuel : Nat} (hv : ValueSound s fuel) (he : ElementsSound s fuel) :
    ElementsSound s (fuel + 1) := by
  intro first r h
  rw [Reader.elements]
  split
  · exact .ok ⟨List.prefix_rfl, h, fun _ => h.listed_nil⟩
  · exact listed_sound h (fun _ => rfl) fun r₁ h₁ => items_sound hv he h₁

/-! ### Objects -/

/-- A string with its colon is the key of a member. -/
theorem key_sound (hs : Plain s) (seen : List Text) (h : Sits s r.lexer) : Ensures (r.key seen) fun q =>
    Outcome s r q.2 (∃ key : Key, Spans s.contents r.lexer.token.prevStop key.text q.2.lexer.token.start) := by
  unfold Reader.key
  extract_lets token name
  refine (expect_sound h (by decide)).bind fun r₁ ⟨hstring, h₁⟩ => ?_
  -- a repeated key is reported with a warning
  obtain ⟨r₂, hr₂, h₂⟩ : ∃ r₂, (if seen.contains name then r₁.report (.duplicateKey token.range name) else r₁) = r₂ ∧
      Outcome s r₁ r₂ (r₂.lexer = r₁.lexer) := by
    refine ⟨_, rfl, ?_⟩
    split
    · exact ⟨List.prefix_append _ _, h₁.sits, fun _ => rfl⟩
    · exact ⟨List.prefix_rfl, h₁.sits, fun _ => rfl⟩
  dsimp only
  rw [hr₂]
  refine (expect_sound h₂.sits (by decide)).bind fun r₃ ⟨hcolon, h₃⟩ => .ok (((h₁.trans h₂).trans h₃).mono ?_)
  rintro ⟨⟨hprev₁, hlexer⟩, hprev₃⟩
  obtain ⟨_, _, _, hlx⟩ := h.fresh
  obtain ⟨letters, hletters⟩ := hlx.string h.dialect (h.source ▸ hs.valid) hstring
  obtain ⟨before, hbefore⟩ := h.exists_space
  obtain ⟨between, hbetween⟩ := h₂.sits.exists_space
  obtain ⟨after, hafter⟩ := h₃.sits.exists_space
  have hname := h.spans_raw
  have hmark := h₂.sits.spans_mark hcolon [58] (by decide)
  rw [hletters, ← hprev₁] at hname
  rw [← hprev₃] at hmark
  rw [hlexer] at hbetween hmark
  refine ⟨⟨before, letters, between, after⟩, ?_⟩
  simpa only [Key.text, List.append_assoc, List.cons_append, List.nil_append] using
    (((hbefore.append hname).append hbetween).append hmark).append hafter

/-- A member, and those after it. -/
theorem member_sound {fuel : Nat} (hs : Plain s) (hv : ValueSound s fuel) (hm : MembersSound s fuel)
    (seen : List Text) (h : Sits s r.lexer) :
    Ensures (Reader.member fuel seen r) fun r' => Outcome s r r' (∃ t, AreMembers t ∧
      Spans s.contents r.lexer.token.prevStop t r'.lexer.token.start) := by
  unfold Reader.member
  refine (key_sound hs seen h).bind fun ⟨name, r₁⟩ h₁ => (hv r₁ h₁.sits).bind fun r₂ h₂ =>
    (hm (name :: seen) r₂ h₂.sits).mono fun r₃ h₃ => ((h₁.trans h₂).trans h₃).mono ?_
  rintro ⟨⟨⟨key, hkey⟩, tree, htree⟩, after, hlisted⟩
  obtain hafter | ⟨_, ⟨members, rfl⟩, hmembers⟩ := hlisted
  · refine ⟨_, ⟨.last key tree after, rfl⟩, ?_⟩
    simpa only [Members.text] using (hkey.append htree).append hafter
  · refine ⟨_, ⟨.more key tree after members, rfl⟩, ?_⟩
    simpa only [Members.text, List.append_assoc, List.isEmpty_cons, Bool.false_eq_true, reduceIte] using
      (hkey.append htree).append hmembers

/-- Members with the commas between them are those of an object. -/
theorem membersSound_succ {fuel : Nat} (hs : Plain s) (hv : ValueSound s fuel) (hm : MembersSound s fuel) :
    MembersSound s (fuel + 1) := by
  intro seen r h
  rw [Reader.members]
  split
  · exact .ok ⟨List.prefix_rfl, h, fun _ => h.listed_nil⟩
  · exact listed_sound h (fun _ => rfl) fun r₁ h₁ => member_sound hs hv hm seen h₁

/-! ### All values -/

/-- A value is a constant, a string, a number, an array or an object. -/
theorem valueSound_succ {fuel : Nat} (hs : Plain s) (he : ElementsSound s fuel) (hm : MembersSound s fuel) :
    ValueSound s (fuel + 1) := by
  intro r h
  simp only [Reader.value]
  split
  case h_6 heq => exact minus_sound h heq
  case h_7 heq =>
    refine (enclosed_sound h heq (by decide) (show ([91], _) ∈ _ by decide) (by decide)
      (show ([93], _) ∈ _ by decide) (he true)).mono fun r' h' => h'.mono ?_
    rintro ⟨t, hspace | ⟨items, rfl⟩, ht⟩
    · exact ⟨.emptyArray ⟨t, hspace⟩, by simpa only [Tree.text] using ht⟩
    · exact ⟨.array items, by simpa only [Tree.text] using ht⟩
  case h_8 heq =>
    refine (enclosed_sound h heq (by decide) (show ([123], _) ∈ _ by decide) (by decide)
      (show ([125], _) ∈ _ by decide) (hm [])).mono fun r' h' => h'.mono ?_
    rintro ⟨t, hspace | ⟨members, rfl⟩, ht⟩
    · exact ⟨.emptyObject ⟨t, hspace⟩, by simpa only [Tree.text] using ht⟩
    · exact ⟨.object members, by simpa only [Tree.text] using ht⟩
  case h_9 => exact .error
  all_goals exact atom_sound hs h (by rw [‹r.kind = _›]; rfl)

/-- All values are texts of trees, however deep they are. -/
theorem value_sound (hs : Plain s) (fuel : Nat) :
    ValueSound s fuel ∧ ElementsSound s fuel ∧ MembersSound s fuel := by
  induction fuel with
  | zero => exact ⟨fun _ _ => .error, fun _ _ _ => .error, fun _ _ _ => .error⟩
  | succ fuel ih =>
      obtain ⟨hv, he, hm⟩ := ih
      exact ⟨valueSound_succ hs he hm, elementsSound_succ hv he, membersSound_succ hs hv hm⟩

/-! ### Whole texts -/

/-- What is refused is more than warned of. -/
theorem Refuses.not_warns {fs : List Fault} (h : Refuses fs) : ¬ Warns fs := by
  obtain ⟨f, hf, herror⟩ := h
  intro hw
  have := herror.symm.trans (hw f hf)
  cases this

/-- At the end nothing more is read. -/
theorem expect_end : Ensures (r.expect .endOfFile) fun r' => r.kind = .endOfFile ∧ r'.faults = r.faults := by
  intro r' hr'
  unfold Reader.expect Reader.move at hr'
  split at hr'
  · rename_i lx hlx
    cases hr'
    refine ⟨?_, rfl⟩
    by_contra hkind
    have hkind : r.lexer.token.kind ≠ .endOfFile := hkind
    simp only [Lexer.expect, if_neg hkind] at hlx
    cases hlx
  · cases hr'

/-- A value that is passed up to the end of the source, with the white space around it. -/
theorem document_sound (hs : Plain s) (fuel : Nat) (h : Sits s lx) (hprev : lx.token.prevStop = 0) :
    Ensures (Reader.value fuel ⟨lx, []⟩ >>= Reader.expect .endOfFile) fun r => Warns r.faults →
      ∃ doc : Document IsSpace, doc.text = s.contents := by
  refine ((value_sound hs fuel).1 ⟨lx, []⟩ h).bind fun r₁ h₁ => expect_end.mono fun r₂ ⟨hkind, hfaults⟩ hw => ?_
  obtain ⟨tree, htree⟩ := h₁.holds (hfaults ▸ hw)
  obtain ⟨before, hbefore⟩ := h.exists_space
  obtain ⟨after, hafter⟩ := h₁.sits.exists_space
  have hall := (hbefore.append htree).append hafter
  rw [hprev, h₁.sits.stands.ends hkind, Spans, List.drop_zero, List.drop_length, List.append_nil] at hall
  exact ⟨⟨before, tree, after⟩, hall.symm⟩

/-- A plain source that is only warned of is a document. -/
theorem exists_document (hs : Plain s) (h : Warns (check s)) : ∃ doc : Document IsSpace, doc.text = s.contents := by
  unfold check at h
  split at h
  · rename_i f hstart
    have herror : f.IsError := next_fails _ f hstart
    exact absurd h (Refuses.not_warns ⟨f, List.mem_singleton_self f, herror⟩)
  · rename_i lx hstart
    obtain ⟨hsits, hprev⟩ := hs.sits lx hstart
    split at h
    · exact document_sound hs _ hsits hprev _ ‹_› h
    · rename_i fs hread
      have hrefuses := ((Reader.value_refuses _).1 _).bind (fun _ _ => Reader.expect_refuses) fs hread
      exact absurd h hrefuses.not_warns

/-- In a source with the white space and the numbers of JSON, the texts that are accepted are those of the
grammar, in which white space may stand between a minus sign and its number. -/
theorem accepts_iff (h : Plain s) : accepts s = true ↔ ∃ doc : Document IsSpace, doc.text = s.contents := by
  refine ⟨fun haccepts => exists_document h ?_, fun ⟨doc, hdoc⟩ => ?_⟩
  · simpa [accepts, Warns] using haccepts
  · exact (check_document (fun _ ht => ht) hdoc.symm).2

/-- Whether a source is plain can be computed from its tokens. -/
theorem Plain.of_tokens? {ts : List Token} {n : Nat} (hvalid : isValid s.contents = true)
    (h : (start s .json).toOption.bind (·.tokens? n) = some ts) (hts : ∀ t ∈ ts, Common s.contents t) : Plain s := by
  refine ⟨hvalid, fun us f hus => ?_⟩
  obtain ⟨rfl, -⟩ := (produces_of_tokens? h).unique hus
  exact hts

/-- A source with a minus sign apart from its number. -/
def apart : Source := { contents := "- 1" }

def apartTokens : List Token :=
  [⟨.minus, 0, 1, 0, true, "-", [], []⟩, ⟨.number, 2, 3, 1, false, "1", [], []⟩,
    ⟨.endOfFile, 3, 3, 3, false, [], [], []⟩]

/-- The number one. -/
def one : Numeral := ⟨⟨[49], by decide⟩, none, none, by decide⟩

theorem accepts_iff_apart :
    Plain apart ∧ (accepts apart = true ↔ ∃ doc : Document IsSpace, doc.text = apart.contents) := by
  have hplain : Plain apart := by
    refine .of_tokens? (n := 3) (by decide +kernel) (show _ = some apartTokens by decide +kernel) ?_
    simp only [apartTokens, List.forall_mem_cons, List.not_mem_nil, false_imp_iff, implies_true, and_true]
    refine ⟨⟨by decide, fun h => by cases h⟩, ⟨by decide, fun _ => ⟨one, by decide⟩⟩, by decide, fun h => by cases h⟩
  exact ⟨hplain, accepts_iff hplain⟩

/-- JSON proper joins the sign of a number to its digits, so that a text is accepted which is not JSON. -/
theorem accepts_apart : accepts apart = true ∧ ¬ ∃ doc : Document Joined, doc.text = apart.contents := by
  refine ⟨by decide +kernel, ?_⟩
  rintro ⟨⟨⟨before, hbefore⟩, item, after⟩, htext⟩
  have hcontents : apart.contents = [45, 32, 49] := by decide
  rw [Document.text, hcontents, List.append_assoc] at htext
  cases before with
  | cons b before =>
      obtain ⟨rfl, -⟩ := List.cons.inj htext
      exact absurd (hbefore 45 List.mem_cons_self) (by decide)
  | nil =>
      -- only a number with a sign begins with it
      cases item with
      | negative sign n =>
          obtain ⟨sign, rfl⟩ := sign
          obtain ⟨d, ds, hwhole, hdigit⟩ := n.whole.2.exists_cons
          rw [Tree.text, Numeral.text, hwhole] at htext
          obtain ⟨-, htail⟩ := List.cons.inj htext
          obtain ⟨rfl, -⟩ := List.cons.inj htail
          exact absurd hdigit (by decide)
      | number n =>
          obtain ⟨d, ds, hwhole, hdigit⟩ := n.whole.2.exists_cons
          rw [Tree.text, Numeral.text, hwhole] at htext
          obtain ⟨rfl, -⟩ := List.cons.inj htext
          exact absurd hdigit (by decide)
      | constant word =>
          obtain ⟨b, bs, hword, hne⟩ : ∃ b bs, word.1 = b :: bs ∧ b ≠ 45 := by
            obtain ⟨word, rfl | rfl | rfl⟩ := word
            exacts [⟨116, _, rfl, by decide⟩, ⟨102, _, rfl, by decide⟩, ⟨110, _, rfl, by decide⟩]
          rw [Tree.text, hword] at htext
          exact hne (List.cons.inj htext).1
      | _ => simp [Tree.text, Letters.text, quoted] at htext

end ModuleSystem.Json

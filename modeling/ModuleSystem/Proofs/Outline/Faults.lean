import ModuleSystem.Proofs.Lexer.Errors
import ModuleSystem.Proofs.Outline.Statements

/-!
# The scanner — what it objects to

`Fault.Legible s f` says that the fault `f` is one that is reported of the source `s`, and that all that its
message quotes is in `s`.  No part of the scanner fails with another one: above all, the bound on the number of
items between two braces is never reached, because every item takes a token.

* `Lexer.left`: what bounds these items.
* `readItems_legible`: the bound suffices.
* `step_legible`, `retokenize_legible`: the parts of a turn.
-/

namespace ModuleSystem

variable {s : Source}

/-! ### Faults -/

/-- The fault is one that is reported, and all that its message quotes is in the source. -/
def Fault.Legible (s : Source) : Fault → Prop
  | .endless _ => False
  | .expectedName r | .expectedAs r => r.start + r.len ≤ s.contents.length
  | _ => True

theorem Fault.IsLexical.legible {f : Fault} (h : f.IsLexical) : f.Legible s := by
  cases f <;> trivial

namespace Lexer

variable {lx lx' : Lexer} {ts : List Token}

theorem next_legible : Fails lx.next (Fault.Legible s) := (next_lexical lx).mono fun _ => Fault.IsLexical.legible

/-- A regular expression that does not end is a fault of the lexer. -/
theorem patternEnd_lexical {inClass : Bool} {pos : Nat} {gs : List Glyph} :
    Fails (patternEnd inClass pos gs) Fault.IsLexical := by
  fun_induction patternEnd inClass pos gs
  all_goals first | assumption | exact .ok | exact .error rfl

/-- Reading a slash again as a regular expression fails legibly or not at all. -/
theorem asRegExp_legible : Fails lx.asRegExp (Fault.Legible s) := by
  unfold asRegExp scanRegExp
  extract_lets c
  refine Fails.bind (.mono ?_ fun _ => Fault.IsLexical.legible) fun _ _ => .ok
  exact patternEnd_lexical.bind fun _ _ => .forbid rfl .ok

/-- Reading a brace again as the rest of a template fails legibly or not at all. -/
theorem asTemplate_legible : Fails lx.asTemplate (Fault.Legible s) := by
  unfold asTemplate
  exact .forbid trivial ((scanQuoted_fails.mono fun _ => Fault.IsLexical.legible).bind fun _ _ => .ok)

/-! ### What is left to read -/

/-- A bound on the tokens that are left. -/
def left (lx : Lexer) : Nat := if lx.token.isLast then 0 else lx.cursor.rest.length + 1

/-- Moving on leaves less. -/
theorem left_lt_of_next (hlx : Met s lx) (hlast : lx.token.isLast = false) (h : lx.next = .ok lx') :
    lx'.left < lx.left := by
  obtain ⟨-, before, gap, word, hat⟩ := hlx.exists_at
  obtain ⟨hsource, gap', word', hat'⟩ := hat.next _ h
  simp only [left, hlast, Bool.false_eq_true, if_false]
  split
  · omega
  · rename_i hlast'
    have hrest : lx.cursor.rest = gap' ++ (word' ++ lx'.cursor.rest) := by
      have heq := hat'.source.symm.trans ((congrArg (Utf8.glyphs ·.contents) hsource).trans hat.source)
      simpa only [List.append_assoc, List.append_cancel_left_eq] using heq.symm
    have hword : word' ≠ [] := fun hnil => hlast' <| by
      obtain ⟨hkind, -⟩ | ⟨hkind, -⟩ := hat'.empty hnil <;> rw [Token.isLast, hkind] <;> rfl
    have hpos := List.length_pos_of_ne_nil hword
    rw [hrest, List.length_append, List.length_append]
    omega

/-- The lexer has no more left to read than before, however many tokens it passes over. -/
theorem Goes.left_le (h : Goes lx ts lx') (hlx : Met s lx) : lx'.left ≤ lx.left := by
  induction h with
  | refl => exact le_rfl
  | next hlast hnext _ ih => exact (ih (hlx.next hnext)).trans (left_lt_of_next hlx hlast hnext).le

end Lexer

namespace Scanner

variable {p p' q : Scanner} {left : Leftover}

/-- Where the scanner has skipped tokens, the lexer still reads the source. -/
theorem Skips.met (h : Skips p q) (hp : Lexer.Met s p.lexer) : Lexer.Met s q.lexer := by
  obtain ⟨ts, hgoes, -⟩ := h.goes
  exact hgoes.met hp

/-- A scanner that passed over a token has less left to read. -/
theorem Advances.left_lt (h : Advances p q) (hp : Lexer.Met s p.lexer) : q.lexer.left < p.lexer.left := by
  obtain ⟨hplain, lx, hlx, hskips⟩ := h
  obtain ⟨ts, hgoes, -⟩ := hskips.goes
  exact (hgoes.left_le (hp.next hlx)).trans_lt (Lexer.left_lt_of_next hp (Lexer.isLast_of_isPlain hplain) hlx)

/-! ### Names and clauses -/

/-- A failure to move on is one of the lexer. -/
theorem advance_legible : Fails p.advance (Fault.Legible s) := by
  unfold Scanner.advance
  exact Lexer.next_legible.bind fun _ _ => .ok

theorem next_legible {exprAllowed : Bool} : Fails (p.next exprAllowed) (Fault.Legible s) := advance_legible

/-- A token that is not the expected one is a fault that is reported. -/
theorem expect_legible {k : TokenKind} : Fails (p.expect k) (Fault.Legible s) := by
  unfold Scanner.expect Lexer.expect
  split
  · exact Lexer.next_legible.bind fun _ _ => .ok
  · exact .error trivial

/-- A missing word is a fault that is reported. -/
theorem expectWord_legible {word : Text} : Fails (p.expectWord word) (Fault.Legible s) := by
  unfold Scanner.expectWord Lexer.expectWord
  split
  · exact Lexer.next_legible.bind fun _ _ => .ok
  · exact .error trivial

/-- A missing variable, or a reserved word in its place, is a fault that is reported. -/
theorem readBinding_legible : Fails p.readBinding (Fault.Legible s) := by
  unfold Scanner.readBinding
  extract_lets t rest₁ rest₂
  refine .forbid trivial ?_
  dsimp -zeta only [rest₂]
  exact .forbid trivial (advance_legible.bind fun _ _ => .ok)

/-- The name of an export is no name, or has an unpaired surrogate: both are reported. -/
theorem readExportName_legible : Fails p.readExportName (Fault.Legible s) := by
  unfold Scanner.readExportName
  extract_lets t
  split
  · split
    · exact .error trivial
    · exact advance_legible.bind fun _ _ => .ok
  · split
    · exact advance_legible.bind fun _ _ => .ok
    · exact .error trivial

/-- The name of an export is in the source. -/
theorem readExportName_range (hp : Lexer.Met s p.lexer) : Ensures p.readExportName fun r =>
    r.1.range.start + r.1.range.len ≤ s.contents.length := by
  have hplaces := hp.places_le
  have hrange : p.token.range.start + p.token.range.len ≤ s.contents.length := by
    simp only [Scanner.token, Token.range, Range.between] at hplaces ⊢
    omega
  intro r hr
  cases readExportName_ok r hr with
  | string | word => exact hrange

theorem readAttribute_legible : Fails p.readAttribute (Fault.Legible s) := by
  unfold Scanner.readAttribute
  extract_lets t rest
  have hrest : ∀ key, Fails (rest key) (Fault.Legible s) := by
    intro key
    refine advance_legible.bind fun p₁ _ => expect_legible.bind fun p₂ _ => ?_
    extract_lets v value last rest₂ rest₁
    refine .forbid trivial ?_
    dsimp -zeta only [rest₁]
    refine .forbid trivial ?_
    dsimp -zeta only [rest₂]
    exact .forbid trivial advance_legible
  split
  · exact hrest _
  · split
    · exact hrest _
    · exact .error trivial

/-- Every item takes a token, so that the bound on their number is never reached. -/
theorem readItems_legible {α : Type} {item : Scanner → Except Fault (α × Scanner)}
    (hadvances : ∀ p : Scanner, Ensures (item p) fun r => Advances p r.2)
    (hitem : ∀ p : Scanner, Lexer.Met s p.lexer → Fails (item p) (Fault.Legible s)) {fuel : Nat}
    (hp : Lexer.Met s p.lexer) (hfuel : p.lexer.left < fuel) : Fails (readItems item fuel p) (Fault.Legible s) := by
  induction fuel generalizing p with
  | zero => omega
  | succ fuel ih =>
      rw [Scanner.readItems]
      split
      · exact .ok
      · refine (hitem p hp).bind ?_
        rintro ⟨a, p₁⟩ hok
        have h₁ : Advances p p₁ := hadvances p _ hok
        have hlt := h₁.left_lt hp
        have hp₁ := h₁.skips.met hp
        dsimp only
        split
        · rename_i hcomma
          refine advance_legible.bind fun p₂ hok₂ => ?_
          have h₂ := advance_advances (p := p₁) (by rw [hcomma]; rfl) p₂ hok₂
          have hlt₂ := h₂.left_lt hp₁
          exact (ih (h₂.skips.met hp₁) (by omega)).bind fun _ _ => .ok
        · exact .ok

/-- What is said of every item is said of the items that are read. -/
theorem Items.forall_of_met {α : Type} {item : Scanner → Except Fault (α × Scanner)} {Q : α → Prop}
    (hadvances : ∀ p : Scanner, Ensures (item p) fun r => Advances p r.2)
    (hitem : ∀ p : Scanner, Lexer.Met s p.lexer → Ensures (item p) fun r => Q r.1) {r : List α × Scanner}
    (h : Items item p r) (hp : Lexer.Met s p.lexer) : ∀ a ∈ r.1, Q a := by
  induction h with
  | nil => simp
  | last read => simpa using hitem _ hp _ read
  | cons read comma moved _ ih =>
      have h₁ := (hadvances _ _ read).skips.trans (advance_advances (isPlain_of_kind comma rfl) _ moved).skips
      exact List.forall_mem_cons.2 ⟨hitem _ hp _ read, ih (h₁.met hp)⟩

/-- A list in braces fails legibly when its items do. Each item passes over a token, so the number of items that
are tried never runs out. -/
theorem readBraced_legible {α : Type} {item : Scanner → Except Fault (α × Scanner)}
    (hadvances : ∀ p : Scanner, Ensures (item p) fun r => Advances p r.2)
    (hitem : ∀ p : Scanner, Lexer.Met s p.lexer → Fails (item p) (Fault.Legible s)) (hp : Lexer.Met s p.lexer) :
    Fails (p.readBraced item) (Fault.Legible s) := by
  unfold Scanner.readBraced
  refine expect_legible.bind fun p₁ hok => ?_
  obtain ⟨lx, hlx, rfl⟩ := advance_ok (expect_ok hok).2
  refine (readItems_legible hadvances hitem (hp.next hlx) ?_).bind fun r _ => expect_legible.bind fun _ _ => .ok
  simp only [Lexer.left]
  split <;> omega

/-- What holds of every item of a list in braces holds of all of them together. -/
theorem readBraced_forall {α : Type} {item : Scanner → Except Fault (α × Scanner)} {Q : α → Prop}
    (hadvances : ∀ p : Scanner, Ensures (item p) fun r => Advances p r.2)
    (hitem : ∀ p : Scanner, Lexer.Met s p.lexer → Ensures (item p) fun r => Q r.1) (hp : Lexer.Met s p.lexer) :
    Ensures (p.readBraced item) fun r => ∀ a ∈ r.1, Q a := by
  intro r hr
  obtain ⟨p₁, p₂, opened, items, -⟩ := readBraced_ok r hr
  obtain ⟨lx, hlx, rfl⟩ := advance_ok (expect_ok opened).2
  exact items.forall_of_met hadvances hitem (hp.next hlx)

/-- The attributes of an import fail legibly, also those that are not supported. -/
theorem readAttributes_legible (hp : Lexer.Met s p.lexer) : Fails p.readAttributes (Fault.Legible s) := by
  unfold Scanner.readAttributes
  refine advance_legible.bind fun p₁ hok => ?_
  obtain ⟨lx, hlx, rfl⟩ := advance_ok hok
  refine (readBraced_legible (fun q => ?_) (fun q _ => ?_) (hp.next hlx)).bind fun _ _ => .ok
  · exact readAttribute_advances.bind fun q' hq' => .ok hq'
  · exact readAttribute_legible.bind fun _ _ => .ok

/-- A specifier with its attributes fails legibly. -/
theorem readSpecifier_legible (hp : Lexer.Met s p.lexer) : Fails p.readSpecifier (Fault.Legible s) := by
  unfold Scanner.readSpecifier
  extract_lets t record rest
  refine .forbid trivial (advance_legible.bind fun p₁ hok => ?_)
  obtain ⟨lx, hlx, rfl⟩ := advance_ok hok
  extract_lets n
  split
  · exact (readAttributes_legible (hp.next hlx)).bind fun _ _ => .ok
  · exact .ok

/-! ### Statements that are read in full -/

/-- A statement that does not end where it has to is a fault that is reported. -/
theorem finishStatement_legible {start : Nat} {st : Range → Statement} :
    Fails (p.finishStatement start st) (Fault.Legible s) := by
  unfold Scanner.finishStatement
  extract_lets rest
  split
  · exact advance_legible.bind fun _ _ => .ok
  · refine Fails.bind ?_ fun _ _ => .ok
    unfold Lexer.expectSemicolon Lexer.expect
    extract_lets k
    split
    · split
      · exact Lexer.next_legible
      · exact .error trivial
    · exact .ok

theorem readStar_legible : Fails p.readStar (Fault.Legible s) := by
  unfold Scanner.readStar
  exact expect_legible.bind fun _ _ => expectWord_legible.bind fun _ _ => readBinding_legible

theorem readImportItem_legible (hp : Lexer.Met s p.lexer) : Fails p.readImportItem (Fault.Legible s) := by
  unfold Scanner.readImportItem
  refine readExportName_legible.bind ?_
  rintro ⟨n, p₁⟩ hok
  have hrange := readExportName_range hp _ hok
  dsimp only
  split
  · exact advance_legible.bind fun _ _ => readBinding_legible.bind fun _ _ => .ok
  · split
    · exact .error hrange
    · split
      · exact .error trivial
      · exact .ok

/-- An import statement fails legibly. A fault that quotes a name quotes it from the tokens of the statement. -/
theorem readImport_legible (hp : Lexer.Met s p.lexer) (start : Nat) :
    Fails (p.readImport start) (Fault.Legible s) := by
  unfold Scanner.readImport
  extract_lets rest
  -- all forms end in a specifier, so that each only has to skip to it
  have hrest : ∀ r : Option Binding × Option Binding × List ClauseItem × Scanner, Skips p r.2.2.2 →
      Fails (rest r) (Fault.Legible s) := fun r hr =>
    (readSpecifier_legible (hr.met hp)).bind fun _ _ => finishStatement_legible
  have hstar : ∀ (d : Option Binding) (q : Scanner), Skips p q → Fails (do
        let r ← q.readStar
        rest (d, some r.1, [], ← r.2.expectWord "from")) (Fault.Legible s) := by
    intro d q hq
    refine readStar_legible.bind fun r hr => expectWord_legible.bind fun q₂ hq₂ => hrest (d, some r.1, [], q₂) ?_
    exact (hq.trans (readStar_skips r hr)).trans (expectWord_advances _ q₂ hq₂).skips
  have hbraced : ∀ (d : Option Binding) (q : Scanner), Skips p q → Fails (do
        let r ← q.readBraced Scanner.readImportItem
        rest (d, none, r.1, ← r.2.expectWord "from")) (Fault.Legible s) := by
    intro d q hq
    refine (readBraced_legible (fun _ => readImportItem_advances) (fun _ => readImportItem_legible) (hq.met hp)).bind
      fun r hr => expectWord_legible.bind fun q₂ hq₂ => hrest (d, none, r.1, q₂) ?_
    exact (hq.trans (readBraced_skips (fun _ => readImportItem_advances) r hr)).trans
      (expectWord_advances _ q₂ hq₂).skips
  split
  · exact hrest (none, none, [], p) (.refl p)
  · exact hstar none p (.refl p)
  · exact hbraced none p (.refl p)
  · refine readBinding_legible.bind ?_
    rintro ⟨d, p₁⟩ hok
    have h₁ : Skips p p₁ := (readBinding_advances _ hok).skips
    dsimp only
    split
    · rename_i hcomma
      refine advance_legible.bind fun p₂ hok₂ => ?_
      have h₂ := h₁.trans (advance_advances (by rw [hcomma]; rfl) p₂ hok₂).skips
      split
      · exact hstar (some d) p₂ h₂
      · exact hbraced (some d) p₂ h₂
      · exact .error trivial
    · exact expectWord_legible.bind fun p₂ hok₂ =>
        hrest (some d, none, [], p₂) (h₁.trans (expectWord_advances _ p₂ hok₂).skips)
  · exact .error trivial

theorem readExportItem_legible : Fails p.readExportItem (Fault.Legible s) := by
  unfold Scanner.readExportItem
  refine readExportName_legible.bind ?_
  rintro ⟨n, p₁⟩ -
  dsimp -zeta only
  extract_lets p₂ odd
  split
  · exact advance_legible.bind fun _ _ => readExportName_legible.bind fun _ _ => .ok
  · exact .ok

/-- What is noted of a name that is no identifier is in the source. -/
theorem readExportItem_range (hp : Lexer.Met s p.lexer) : Ensures p.readExportItem fun r =>
    ∀ r' ∈ r.1.2, r'.start + r'.len ≤ s.contents.length := by
  have hodd : ∀ {n : ExportName} {q : Scanner}, p.readExportName = .ok (n, q) →
      ∀ r' ∈ (if n.isIdentifier then none else some n.range), r'.start + r'.len ≤ s.contents.length := by
    intro n q name r' hr'
    split at hr'
    · cases hr'
    · cases hr'
      exact readExportName_range hp _ name
  intro r hr
  cases readExportItem_ok r hr with
  | renamed name | plain name => exact hodd name

theorem skipKeyword_legible : Fails p.skipKeyword (Fault.Legible s) := by
  unfold Scanner.skipKeyword
  extract_lets isClass
  refine advance_legible.bind fun _ _ => ?_
  split
  · exact advance_legible.bind fun _ _ => .ok
  · exact .ok

theorem readExportedBody_legible {keyword : Range} : Fails (p.readExportedBody keyword) (Fault.Legible s) := by
  unfold Scanner.readExportedBody
  exact skipKeyword_legible.bind fun _ _ => readBinding_legible.bind fun _ _ => .ok

/-- A default export fails legibly up to its name. -/
theorem readExportDefault_legible {keyword : Range} : Fails (p.readExportDefault keyword) (Fault.Legible s) := by
  unfold Scanner.readExportDefault
  extract_lets range rest
  have hrest : ∀ r, Fails (rest r) (Fault.Legible s) := by
    rintro ⟨asyncOnly, p₁⟩
    dsimp -zeta only [rest]
    split
    · exact .ok
    split
    · refine skipKeyword_legible.bind ?_
      rintro ⟨isClass, p₂⟩ -
      dsimp -zeta only
      extract_lets kind
      split
      · exact readBinding_legible.bind fun _ _ => .ok
      · exact .ok
    · exact .ok
  refine advance_legible.bind fun p₁ _ => ?_
  split
  · exact advance_legible.bind fun p₂ _ => hrest (_, p₂)
  · exact hrest (false, p₁)

/-- An export statement of any kind fails legibly, and quotes only names that stand in its clause. -/
theorem readExport_legible (hp : Lexer.Met s p.lexer) : Fails p.readExport (Fault.Legible s) := by
  unfold Scanner.readExport
  extract_lets keyword rest
  refine advance_legible.bind fun p₁ hok => ?_
  have hp₁ : Lexer.Met s p₁.lexer := by
    obtain ⟨lx, hlx, rfl⟩ := advance_ok hok
    exact hp.next hlx
  cases hk₁ : p₁.token.kind
  case asterisk =>
    refine advance_legible.bind fun p₂ hok₂ => ?_
    have h₂ := (advance_advances (by rw [hk₁]; rfl) p₂ hok₂).skips
    -- what follows is the same with a name and without
    have hrest : ∀ r : Option Binding × Scanner, Lexer.Met s r.2.lexer → Fails (rest r) (Fault.Legible s) := by
      rintro ⟨name, p₃⟩ hp₃
      refine expectWord_legible.bind fun p₄ hok₄ => ?_
      exact (readSpecifier_legible ((expectWord_advances _ p₄ hok₄).skips.met hp₃)).bind fun _ _ =>
        finishStatement_legible
    split
    · rename_i hword
      refine advance_legible.bind fun p₃ hok₃ => readExportName_legible.bind fun r hr => ?_
      have h₃ := (advance_advances (isPlain_of_isWord hword) p₃ hok₃).skips.trans (readExportName_advances r hr).skips
      exact hrest (some ⟨r.1.name, r.1.range.start⟩, r.2) ((h₂.trans h₃).met hp₁)
    · exact hrest (none, p₂) (h₂.met hp₁)
  case openBrace =>
    refine (readBraced_legible (fun _ => readExportItem_advances) (fun _ _ => readExportItem_legible) hp₁).bind ?_
    rintro ⟨read, p₂⟩ hok₂
    have hp₂ : Lexer.Met s p₂.lexer := (readBraced_skips (fun _ => readExportItem_advances) _ hok₂).met hp₁
    have hread := readBraced_forall (Q := fun a => ∀ r ∈ a.2, r.start + r.len ≤ s.contents.length)
      (fun _ => readExportItem_advances) (fun _ => readExportItem_range) hp₁ _ hok₂
    dsimp -zeta only
    extract_lets items
    split
    · rename_i hword
      refine advance_legible.bind fun p₃ hok₃ => ?_
      have h₃ := (advance_advances (isPlain_of_isWord hword) p₃ hok₃).skips
      exact (readSpecifier_legible (h₃.met hp₂)).bind fun _ _ => finishStatement_legible
    · split
      · rename_i r hr
        obtain ⟨a, ha, hodd⟩ := List.exists_of_findSome?_eq_some hr
        exact .error (hread a ha r hodd)
      · exact finishStatement_legible
  case kwDefault => exact readExportDefault_legible
  case kwVar | kwConst => exact next_legible
  case identifier =>
    dsimp only
    split
    · exact next_legible
    · split
      · refine advance_legible.bind fun p₂ _ => ?_
        extract_lets
        exact .forbid trivial readExportedBody_legible
      · exact .error trivial
  case kwFunction | kwClass => exact readExportedBody_legible
  all_goals exact .error trivial

/-! ### The step -/

/-- A key of an object or a member of a class fails legibly. -/
theorem stepKey_legible {x : Except Fault Scanner} (hx : p.stepKey = some x) : Fails x (Fault.Legible s) := by
  unfold Scanner.stepKey at hx
  extract_lets t _ p₁ p₂ at hx
  split at hx
  · cases hx
    exact next_legible
  · split at hx
    case h_6 => cases hx
    all_goals
      cases hx
      exact next_legible

/-- A variable is handled without a fault of its own; only the next token may have one. -/
theorem stepVariable_legible : Fails (p.stepVariable left) (Fault.Legible s) := by
  unfold Scanner.stepVariable
  extract_lets b _ _ pDecl pPattern p₁ isElement
  split
  · exact next_legible
  split
  · exact next_legible
  · exact next_legible.bind fun _ _ => .ok

/-- An identifier fails legibly: `yield` and `await` are faults outside of a function. -/
theorem stepIdentifier_legible : Fails (p.stepIdentifier left) (Fault.Legible s) := by
  unfold Scanner.stepIdentifier
  extract_lets t p₁ isWord
  split
  · exact next_legible
  split
  · split
    · exact .error trivial
    · exact next_legible
  split
  · split
    · exact .error trivial
    · exact next_legible
  split <;> exact stepVariable_legible

theorem stepColon_legible : Fails p.stepColon (Fault.Legible s) := by
  unfold Scanner.stepColon
  extract_lets kind ternaries p₁
  refine next_legible.bind fun p₂ _ => ?_
  split
  · exact .ok
  split <;> exact .ok

theorem stepOpenBrace_legible {stmtStart : Bool} : Fails (p.stepOpenBrace stmtStart) (Fault.Legible s) := by
  unfold Scanner.stepOpenBrace
  refine next_legible.bind fun p₁ _ => ?_
  split <;> exact .ok

/-- A bracket that another token closes than its own is a fault that is reported. -/
theorem close_legible : Fails p.close (Fault.Legible s) := by
  unfold Scanner.close
  split
  · exact .error trivial
  · exact .ok

theorem stepCloseBrace_legible : Fails p.stepCloseBrace (Fault.Legible s) := by
  unfold Scanner.stepCloseBrace
  refine close_legible.bind fun p₁ _ => ?_
  extract_lets closed parent
  split
  case h_4 | h_5 => exact next_legible
  all_goals exact next_legible.bind fun _ _ => .ok

theorem stepOpenBracket_legible : Fails p.stepOpenBracket (Fault.Legible s) := by
  unfold Scanner.stepOpenBracket
  split <;> exact next_legible

theorem stepCloseParen_legible : Fails p.stepCloseParen (Fault.Legible s) := by
  unfold Scanner.stepCloseParen
  refine close_legible.bind fun p₁ _ => ?_
  extract_lets closed isStatement
  refine next_legible.bind fun p₂ _ => ?_
  extract_lets p₃ loop
  split <;> exact .ok

theorem stepComma_legible : Fails p.stepComma (Fault.Legible s) := by
  unfold Scanner.stepComma
  extract_lets p₁ _ _ p₂ rest
  refine .forbid trivial (next_legible.bind fun p₃ _ => ?_)
  split <;> exact .ok

theorem stepUpdate_legible {ref : Option Binding} : Fails (p.stepUpdate ref) (Fault.Legible s) := by
  unfold Scanner.stepUpdate
  split
  · exact next_legible
  · exact next_legible.bind fun _ _ => .ok

/-- The keyword `import` fails legibly, as a statement, a call or a meta property. -/
theorem stepImport_legible (hp : Lexer.Met s p.lexer) {stmtStart : Bool} :
    Fails (p.stepImport stmtStart) (Fault.Legible s) := by
  unfold Scanner.stepImport
  extract_lets keyword
  refine advance_legible.bind fun p₁ hok => ?_
  obtain ⟨lx, hlx, rfl⟩ := advance_ok hok
  split
  · extract_lets _ o
    refine next_legible.bind fun p₂ _ => ?_
    extract_lets rest
    exact .forbid trivial .ok
  · refine advance_legible.bind fun p₂ _ => ?_
    extract_lets _ o p₃ rest
    exact .require trivial next_legible
  · extract_lets rest
    exact .require trivial (readImport_legible (hp.next hlx) _)

/-- Whatever the kind of the current token is, handling it fails legibly. -/
theorem stepKind_legible (hp : Lexer.Met s p.lexer) : Fails (p.stepKind left) (Fault.Legible s) := by
  unfold Scanner.stepKind
  dsimp only
  cases p.token.kind
  case identifier | escapedKeyword =>
    dsimp only
    split <;> exact stepIdentifier_legible
  case kwImport => exact stepImport_legible hp
  case kwExport => exact .require trivial (readExport_legible hp)
  case kwReturn => exact .forbid trivial next_legible
  case kwCatch | kwDo | kwElse | kwTry | kwFinally | semicolon => exact next_legible.bind fun _ _ => .ok
  case closeParen => exact stepCloseParen_legible
  case openBracket => exact stepOpenBracket_legible
  case closeBracket => exact close_legible.bind fun _ _ => next_legible
  case openBrace => exact stepOpenBrace_legible
  case closeBrace => exact stepCloseBrace_legible
  case comma => exact stepComma_legible
  case colon => exact stepColon_legible
  case plusPlus | minusMinus => exact stepUpdate_legible
  all_goals exact next_legible

/-- So does handling it behind a dot, or where a key may stand. -/
theorem handleToken_legible (hp : Lexer.Met s p.lexer) : Fails (p.handleToken left) (Fault.Legible s) := by
  unfold Scanner.handleToken
  split
  · exact next_legible
  · split
    · rename_i x hx
      split at hx
      · exact stepKey_legible hx
      · cases hx
    · exact stepKind_legible hp

/-- A step fails legibly, whatever the tokens are. -/
theorem step_legible (hp : Lexer.Met s p.lexer) : Fails p.step (Fault.Legible s) := by
  rw [step_eq_handleToken]
  exact handleToken_legible (p.settled_alike.lexer ▸ hp)

/-- Reading the current token again fails legibly. -/
theorem retokenize_legible : Fails p.retokenize (Fault.Legible s) := by
  unfold Scanner.retokenize
  split
  · split
    · exact Lexer.asRegExp_legible.bind fun _ _ => .ok
    · exact .ok
  · split
    · exact Lexer.asRegExp_legible.bind fun _ _ => .ok
    · exact .ok
  · split
    · exact Lexer.asTemplate_legible.bind fun _ _ => .ok
    · exact .ok
  · exact .ok

end Scanner

end ModuleSystem

import ModuleSystem.Proofs.Loops.Fragment

/-!
# Scanning a program of loops

What the scanner makes of a source that declares `x`, exports it, and goes on with statements without
notices: its outline has the export clause and the loops of the statements (`scan_program`).
-/

namespace ModuleSystem.Scanner

open Lexer (after wordToken markToken ascii asciiGlyph)

variable {s : Source} {t : Token} {o : Outline} {rest : List Glyph} {top last : Frame}
  {below : List Frame} {prev : TokenKind} {exprAllowed : Bool} {left : Leftover}
  {lx lx' lx₁ lx₂ lx₃ lx₄ : Lexer}

/-! ### The export clause -/

/-- A state of the scanner moves on with the lexer. -/
theorem advance_state (h : lx.next = .ok lx') :
    (state lx o top below prev exprAllowed left last).advance =
      .ok (state lx' o top below prev exprAllowed left last) := by
  unfold advance
  rw [show (state lx o top below prev exprAllowed left last).lexer = lx from rfl, h]
  rfl

/-- A state passes over an expected token. -/
theorem expect_state {k : TokenKind} (hkind : lx.token.kind = k) (h : lx.next = .ok lx') :
    (state lx o top below prev exprAllowed left last).expect k =
      .ok (state lx' o top below prev exprAllowed left last) := by
  unfold expect
  rw [show (state lx o top below prev exprAllowed left last).lexer = lx from rfl, Lexer.expect, if_pos hkind, h]
  rfl

/-- An item of an export clause that is a variable. -/
theorem readExportItem_state (hkind : lx.token.kind = .identifier) (hnext : lx.next = .ok lx')
    (hkind' : lx'.token.kind = .closeBrace) :
    (state lx o top below prev exprAllowed left last).readExportItem =
      .ok ((⟨lx.token.name, lx.token.name, lx.token.start, lx.token.start⟩, none),
        state lx' (named o lx.token.name) top below prev exprAllowed left last) := by
  have hname : (state lx o top below prev exprAllowed left last).readExportName =
      .ok (⟨lx.token.name, lx.token.range, true⟩, state lx' o top below prev exprAllowed left last) := by
    unfold readExportName
    rw [advance_state hnext]
    simp [token, state, hkind, TokenKind.isName]
  unfold readExportItem
  rw [hname, ok_bind]
  simp [token, state, Token.isWord, hkind', use]
  rfl

/-- An export clause with one variable. -/
theorem readBraced_state (hkind₁ : lx₁.token.kind = .openBrace) (hnext₁ : lx₁.next = .ok lx₂)
    (hkind₂ : lx₂.token.kind = .identifier) (hnext₂ : lx₂.next = .ok lx₃)
    (hkind₃ : lx₃.token.kind = .closeBrace) (hnext₃ : lx₃.next = .ok lx₄) :
    (state lx₁ o top below prev exprAllowed left last).readBraced readExportItem =
      .ok ([(⟨lx₂.token.name, lx₂.token.name, lx₂.token.start, lx₂.token.start⟩, none)],
        state lx₄ (named o lx₂.token.name) top below prev exprAllowed left last) := by
  have hitems : readItems readExportItem (lx₂.cursor.rest.length + 2)
      (state lx₂ o top below prev exprAllowed left last) =
        .ok ([(⟨lx₂.token.name, lx₂.token.name, lx₂.token.start, lx₂.token.start⟩, none)],
          state lx₃ (named o lx₂.token.name) top below prev exprAllowed left last) := by
    rw [readItems, if_neg (by simp [token, state, hkind₂]), readExportItem_state hkind₂ hnext₂ hkind₃, ok_bind]
    exact if_neg (by simp [token, state, hkind₃])
  unfold readBraced
  rw [expect_state hkind₁ hnext₁, ok_bind]
  change (readItems readExportItem (lx₂.cursor.rest.length + 2) _ >>= _) = _
  rw [hitems, ok_bind]
  dsimp only
  rw [expect_state hkind₃ hnext₃]
  rfl

/-- A statement that ends with a semicolon is added to the outline. -/
theorem finishStatement_state (hkind : lx.token.kind = .semicolon) (start : Nat) (f : Range → Statement) :
    (state lx o top below prev exprAllowed left last).finishStatement start f = lx.next >>= fun lx' =>
      .ok (state lx' { o with statements := o.statements ++ [f (.between start lx.token.stop)] } top below
        .semicolon true { left with stmtStart := true } last) := by
  unfold finishStatement
  rw [if_pos (show (state lx o top below prev exprAllowed left last).token.kind = .semicolon from hkind)]
  unfold advance
  change ((lx.next >>= _) >>= _) = _
  cases lx.next <;> rfl

/-- An export statement with one variable. -/
theorem stepKind_export (hkind : lx.token.kind = .kwExport) (hnext : lx.next = .ok lx₁)
    (hkind₁ : lx₁.token.kind = .openBrace) (hnext₁ : lx₁.next = .ok lx₂)
    (hkind₂ : lx₂.token.kind = .identifier) (hnext₂ : lx₂.next = .ok lx₃)
    (hkind₃ : lx₃.token.kind = .closeBrace) (hnext₃ : lx₃.next = .ok lx₄)
    (hkind₄ : lx₄.token.kind = .semicolon) :
    (state lx o top [] .semicolon exprAllowed {} last).stepKind { stmtStart := true } = lx₄.next >>= fun lx' =>
      .ok (state lx' { named o lx₂.token.name with
          statements := o.statements ++ [.exportClause (.between lx.token.start lx₄.token.stop)
            [⟨lx₂.token.name, lx₂.token.name, lx₂.token.start, lx₂.token.start⟩]] }
        top [] .semicolon true { stmtStart := true } last) := by
  have hstep : (state lx o top [] .semicolon exprAllowed {} last).stepKind { stmtStart := true } =
      (state lx o top [] .semicolon exprAllowed {} last).readExport := by
    simp only [stepKind, token, state, hkind]
    rfl
  rw [hstep]
  unfold readExport
  rw [advance_state hnext, ok_bind]
  simp only [token, state, hkind₁]
  change (readBraced (state lx₁ o top [] .semicolon exprAllowed {} last) readExportItem >>= _) = _
  rw [readBraced_state hkind₁ hnext₁ hkind₂ hnext₂ hkind₃ hnext₃, ok_bind]
  dsimp only
  refine (if_neg (by simp [state, Token.isWord, hkind₄])).trans ?_
  exact finishStatement_state hkind₄ _ _

/-- The frame of the module, in a declaration. -/
def declaring (expectBinding : Bool) : Frame := { kind := .module, decl := { active := true, expectBinding } }

/-- At `let` a declaration is pending. -/
theorem stepKind_let (hkind : lx.token.kind = .identifier) (hname : lx.token.name = Text.ofString "let")
    (hraw : lx.token.raw = lx.token.name) :
    (state lx o top below prev exprAllowed {} last).stepKind { stmtStart := true } = lx.next >>= fun lx' =>
      .ok { state lx' (named o lx.token.name) top below .identifier true {} last with pendingLet := true } := by
  have hword : lx.token.isWord "await" = false := by
    have hne : Text.ofString "let" ≠ Text.ofString "await" := by decide
    simp [Token.isWord, hraw, hname, hne]
  have hstep : (state lx o top below prev exprAllowed {} last).stepKind { stmtStart := true } =
      (state lx o top below prev exprAllowed {} last).stepIdentifier { stmtStart := true } := by
    simp only [stepKind, token, state, hkind, hword, Bool.false_eq_true, reduceIte]
  have hidentifier : (state lx o top below prev exprAllowed {} last).stepIdentifier { stmtStart := true } =
      { state lx (named o lx.token.name) top below prev exprAllowed {} last with pendingLet := true }.next true := by
    unfold stepIdentifier
    exact if_pos (by simp [token, state, hkind, hname])
  rw [hstep, hidentifier]
  simp only [next, advance, state, token, hkind]
  cases lx.next <;> rfl

/-- At `var` a declaration starts. -/
theorem stepKind_var (hkind : lx.token.kind = .kwVar) :
    (state lx o { kind := .module } below prev exprAllowed {} last).stepKind { stmtStart := true } =
      lx.next >>= fun lx' => .ok (state lx' o (declaring true) below .kwVar true {} last) := by
  have hstep : (state lx o { kind := .module } below prev exprAllowed {} last).stepKind { stmtStart := true } =
      (state lx o (declaring true) below prev exprAllowed {} last).next true := by
    simp only [stepKind, token, state, hkind]
    rfl
  rw [hstep, next_state, hkind]

/-- An identifier is not read again. -/
theorem run_of_identifier (p : Scanner) (hkind : p.token.kind = .identifier) (fuel : Nat) :
    run (fuel + 1) p = p.step >>= run fuel := by
  have hretokenize : p.retokenize = .ok p := by
    simp only [retokenize, hkind]
    rfl
  rw [run, hretokenize, ok_bind]
  exact if_neg (by simp [hkind])

/-- After `let` a name starts a declaration. -/
theorem run_pendingLet (hkind : lx.token.kind = .identifier) (hline : lx.token.newlineBefore = false) (fuel : Nat) :
    run (fuel + 1) { state lx o { kind := .module } below .identifier true {} last with pendingLet := true } =
      run (fuel + 1) (state lx o (declaring true) below .identifier true {} last) := by
  have hstep : ({ state lx o { kind := .module } below .identifier true {} last with
      pendingLet := true }).step = (state lx o (declaring true) below .identifier true {} last).step := by
    rw [step_state rfl ⟨by decide, by decide⟩ (.inl rfl) (.inr rfl) ⟨by decide, by decide⟩ rfl]
    unfold step
    simp only [state, settleUpdate, settleShorthand, collectTargets, noteLoop, token, reduceCtorEq, decide_false,
      Bool.or_self, Bool.false_and, Bool.false_eq_true, reduceIte, settleLet, hkind, settleLine, startDeclaration, hline]
    rfl
  have h₁ := run_of_identifier { state lx o { kind := .module } below .identifier true {} last with
    pendingLet := true } hkind fuel
  have h₂ := run_of_identifier (state lx o (declaring true) below .identifier true {} last) hkind fuel
  rw [h₁, h₂, hstep]

/-- The binding of a declaration. -/
theorem stepKind_declared (hkind : lx.token.kind = .identifier) (hname : lx.token.name ∉ contextual)
    (hraw : lx.token.raw = lx.token.name) :
    (state lx o (declaring true) [] prev exprAllowed {} last).stepKind left = lx.next >>= fun lx' =>
      .ok (state lx' (named o lx.token.name) (declaring false) [] .identifier false {} last) := by
  rw [stepKind_identifier hkind hname hraw]
  change (state lx (named o lx.token.name) (declaring false) [] prev exprAllowed {} last).next false = _
  rw [next_state, hkind]

/-- The words that a declaration of a variable starts with. -/
def declarators : List Text := ["let", "var"].map Text.ofString

/-- The words that declare a variable have three letters. -/
theorem isWord_of_declarator {w : Text} (hw : w ∈ declarators) : Lexer.IsWord w ∧ w.length = 3 := by
  have hwords : ∀ w ∈ declarators, Lexer.IsWord w ∧ w.length = 3 := by decide
  exact hwords w hw

/-- The scanner comes past the word that a declaration starts with, to the name that is declared. -/
theorem run_declarator {w : Text} (hw : w ∈ declarators) {lx lx' : Lexer} (hlx : lx.token = Lexer.firstToken w)
    (hnext : lx.next = .ok lx') (hkind : lx'.token.kind = .identifier) (hline : lx'.token.newlineBefore = false) :
    ∃ (names : List Text) (prev : TokenKind), (∀ n ∈ names, n ∈ declarators) ∧
      (prev = .identifier ∨ prev = .kwVar) ∧
      ∀ fuel, run (fuel + 2) (state lx {} { kind := .module } [] .endOfFile true { stmtStart := true }
          { kind := .module }) =
        run (fuel + 1) (state lx' { usedNames := names } (declaring true) [] prev true {} { kind := .module }) := by
  have hstep : ∀ (fuel : Nat) (f : Lexer → Scanner), (hkind : lx.token.kind ≠ .slash ∧ lx.token.kind ≠ .slashAssign ∧
      lx.token.kind ≠ .endOfFile) → (state lx {} { kind := .module } [] .endOfFile true {}
        { kind := .module }).stepKind { stmtStart := true } = (lx.next >>= fun lx' => .ok (f lx')) →
      run (fuel + 2) (state lx {} { kind := .module } [] .endOfFile true { stmtStart := true }
        { kind := .module }) = run (fuel + 1) (f lx') := by
    intro fuel f hkind hf
    rw [run_succ (fuel + 1) hkind (by decide), step_state rfl ⟨by decide, by decide⟩ (.inl rfl) (.inr rfl)
      ⟨by decide, by decide⟩ rfl, hf, hnext]
    rfl
  obtain rfl | rfl : w = Text.ofString "let" ∨ w = Text.ofString "var" := by
    simpa [declarators] using hw
  · have hlet : Lexer.nameKind (Text.ofString "let") = .identifier := by decide
    have htoken : lx.token.kind = .identifier := by rw [hlx]; exact hlet
    have hname : lx.token.name = Text.ofString "let" := by rw [hlx]; rfl
    refine ⟨[Text.ofString "let"], .identifier, by decide, .inl rfl, fun fuel => ?_⟩
    rw [hstep fuel _ (by rw [htoken]; decide) (stepKind_let htoken hname (by rw [hlx]; rfl)),
      run_pendingLet hkind hline, hname]
    rfl
  · have hvar : Lexer.nameKind (Text.ofString "var") = .kwVar := by decide
    have htoken : lx.token.kind = .kwVar := by rw [hlx]; exact hvar
    exact ⟨[], .kwVar, by simp, .inr rfl, fun fuel => hstep fuel _ (by rw [htoken]; decide) (stepKind_var htoken)⟩

/-- Between the words of a declaration nothing is left to settle. -/
theorem calm_declaring (expectBinding : Bool) (hline : lx.token.newlineBefore = false)
    (hprev : prev ≠ .dot ∧ prev ≠ .questionDot)
    (htoken : lx.token.kind ≠ .slash ∧ lx.token.kind ≠ .slashAssign ∧ lx.token.kind ≠ .endOfFile) :
    Calm lx (declaring expectBinding) prev {} :=
  ⟨rfl, ⟨by simp [declaring], by simp [declaring], by simp [declaring]⟩, .inl rfl, hline, hprev, rfl, htoken⟩

/-- The rest of a declaration: ` x;`. -/
theorem going_declared (ht : Past t) (hprev : prev = .identifier ∨ prev = .kwVar) (fuel : Nat) :
    going (fuel + 2) s t (ascii [32, 120, 59] ++ rest) (fun _ => o) (declaring true) [] prev true {} last =
      going fuel s (markToken (wordToken t 1 [120]) 0 59 .semicolon) rest (fun _ => named o [120])
        { kind := .module } [] .semicolon true { stmtStart := true } last := by
  have hx : ([120], .identifier) ∈ lexicon := by decide
  have hprev : prev ≠ .dot ∧ prev ≠ .questionDot := by
    obtain rfl | rfl := hprev <;> decide
  have hname : going (fuel + 2) s t (ascii [32, 120, 59] ++ rest) (fun _ => o) (declaring true) [] prev true {}
      last = going (fuel + 1) s (wordToken t 1 [120]) (asciiGlyph 59 :: rest) (fun _ => named o [120])
        (declaring false) [] .identifier false {} last := by
    refine going_word ht 1 (isWord_of_mem hx) (break_of_mem (b := 59) (by decide)) (fuel + 1)
      (fun rest => calm_declaring true rfl hprev ?_) fun lx hlx => ?_
    · show Lexer.nameKind [120] ≠ _ ∧ Lexer.nameKind [120] ≠ _ ∧ Lexer.nameKind [120] ≠ _
      rw [nameKind_of_mem hx]
      decide
    · rw [stepKind_declared (by rw [hlx]; exact nameKind_of_mem hx)
        (by rw [hlx]; exact not_contextual_of_mem hx) (by rw [hlx]; rfl), hlx]
      rfl
  refine hname.trans (going_mark (past_word hx 1) 0 (b := 59) rfl fuel
    (fun rest => calm_declaring false rfl (by decide) (by simp [after, markToken])) fun lx hlx => ?_)
  exact stepKind_semicolon (by rw [hlx]; rfl) rfl

/-- The outline after an export clause for `x` that starts at an offset. -/
def exporting (o : Outline) (start : Nat) : Outline :=
  { named o [120] with
    statements := o.statements ++ [.exportClause (.between start (start + 11))
      [⟨[120], [120], start + 8, start + 8⟩]] }

/-- An export clause: `export {x};`. -/
theorem going_export (ht : Past t) :
    ∃ t', Past t' ∧ t'.stop = t.stop + 11 ∧ ∀ fuel,
      going (fuel + 1) s t (ascii [101, 120, 112, 111, 114, 116, 32, 123, 120, 125, 59] ++ rest) (fun _ => o)
          { kind := .module } [] .semicolon true { stmtStart := true } last =
        going fuel s t' rest (fun _ => exporting o t.stop) { kind := .module } [] .semicolon true
          { stmtStart := true } last := by
  have hx : ([120], .identifier) ∈ lexicon := by decide
  have hexport : Lexer.IsWord [101, 120, 112, 111, 114, 116] := by decide
  -- the five tokens: two words, a pair of braces and a semicolon
  obtain ⟨t₁, ht₁⟩ : ∃ t₁, t₁ = wordToken t 0 [101, 120, 112, 111, 114, 116] := ⟨_, rfl⟩
  obtain ⟨t₂, ht₂⟩ : ∃ t₂, t₂ = markToken t₁ 1 123 .openBrace := ⟨_, rfl⟩
  obtain ⟨t₃, ht₃⟩ : ∃ t₃, t₃ = wordToken t₂ 0 [120] := ⟨_, rfl⟩
  obtain ⟨t₄, ht₄⟩ : ∃ t₄, t₄ = markToken t₃ 0 125 .closeBrace := ⟨_, rfl⟩
  obtain ⟨t₅, ht₅⟩ : ∃ t₅, t₅ = markToken t₄ 0 59 .semicolon := ⟨_, rfl⟩
  have hkind₁ : t₁.kind = .kwExport := by
    have hkind : Lexer.nameKind [101, 120, 112, 111, 114, 116] = .kwExport := by decide
    rw [ht₁]
    exact hkind
  have hkind₃ : t₃.kind = .identifier := ht₃ ▸ nameKind_of_mem hx
  have hpast₁ : Past t₁ := ⟨by rw [hkind₁]; decide, by simp [ht₁, wordToken]⟩
  have hpast₂ : Past t₂ := ht₂ ▸ past_mark rfl 1
  have hpast₃ : Past t₃ := ht₃ ▸ past_word hx 0
  have hpast₄ : Past t₄ := ht₄ ▸ past_mark rfl 0
  have hspace := break_of_mem (b := 32) (by decide)
  have hbrace := break_of_mem (b := 125) (by decide)
  have hnext₀ := Lexer.next_word (s := s) ht.kind ht.stop 0 hexport (g := asciiGlyph 32) hspace.1 hspace.2
    (ascii [123, 120, 125, 59] ++ rest)
  have hnext₁ := Lexer.next_mark (s := s) hpast₁.kind hpast₁.stop 1 (b := 123) rfl (ascii [120, 125, 59] ++ rest)
  have hnext₂ := Lexer.next_word (s := s) hpast₂.kind hpast₂.stop 0 (isWord_of_mem hx) (g := asciiGlyph 125)
    hbrace.1 hbrace.2 (ascii [59] ++ rest)
  have hnext₃ := Lexer.next_mark (s := s) hpast₃.kind hpast₃.stop 0 (b := 125) rfl (ascii [59] ++ rest)
  have hnext₄ := Lexer.next_mark (s := s) hpast₄.kind hpast₄.stop 0 (b := 59) rfl rest
  rw [← ht₁] at hnext₀
  rw [← ht₂] at hnext₁
  rw [← ht₃] at hnext₂
  rw [← ht₄] at hnext₃
  rw [← ht₅] at hnext₄
  have hstep := fun top last => @stepKind_export o top last true _ _ _ _ _ hkind₁ hnext₁ (by rw [ht₂]; rfl)
    hnext₂ hkind₃ hnext₃ (by rw [ht₄]; rfl) hnext₄ (by rw [ht₅]; rfl)
  have hstop : t₅.stop = t.stop + 11 := by simp [ht₁, ht₂, ht₃, ht₄, ht₅, markToken, wordToken]
  have hexporting : { named o t₃.name with
      statements := o.statements ++ [.exportClause (.between t₁.start t₅.stop)
        [⟨t₃.name, t₃.name, t₃.start, t₃.start⟩]] } = exporting o t.stop := by
    have hname : t₃.name = [120] := by rw [ht₃]; rfl
    have hstart₁ : t₁.start = t.stop := by rw [ht₁]; rfl
    have hstart₃ : t₃.start = t.stop + 8 := by simp [ht₁, ht₂, ht₃, markToken, wordToken]
    rw [hname, hstop, hstart₁, hstart₃, exporting]
  refine ⟨t₅, ht₅ ▸ past_mark rfl 0, hstop, fun fuel => ?_⟩
  unfold going
  rw [show (after s t (ascii [101, 120, 112, 111, 114, 116, 32, 123, 120, 125, 59] ++ rest)).next =
      .ok (after s t₁ (ascii [32, 123, 120, 125, 59] ++ rest)) from hnext₀, ok_bind, run_succ fuel (by
      change t₁.kind ≠ _ ∧ t₁.kind ≠ _ ∧ t₁.kind ≠ _
      rw [hkind₁]
      decide) (by decide), step_state rfl ⟨by decide, by decide⟩ (.inl rfl) (.inr rfl) ⟨by decide, by decide⟩ rfl]
  rw [← hexporting]
  exact (congrArg (· >>= run fuel) (hstep _ _)).trans (bind_assoc _ _ _)

end ModuleSystem.Scanner

namespace ModuleSystem.Loops

open Scanner
open Lexer (after wordToken markToken ascii asciiGlyph)

variable {s : Source} {o : Outline}

/-! ### Programs -/

/-- A declaration of `x`, and an export clause for it. -/
def preface (declarator : Text) : Text := declarator ++ " x;export \x7bx\x7d;"

namespace Head

/-- A head is written in ASCII. -/
theorem text_ascii (h : Head) : ∀ b ∈ h.text, b.toNat < 128 := by
  cases h with
  | test c => cases c <;> decide
  | _ => decide

end Head

namespace Tree

mutual

theorem text_ascii (t : Tree) : ∀ b ∈ t.text, b.toNat < 128 := by
  match t with
  | .call => exact Head.call.text_ascii
  | .notice => exact Head.notice.text_ascii
  | .block ts =>
    simp only [text, List.forall_mem_append]
    exact ⟨Head.brace.text_ascii, textAll_ascii ts, by decide⟩
  | .ifThen c s =>
    simp only [text, List.forall_mem_append]
    exact ⟨(Head.test c).text_ascii, text_ascii s⟩
  | .ifElse c s e =>
    simp only [text, List.forall_mem_append]
    exact ⟨(Head.test c).text_ascii, text_ascii s, by decide, text_ascii e⟩
  | .forOf s =>
    simp only [text, List.forall_mem_append]
    exact ⟨Head.loop.text_ascii, text_ascii s⟩

/-- Programs are written in ASCII. -/
theorem textAll_ascii (ts : List Tree) : ∀ b ∈ textAll ts, b.toNat < 128 := by
  match ts with
  | [] => simp [textAll]
  | t :: ts =>
    simp only [textAll, List.forall_mem_append]
    exact ⟨text_ascii t, textAll_ascii ts⟩

end

end Tree

/-- The outline after a declaration of `x` and an export clause for it. -/
def prefaced (names : List Text) : Outline := exporting (named { usedNames := names } [120]) 6

/-- At the end of the source the scanner is done. -/
theorem resume_end (p : Spot) (ho : p.outline = fun _ => o) (hrest : p.rest = []) (fuel : Nat) :
    p.resume s (fuel + 1) = .ok (state (after s (Lexer.endToken p.token 0) []) o p.top p.below p.prev true
      { stmtStart := true } p.last) := by
  have hend := Lexer.next_end (s := s) p.past.kind p.past.stop 0
  unfold Spot.resume Scanner.resume going
  rw [hrest, ho, show (after s p.token []).next = _ from hend, ok_bind]
  rfl

/-- The place after the preface. -/
theorem start_program {w : Text} (hw : w ∈ declarators) (rest : Text) (hrest : ∀ b ∈ rest, b.toNat < 128)
    (s : Source) (hs : s.contents = preface w ++ rest) :
    ∃ (names : List Text) (lx : Lexer) (p : Spot), (∀ n ∈ names, n ∈ declarators) ∧
      Lexer.start s .script = .ok lx ∧ lx.token.kind ≠ .hashbang ∧ p.token.stop = 17 ∧
      p.rest = ascii rest ∧ p.below = [] ∧ (p.outline = fun _ => prefaced names) ∧
      ∀ fuel, run (fuel + 4) { lexer := lx } = p.resume s fuel := by
  obtain ⟨hword, hlength⟩ := isWord_of_declarator hw
  -- the source is in ASCII, so its characters are its bytes
  have hglyphs : Utf8.glyphs s.contents = ascii w ++ asciiGlyph 32 ::
      (ascii [120, 59] ++ (ascii [101, 120, 112, 111, 114, 116, 32, 123, 120, 125, 59] ++ ascii rest)) := by
    have hpreface : ∀ b ∈ (" x;export \x7bx\x7d;" : Text), b.toNat < 128 := by decide
    rw [Lexer.glyphs_ascii, hs]
    · simp only [preface, Lexer.ascii_append, List.append_assoc]
      rfl
    · rw [hs, preface]
      simp only [List.forall_mem_append]
      exact ⟨⟨hword.ascii, hpreface⟩, hrest⟩
  have hspace := break_of_mem (b := 32) (by decide)
  have hkinds : ∀ w ∈ declarators, Lexer.nameKind w ≠ .invalid ∧ Lexer.nameKind w ≠ .hashbang := by
    decide
  have hpast : Past (Lexer.firstToken w) :=
    ⟨(hkinds w hw).1, by show w.length ≠ 0; omega⟩
  have hx : ([120], .identifier) ∈ lexicon := by decide
  have hsemicolon := break_of_mem (b := 59) (by decide)
  have hnext := Lexer.next_word (s := s) hpast.kind hpast.stop 1 (isWord_of_mem hx) (g := asciiGlyph 59)
    hsemicolon.1 hsemicolon.2 (ascii [101, 120, 112, 111, 114, 116, 32, 123, 120, 125, 59] ++ ascii rest)
  obtain ⟨names, prev, hnames, hprev, hrun⟩ := @run_declarator w hw (after s (Lexer.firstToken w) _) _ rfl
    hnext (nameKind_of_mem hx) rfl
  obtain ⟨t, ht, hstop, hexport⟩ := @going_export s _ (named { usedNames := names } [120]) (ascii rest)
    { kind := .module } (past_mark (t := wordToken (Lexer.firstToken w) 1 [120]) (b := 59) rfl 0)
  have hstart : (markToken (wordToken (Lexer.firstToken w) 1 [120]) 0 59 .semicolon).stop = 6 := by
    simp [markToken, wordToken, Lexer.firstToken, hlength]
  rw [hstart] at hstop hexport
  refine ⟨names, _, ⟨t, ascii rest, fun _ => prefaced names, { kind := .module }, [], .semicolon,
    { kind := .module }, ht, ⟨.inl rfl, rfl, rfl, rfl, rfl, rfl⟩, ⟨by decide, by decide, by simp⟩⟩, hnames,
    Lexer.start_word hword hspace.1 hspace.2 hglyphs, (hkinds w hw).2, hstop, rfl, rfl, rfl, fun fuel => ?_⟩
  have hdeclared := @going_declared s _ { usedNames := names }
    (ascii [101, 120, 112, 111, 114, 116, 32, 123, 120, 125, 59] ++ ascii rest) { kind := .module } prev hpast
    hprev (fuel + 1)
  refine (hrun (fuel + 2)).trans (Eq.trans ?_ (hdeclared.trans (hexport fuel)))
  exact (congrArg (· >>= fun lx => run (fuel + 3) (state lx { usedNames := names } (declaring true) [] prev true
    {} { kind := .module })) hnext).symm

/-- **The outline of a program of loops** has the export clause and the loops. -/
theorem scan_program {w : Text} (hw : w ∈ declarators) (ts : List Tree) (hts : Tree.plainAll ts = true)
    (s : Source) (hs : s.contents = preface w ++ Tree.textAll ts) :
    ∃ names o, (∀ n ∈ names, n ∈ declarators) ∧ Outline.scan s = .ok o ∧
      Noted (prefaced names) (Tree.loopsAll 17 ts) o := by
  obtain ⟨names, lx, p, hnames, hstart, hkind, hstop, hrest, hbelow, ho, hrun⟩ :=
    start_program hw (Tree.textAll ts) (Tree.textAll_ascii ts) s hs
  obtain ⟨q, o, hq, hoq, hnoted⟩ := passed_trees (s := s) ts hts p ho [] (by rw [hrest, List.append_nil])
  rw [hstop] at hnoted
  refine ⟨names, o, hnames, ?_, hnoted⟩
  obtain ⟨m, hm, hruns⟩ := hq.runs
  have hlength : s.contents.length + 2 = 17 + (Tree.textAll ts).length + 2 := by
    have hpreface : (Text.ofString " x;export \x7bx\x7d;").length = 14 := by decide
    rw [hs, preface, List.length_append, List.length_append, hpreface, (isWord_of_declarator hw).2]
  have hfuel : s.contents.length + 2 = (Tree.textAll ts).length + 14 - m + 1 + m + 4 := by omega
  have hend : run (s.contents.length + 2) { lexer := lx } =
      .ok (state (after s (Lexer.endToken q.token 0) []) o q.top [] q.prev true { stmtStart := true } q.last) := by
    rw [hfuel, hrun, hruns, resume_end q hoq hq.rest, hq.below, hbelow]
  unfold Outline.scan
  rw [hstart, ok_bind, if_neg hkind]
  change (run (s.contents.length + 2) { lexer := lx } >>= _) = _
  rw [hend]
  rfl

end ModuleSystem.Loops

import ModuleSystem.Proofs.Lexer.Brackets
import ModuleSystem.Proofs.Outline.Steps

/-!
# The scanner — what reading a statement leaves alone

An import or export statement that is read in full has all its brackets in pairs, and says nothing about
the brackets around it or about assignments.

* `Scanner.Retains p q`: the frames, the writes and their ends are the same in `q` as in `p`.
* `Scanner.Skips p q`: besides, the scanner has moved on over tokens in which all brackets pair up.
* `Scanner.Advances p q`: the first of these tokens is the current one, and no bracket.
* `readImport_reads`, `readExport_reads`: the statements.
-/

namespace ModuleSystem

/-- The statement at an index declares what it exports. -/
def Outline.Declares (o : Outline) (i : Nat) : Prop :=
  ∃ keyword names, o.statements[i]? = some (.exportDeclaration keyword names)

/-- The index of a statement that is there is in range. -/
theorem Outline.Declares.lt {o : Outline} {i : Nat} (h : o.Declares i) : i < o.statements.length := by
  obtain ⟨keyword, names, h⟩ := h
  exact (List.getElem?_eq_some_iff.1 h).1

namespace Scanner

variable {p p' q r : Scanner}

/-! ### What stays -/

/-- The frames, the writes and their ends are the same, and what was noted for the next token. Only an exported
declaration may start in the innermost frame. -/
structure Retains (p q : Scanner) : Prop where
  kind : q.top.kind = p.top.kind
  start : q.top.start = p.top.start
  declFrame : q.top.declFrame = p.top.declFrame
  export? : ∀ i ∈ q.top.decl.export?, i ∈ p.top.decl.export? ∨ q.outline.Declares i
  below : q.below = p.below
  closes : q.closes = p.closes
  writes : q.outline.writes = p.outline.writes
  declares : ∀ i, p.outline.Declares i → q.outline.Declares i
  lastClosed : q.lastClosed = p.lastClosed
  ref : q.left.ref = p.left.ref
  update : q.left.update = p.left.update
  pending : q.pendingUpdate = p.pendingUpdate

theorem Retains.refl (p : Scanner) : Retains p p :=
  ⟨rfl, rfl, rfl, fun _ => .inl, rfl, rfl, rfl, fun _ => id, rfl, rfl, rfl, rfl⟩

/-- What stays over two moves stays over both together. -/
theorem Retains.trans (h : Retains p q) (h' : Retains q r) : Retains p r where
  kind := h'.kind.trans h.kind
  start := h'.start.trans h.start
  declFrame := h'.declFrame.trans h.declFrame
  export? i hi := (h'.export? i hi).elim (fun hi => (h.export? i hi).imp_right (h'.declares i)) .inr
  below := h'.below.trans h.below
  closes := h'.closes.trans h.closes
  writes := h'.writes.trans h.writes
  declares i hi := h'.declares i (h.declares i hi)
  lastClosed := h'.lastClosed.trans h.lastClosed
  ref := h'.ref.trans h.ref
  update := h'.update.trans h.update
  pending := h'.pending.trans h.pending

theorem Retains.depth (h : Retains p q) : q.depth = p.depth := by
  rw [Scanner.depth, h.below, Scanner.depth]

theorem retains_use (name : Text) : Retains p (p.use name) := { Retains.refl p with }

/-- Another statement changes nothing about the frames, also if a declaration starts in it. -/
theorem retains_addStatement (s : Statement) : Retains p (p.addStatement s) :=
  { Retains.refl p with
    export? := fun _ => .inl
    declares := fun _ ⟨keyword, names, hi⟩ => ⟨keyword, names, List.getElem?_append_left
      (List.getElem?_eq_some_iff.1 hi).1 ▸ hi⟩ }

theorem retains_expectBody (isClass : Bool) : Retains p (p.expectBody isClass) := { Retains.refl p with }

/-- Adding a name to an exported declaration leaves it one. -/
theorem retains_addBinding (declFrame : Nat) (b : Binding) : Retains p (p.addBinding declFrame b) := by
  unfold Scanner.addBinding
  split
  · exact .refl p
  · rename_i j _
    refine { Retains.refl p with export? := fun _ => .inl, declares := fun i ⟨keyword, names, hi⟩ => ?_ }
    by_cases hij : j = i
    · exact ⟨keyword, names ++ [b], by simp [hi, hij, Statement.declare]⟩
    · exact ⟨keyword, names, by simp [hi, hij]⟩

/-! ### What is settled -/

section Settled

variable {left : Leftover}

/-- A change of the innermost frame that is of no concern here: its kind and its start stay, and no declaration
starts in it. -/
theorem retains_withTop {f : Frame} (hkind : f.kind = p.top.kind) (hstart : f.start = p.top.start)
    (hdecl : f.declFrame = p.top.declFrame) (hexport : ∀ i ∈ f.decl.export?, i ∈ p.top.decl.export?) :
    Retains p { p with top := f } :=
  { Retains.refl p with kind := hkind, start := hstart, declFrame := hdecl, export? := fun i hi => .inl (hexport i hi) }

/-- What stays on both ways stays whichever is taken. -/
theorem retains_ite {c : Prop} [Decidable c] (hq : Retains p q) (hr : Retains p r) :
    Retains p (if c then q else r) := by
  split
  · exact hq
  · exact hr

/-- What a token leaves behind may change, but for the variable and the increment. -/
theorem retains_leave {f : Leftover → Leftover} (href : (f p.left).ref = p.left.ref)
    (hupdate : (f p.left).update = p.left.update) : Retains p (p.leave f) :=
  { Retains.refl p with ref := href, update := hupdate }

/-- A key without a value may be added to a declaration; the frames stay. -/
theorem retains_settleShorthand : Retains p p.settleShorthand := by
  have hnone : ∀ q : Scanner, Retains q { q with top := { q.top with shorthand := none } } := fun q =>
    retains_withTop rfl rfl rfl fun _ => id
  unfold Scanner.settleShorthand
  split
  · exact .refl p
  · refine .trans ?_ (hnone _)
    split
    · exact retains_addBinding _ _
    · exact retains_ite (retains_withTop rfl rfl rfl fun _ => id) (.refl p)

/-- The variables of a literal are collected in its frame, which stays. -/
theorem retains_collectTargets (left : Leftover) : Retains p (p.collectTargets left) := by
  unfold Scanner.collectTargets
  exact retains_ite (retains_withTop rfl rfl rfl fun _ => id) (.refl p)

/-- The variable at the start of a loop is noted in the frame of its head, which stays. -/
theorem retains_noteLoop (ref : Option Binding) : Retains p (p.noteLoop ref) := by
  unfold Scanner.noteLoop
  exact retains_ite (retains_withTop rfl rfl rfl fun _ => id) (.refl p)

theorem retains_startDeclaration : Retains p (p.startDeclaration none) :=
  retains_withTop rfl rfl rfl nofun

/-- Whether `let` starts a declaration or is a variable, the frames stay. -/
theorem retains_settleLet (left : Leftover) : Retains p (p.settleLet left).1 := by
  unfold Scanner.settleLet
  split
  · dsimp only
    split <;> exact Retains.trans (q := { p with pendingLet := false }) { Retains.refl p with }
      (by first | exact retains_startDeclaration | exact .refl _)
  · exact .refl p

end Settled

/-! ### Tokens that are skipped -/

/-- The scanner has moved on over tokens in which all brackets pair up. -/
structure Skips (p q : Scanner) : Prop extends Retains p q where
  goes : ∃ ts, p.lexer.Goes ts q.lexer ∧ Balanced ts

theorem Skips.refl (p : Scanner) : Skips p p := ⟨.refl p, [], .refl _, .nil⟩

/-- Tokens that are skipped, and then others, are tokens that are skipped. -/
theorem Skips.trans (h : Skips p q) (h' : Skips q r) : Skips p r := by
  obtain ⟨ts, hgoes, hts⟩ := h.goes
  obtain ⟨us, hgoes', hus⟩ := h'.goes
  exact ⟨h.toRetains.trans h'.toRetains, ts ++ us, hgoes.trans hgoes', hts.append hus⟩

theorem Retains.skips (h : Retains p q) (hlexer : q.lexer = p.lexer) : Skips p q :=
  ⟨h, [], hlexer ▸ .refl _, .nil⟩

/-- The scanner has moved on over the current token, which is no bracket, and over tokens in which all brackets pair
up. -/
def Advances (p q : Scanner) : Prop :=
  p.token.kind.isPlain = true ∧ ∃ lx, p.lexer.next = .ok lx ∧ Skips { p with lexer := lx } q

/-- To advance is to skip: a token that is no bracket is in balance by itself. -/
theorem Advances.skips (h : Advances p q) : Skips p q := by
  obtain ⟨hplain, lx, hlx, hskips⟩ := h
  refine .trans (q := { p with lexer := lx }) ⟨{ Retains.refl p with }, [p.token], ?_, .plain hplain⟩ hskips
  exact .one (Lexer.isLast_of_isPlain hplain) hlx

/-- A scanner that moved on may skip more tokens. -/
theorem Advances.then (h : Advances p q) (h' : Skips q r) : Advances p r := by
  obtain ⟨hplain, lx, hlx, hskips⟩ := h
  exact ⟨hplain, lx, hlx, hskips.trans h'⟩

/-- What happens before the first token is passed over may change what is of no concern here. -/
theorem Retains.advances (h : Retains p q) (hlexer : q.lexer = p.lexer) (h' : Advances q r) : Advances p r := by
  obtain ⟨hplain, lx, hlx, hskips⟩ := h'
  refine ⟨by rwa [Scanner.token, ← hlexer], lx, hlexer ▸ hlx, .trans (q := { q with lexer := lx }) ?_ hskips⟩
  exact Retains.skips { h with } rfl

/-- Moving on over a token that is no bracket advances. -/
theorem advance_advances (hplain : p.token.kind.isPlain = true) : Ensures p.advance (Advances p) := by
  intro p' hp'
  obtain ⟨lx, hlx, rfl⟩ := advance_ok hp'
  exact ⟨hplain, lx, hlx, .refl _⟩

/-- An expected token that is no bracket is passed over. -/
theorem expect_advances {k : TokenKind} (hplain : k.isPlain = true) : Ensures (p.expect k) (Advances p) := by
  intro p' hp'
  obtain ⟨hkind, moved⟩ := expect_ok hp'
  exact advance_advances (by rwa [hkind]) p' moved

/-- A word is an identifier. -/
theorem kind_of_isWord {t : Token} {word : Text} (h : t.isWord word = true) : t.kind = .identifier := by
  simp only [Token.isWord, Bool.and_eq_true, beq_iff_eq] at h
  exact h.1

/-- A word is no bracket. -/
theorem isPlain_of_isWord {t : Token} {word : Text} (h : t.isWord word = true) : t.kind.isPlain = true := by
  rw [kind_of_isWord h]
  rfl

/-- An expected word is passed over. -/
theorem expectWord_advances (word : Text) : Ensures (p.expectWord word) (Advances p) := by
  intro p' hp'
  obtain ⟨hword, moved⟩ := expectWord_ok hp'
  exact advance_advances (isPlain_of_isWord hword) p' moved

theorem isPlain_of_kind {k : TokenKind} (hkind : p.token.kind = k) (hplain : k.isPlain = true) :
    p.token.kind.isPlain = true := by
  rwa [hkind]

/-! ### Names and clauses -/

/-- Reading the name of a variable passes over it. -/
theorem readBinding_advances : Ensures p.readBinding fun r => Advances p r.2 := by
  intro r hr
  obtain ⟨hkind, -, moved⟩ := readBinding_ok r hr
  exact (retains_use _).advances rfl
    (advance_advances (p := p.use p.token.name) (isPlain_of_kind hkind rfl) r.2 moved)

/-- Reading the name of an export passes over it, be it an identifier or a string. -/
theorem readExportName_advances : Ensures p.readExportName fun r => Advances p r.2 := by
  intro r hr
  cases readExportName_ok r hr with
  | string hkind _ moved => exact advance_advances (isPlain_of_kind hkind rfl) _ moved
  | word hkind moved => exact advance_advances (TokenKind.isPlain_of_isName hkind) _ moved

/-- Reading an attribute passes over its key and goes on to its value. -/
theorem readAttribute_advances : Ensures p.readAttribute (Advances p) := by
  intro p' hp'
  obtain ⟨p₁, p₂, hkey, moved, colon, hvalue, moved'⟩ := readAttribute_ok p' hp'
  have hplain : p.token.kind.isPlain = true :=
    hkey.elim (isPlain_of_kind · rfl) TokenKind.isPlain_of_isName
  have h₂ := (advance_advances hplain p₁ moved).then (expect_advances rfl p₂ colon).skips
  exact h₂.then (advance_advances (isPlain_of_kind hvalue rfl) p' moved').skips

/-- Items that each advance are skipped with the commas between them. -/
theorem Items.skips {α : Type} {item : Scanner → Except Fault (α × Scanner)}
    (hitem : ∀ p : Scanner, Ensures (item p) fun r => Advances p r.2) {r : List α × Scanner}
    (h : Items item p r) : Skips p r.2 := by
  induction h with
  | nil p => exact .refl p
  | last read => exact (hitem _ _ read).skips
  | cons read comma moved _ ih =>
      exact ((hitem _ _ read).skips.trans (advance_advances (isPlain_of_kind comma rfl) _ moved).skips).trans ih

/-- The braces around items pair up, so a list in braces is skipped. -/
theorem readBraced_skips {α : Type} {item : Scanner → Except Fault (α × Scanner)}
    (hitem : ∀ p : Scanner, Ensures (item p) fun r => Advances p r.2) :
    Ensures (p.readBraced item) fun r => Skips p r.2 := by
  intro r hr
  obtain ⟨p₁, p₂, opened, items, closed⟩ := readBraced_ok r hr
  obtain ⟨hopen, moved⟩ := expect_ok opened
  obtain ⟨hclose, moved'⟩ := expect_ok closed
  obtain ⟨lx, hlx, rfl⟩ := advance_ok moved
  obtain ⟨lx', hlx', hr₂⟩ := advance_ok moved'
  have h₂ := items.skips hitem
  obtain ⟨ts, hgoes, hts⟩ := h₂.goes
  have hfirst : p.lexer.Goes [p.token] lx := .one (Lexer.isLast_of_kind hopen rfl) hlx
  have hlast : p₂.lexer.Goes [p₂.token] lx' := .one (Lexer.isLast_of_kind hclose rfl) hlx'
  rw [hr₂]
  refine ⟨.trans (q := p₂) { h₂.toRetains with } { Retains.refl p₂ with }, p.token :: (ts ++ [p₂.token]), ?_, ?_⟩
  · exact hfirst.trans (hgoes.trans hlast)
  · exact hts.enclosed (b := .brace) (by rw [hopen]; rfl) (by rw [hopen]; rfl) (by rw [hclose]; rfl)
      (by rw [hclose]; rfl)

/-- The attributes of an import are skipped with the word before them. -/
theorem readAttributes_skips (hplain : p.token.kind.isPlain = true) :
    Ensures p.readAttributes fun r => Skips p r.2 := by
  unfold Scanner.readAttributes
  refine (advance_advances hplain).bind fun p₁ h₁ => ?_
  refine (readBraced_skips fun q => ?_).bind fun r hr => .ok (h₁.skips.trans hr)
  exact readAttribute_advances.bind fun q' hq' => .ok hq'

/-- A specifier is skipped with its attributes. -/
theorem Specifies.skips {r : Bool × Scanner} (hplain : p.token.kind.isPlain = true) (h : Specifies p r) :
    Skips p r.2 := by
  cases h with
  | bare moved => exact (advance_advances hplain _ moved).skips
  | withAttributes moved word attributes =>
      exact (advance_advances hplain _ moved).skips.trans
        (readAttributes_skips (word.elim (isPlain_of_kind · rfl) isPlain_of_isWord) r attributes)

/-- Reading a specifier skips it, and its attributes if it has any. -/
theorem readSpecifier_skips : Ensures p.readSpecifier fun r => Skips p r.2 := by
  intro r hr
  obtain ⟨hkind, json, p₁, hspecifies, rfl⟩ := readSpecifier_ok r hr
  exact (hspecifies.skips (isPlain_of_kind hkind rfl)).trans (Retains.skips { Retains.refl p₁ with } rfl)

/-! ### Statements that are read in full -/

/-- A step over a whole statement, or over the keywords of a declaration. No bracket was closed last. -/
structure Reads (p q : Scanner) : Prop extends Skips p q where
  prev : q.prev ≠ .closeBracket ∧ q.prev ≠ .closeBrace

theorem Skips.reads (h : Skips p q) (h' : Reads q r) : Reads p r := ⟨h.trans h'.toSkips, h'.prev⟩

/-- The end of a statement is read with its semicolon, if it has one. -/
theorem finishStatement_reads {start : Nat} {s : Range → Statement} :
    Ensures (p.finishStatement start s) (Reads p) := by
  intro q hq
  obtain ⟨p₁, hp₁, rfl⟩ := finishStatement_ok q hq
  have h₁ : Skips p p₁ := by
    obtain rfl | ⟨hkind, moved⟩ := hp₁
    · exact .refl p₁
    · exact (advance_advances (isPlain_of_kind hkind rfl) p₁ moved).skips
  exact ⟨h₁.trans (Retains.skips { retains_addStatement (p := p₁) _ with } rfl), by simp⟩

/-- The name of a namespace is skipped with its asterisk. -/
theorem readStar_skips : Ensures p.readStar fun r => Skips p r.2 := by
  intro r hr
  obtain ⟨p₁, p₂, star, word, binding⟩ := readStar_ok r hr
  exact ((expect_advances rfl p₁ star).skips.trans (expectWord_advances _ p₂ word).skips).trans
    (readBinding_advances r binding).skips

/-- An item of an import clause starts with a name, which is passed over. -/
theorem readImportItem_advances : Ensures p.readImportItem fun r => Advances p r.2 := by
  intro r hr
  cases readImportItem_ok r hr with
  | renamed name word moved binding =>
      exact ((readExportName_advances _ name).then (advance_advances (isPlain_of_isWord word) _ moved).skips).then
        (readBinding_advances _ binding).skips
  | plain name => exact (readExportName_advances _ name).then ((retains_use _).skips rfl)

/-- The head of an import is skipped, with the comma behind it. -/
theorem ImportHead.skips {d : Option Binding} (h : ImportHead p d q) : Skips p q := by
  cases h with
  | none => exact .refl p
  | some binding comma moved =>
      exact (readBinding_advances _ binding).skips.trans (advance_advances (isPlain_of_kind comma rfl) _ moved).skips

/-- All names of an import are skipped. -/
theorem ImportNames.skips {d star : Option Binding} {items : List ClauseItem} (h : ImportNames p d star items q) :
    Skips p q := by
  cases h with
  | bare => exact .refl p
  | byDefault binding word =>
      exact (readBinding_advances _ binding).skips.trans (expectWord_advances _ _ word).skips
  | star head star word =>
      exact (head.skips.trans (readStar_skips _ star)).trans (expectWord_advances _ _ word).skips
  | braced head braced word =>
      exact (head.skips.trans (readBraced_skips (fun _ => readImportItem_advances) _ braced)).trans
        (expectWord_advances _ _ word).skips

/-- An import statement leaves the frames, the writes and their ends alone. -/
theorem readImport_reads (start : Nat) : Ensures (p.readImport start) (Reads p) := by
  intro q hq
  obtain ⟨d, star, items, p₁, record, p₂, names, specifier, done⟩ := readImport_ok start q hq
  exact (names.skips.trans (readSpecifier_skips _ specifier)).reads (finishStatement_reads q done)

theorem skips_useIf (c : Bool) (name : Text) : Skips p (if c then p.use name else p) := by
  split
  · exact (retains_use _).skips rfl
  · exact .refl p

/-- An item of an export clause starts with a name, which is passed over. -/
theorem readExportItem_advances : Ensures p.readExportItem fun r => Advances p r.2 := by
  intro r hr
  cases readExportItem_ok r hr with
  | @renamed n p₁ p₂ a q name word moved other =>
      have hword : (if n.isIdentifier then p₁.use n.name else p₁).token.isWord "as" = true := by
        split <;> exact word
      have h₂ := advance_advances (isPlain_of_isWord hword) p₂ moved
      exact (((readExportName_advances _ name).then (skips_useIf _ _)).then h₂.skips).then
        (readExportName_advances _ other).skips
  | plain name => exact (readExportName_advances _ name).then (skips_useIf _ _)

/-- The keyword of a function or class is skipped, and the asterisk of a generator. -/
theorem skipKeyword_skips (hplain : p.token.kind.isPlain = true) : Ensures p.skipKeyword fun r => Skips p r.2 := by
  intro r hr
  obtain ⟨-, p₁, moved, hstar⟩ := skipKeyword_ok r hr
  have h₁ := (advance_advances hplain p₁ moved).skips
  obtain hstar | ⟨hstar, moved'⟩ := hstar
  · exact hstar ▸ h₁
  · exact h₁.trans (advance_advances (isPlain_of_kind hstar rfl) r.2 moved').skips

theorem expectBody_reads (isClass : Bool) : Reads p (p.expectBody isClass) :=
  ⟨(retains_expectBody isClass).skips rfl, by simp [Scanner.expectBody]⟩

/-- A declaration is exported, of which the body follows. -/
theorem declaration_reads (st : Statement) (isClass : Bool) : Reads p ((p.addStatement st).expectBody isClass) :=
  ((retains_addStatement st).skips rfl).reads (expectBody_reads isClass)

/-- An exported function or class is read up to its name. -/
theorem readExportedBody_reads (hplain : p.token.kind.isPlain = true) (keyword : Range) :
    Ensures (p.readExportedBody keyword) (Reads p) := by
  intro q hq
  obtain ⟨isClass, p₁, b, p₂, skipped, binding, rfl⟩ := readExportedBody_ok keyword q hq
  exact ((skipKeyword_skips hplain _ skipped).trans (readBinding_advances _ binding).skips).reads
    (declaration_reads _ _)

/-- The declaration belongs to the statement that is added for it. -/
theorem readExportedVariables_reads (hplain : p.token.kind.isPlain = true) (keyword : Range) :
    Ensures (p.readExportedVariables keyword) (Reads p) := by
  unfold Scanner.readExportedVariables
  extract_lets index
  intro p' hp'
  obtain ⟨lx, hlx, rfl⟩ := next_ok hp'
  refine ⟨⟨?_, [p.token], .one (Lexer.isLast_of_isPlain hplain) hlx, .plain hplain⟩, ?_⟩
  · refine { retains_addStatement (p := p) (.exportDeclaration keyword []) with export? := ?_ }
    rintro i ⟨⟩
    exact .inr ⟨keyword, [], by simp [Scanner.startDeclaration, Scanner.addStatement, index]⟩
  · change p.token.kind ≠ _ ∧ p.token.kind ≠ _
    constructor <;> intro hkind <;> rw [hkind] at hplain <;> cases hplain

/-- A default export is read up to the value that it exports. -/
theorem DefaultExport.reads {keyword : Range} (h : DefaultExport keyword p q) : Reads p q := by
  have hplain : p.token.kind = .kwFunction ∨ p.token.kind = .kwClass → p.token.kind.isPlain = true :=
    fun hkind => hkind.elim (isPlain_of_kind · rfl) (isPlain_of_kind · rfl)
  cases h with
  | expression prev _ hprev =>
      refine ⟨Retains.skips { retains_addStatement (p := p) _ with } rfl, ?_⟩
      obtain rfl | rfl := hprev <;> simp
  | named _ hkind skipped binding =>
      exact ((skipKeyword_skips (hplain hkind) _ skipped).trans (readBinding_advances _ binding).skips).reads
        (declaration_reads _ _)
  | unnamed _ hkind skipped => exact (skipKeyword_skips (hplain hkind) _ skipped).reads (declaration_reads _ _)

/-- So reading it leaves the frames, the writes and their ends alone. -/
theorem readExportDefault_reads (hplain : p.token.kind.isPlain = true) (keyword : Range) :
    Ensures (p.readExportDefault keyword) (Reads p) := by
  intro q hq
  obtain ⟨p₁, p₂, moved, hasync, he⟩ := readExportDefault_ok keyword q hq
  have h₁ := (advance_advances hplain p₁ moved).skips
  obtain rfl | ⟨hword, moved'⟩ := hasync
  · exact h₁.reads he.reads
  · have h₂ := advance_advances (p := p₁.use (Text.ofString "async")) (isPlain_of_isWord hword) p₂ moved'
    exact (h₁.trans ((retains_use _).advances rfl h₂).skips).reads he.reads

/-- Each kind of export leaves the frames, the writes and their ends alone. -/
theorem Export.reads {keyword : Range} (h : Export keyword p q) : Reads p q := by
  cases h with
  | star hkind moved word specifier done =>
      exact (((advance_advances (isPlain_of_kind hkind rfl) _ moved).skips.trans
        (expectWord_advances _ _ word).skips).trans (readSpecifier_skips _ specifier)).reads
        (finishStatement_reads q done)
  | starAs hkind moved as moved₂ name word specifier done =>
      have h₂ := (advance_advances (isPlain_of_kind hkind rfl) _ moved).skips.trans
        (advance_advances (isPlain_of_isWord as) _ moved₂).skips
      have h₃ := (h₂.trans (readExportName_advances _ name).skips).trans (expectWord_advances _ _ word).skips
      exact (h₃.trans (readSpecifier_skips _ specifier)).reads (finishStatement_reads q done)
  | clauseFrom braced word moved specifier done =>
      have h₂ := (readBraced_skips (fun _ => readExportItem_advances) _ braced).trans
        (advance_advances (isPlain_of_isWord word) _ moved).skips
      exact (h₂.trans (readSpecifier_skips _ specifier)).reads (finishStatement_reads q done)
  | clause braced _ done =>
      exact (readBraced_skips (fun _ => readExportItem_advances) _ braced).reads (finishStatement_reads q done)
  | byDefault hkind read => exact readExportDefault_reads (isPlain_of_kind hkind rfl) keyword q read
  | declaration hkind read =>
      refine readExportedVariables_reads ?_ keyword q read
      obtain hkind | hkind | hkind := hkind <;> exact isPlain_of_kind hkind rfl
  | body hkind read =>
      exact readExportedBody_reads (hkind.elim (isPlain_of_kind · rfl) (isPlain_of_kind · rfl)) keyword q read
  | async hkind moved function read =>
      exact (advance_advances (isPlain_of_kind hkind rfl) _ moved).skips.reads
        (readExportedBody_reads (isPlain_of_kind function rfl) keyword q read)

/-- An export statement leaves the frames, the writes and their ends alone. -/
theorem readExport_reads (hkind : p.token.kind = .kwExport) : Ensures p.readExport (Reads p) := by
  intro q hq
  obtain ⟨p₁, moved, he⟩ := readExport_ok q hq
  exact (advance_advances (isPlain_of_kind hkind rfl) p₁ moved).skips.reads he.reads

end Scanner

end ModuleSystem

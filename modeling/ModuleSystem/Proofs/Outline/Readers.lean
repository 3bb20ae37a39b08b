import ModuleSystem.Outline.Scan
import ModuleSystem.Proofs.Lexer.Place

/-!
# The scanner — how a statement is read

A reader that succeeds has made a row of moves, each of which succeeded.  The moves are said here once for
every reader of import and export statements; what such a statement keeps is then read off them.

* `Items`: items that are separated by commas.
* `ImportItem`, `ImportNames`: what an import statement names.
* `ExportItem`, `DefaultExport`, `Export`: what an export statement says after its keyword.
* `readImport_ok`, `readExport_ok`: the statements.
-/

namespace ModuleSystem.Scanner

variable {p p' : Scanner}

/-! ### Tokens -/

/-- Moving on changes the lexer only. -/
theorem advance_ok (h : p.advance = .ok p') :
    ∃ lx, p.lexer.next = .ok lx ∧ p' = { p with lexer := lx } := by
  unfold advance at h
  cases hlx : p.lexer.next with
  | error e => rw [hlx] at h; cases h
  | ok lx => rw [hlx] at h; cases h; exact ⟨lx, rfl, rfl⟩

/-- A token that is done with leaves its kind behind. -/
theorem next_ok {exprAllowed : Bool} (h : p.next exprAllowed = .ok p') :
    ∃ lx, p.lexer.next = .ok lx ∧
      p' = { p with prev := p.token.kind, exprAllowed, lexer := lx } :=
  advance_ok h

/-- After moving on, the token before is the one that was passed over. -/
theorem prevStop_of_advance (h : p.advance = .ok p') : p'.token.prevStop = p.token.stop := by
  obtain ⟨lx, hlx, rfl⟩ := advance_ok h
  exact Lexer.prevStop_of_next hlx

/-- So it is when the scanner is done with a token. -/
theorem prevStop_of_next {exprAllowed : Bool} (h : p.next exprAllowed = .ok p') :
    p'.token.prevStop = p.token.stop := by
  obtain ⟨lx, hlx, rfl⟩ := next_ok h
  exact Lexer.prevStop_of_next hlx

/-- An expected token stands there and is passed over. -/
theorem expect_ok {k : TokenKind} (h : p.expect k = .ok p') : p.token.kind = k ∧ p.advance = .ok p' := by
  unfold Scanner.expect Lexer.expect at h
  split at h
  · exact ⟨‹_›, h⟩
  · cases h

/-- An expected word stands there and is passed over. -/
theorem expectWord_ok {word : Text} (h : p.expectWord word = .ok p') :
    p.token.isWord word = true ∧ p.advance = .ok p' := by
  unfold Scanner.expectWord Lexer.expectWord at h
  split at h
  · exact ⟨‹_›, h⟩
  · cases h

/-! ### Names and clauses -/

/-- A variable is read as an identifier that is used. -/
theorem readBinding_ok : Ensures p.readBinding fun r => p.token.kind = .identifier ∧
    r.1 = ⟨p.token.name, p.token.start⟩ ∧ (p.use p.token.name).advance = .ok r.2 := by
  unfold Scanner.readBinding
  extract_lets t rest₁ rest₂
  refine .forbid fun hkind => ?_
  dsimp -zeta only [rest₂]
  exact .forbid fun _ => .bind_ok fun p₁ moved => .ok ⟨not_not.1 hkind, rfl, moved⟩

/-- The name of an export is a string or a word. -/
inductive Names (p : Scanner) : ExportName × Scanner → Prop
  | string {name q} (kind : p.token.kind = .string) (valid : Utf16.toText? p.token.units = .ok name)
      (moved : p.advance = .ok q) : Names p (⟨name, p.token.range, false⟩, q)
  | word {q} (kind : p.token.kind.isName = true) (moved : p.advance = .ok q) :
      Names p (⟨p.token.name, p.token.range, p.token.kind = .identifier⟩, q)

/-- The name of an export is read as an identifier, a keyword or a string. -/
theorem readExportName_ok : Ensures p.readExportName (Names p) := by
  unfold Scanner.readExportName
  extract_lets t
  split
  · split
    · exact .error
    · exact .bind_ok fun p₁ moved => .ok (.string ‹_› ‹_› moved)
  · split
    · exact .bind_ok fun p₁ moved => .ok (.word ‹_› moved)
    · exact .error

/-- An attribute is read as a key, a colon and a string. -/
theorem readAttribute_ok : Ensures p.readAttribute fun q => ∃ p₁ p₂,
    (p.token.kind = .string ∨ p.token.kind.isName = true) ∧ p.advance = .ok p₁ ∧ p₁.expect .colon = .ok p₂ ∧
      p₂.token.kind = .string ∧ p₂.advance = .ok q := by
  unfold Scanner.readAttribute
  extract_lets t rest
  have hrest : (p.token.kind = .string ∨ p.token.kind.isName = true) → ∀ key, Ensures (rest key) fun q =>
      ∃ p₁ p₂, (p.token.kind = .string ∨ p.token.kind.isName = true) ∧ p.advance = .ok p₁ ∧
        p₁.expect .colon = .ok p₂ ∧ p₂.token.kind = .string ∧ p₂.advance = .ok q := by
    intro hkind key
    refine .bind_ok fun p₁ h₁ => .bind_ok fun p₂ h₂ => ?_
    extract_lets v value last rest₂ rest₁
    refine .forbid fun hvalue => ?_
    dsimp -zeta only [rest₁]
    refine .forbid fun _ => ?_
    dsimp -zeta only [rest₂]
    exact .forbid fun _ => fun q moved => ⟨p₁, p₂, hkind, h₁, h₂, not_not.1 hvalue, moved⟩
  split
  · exact .pure_bind (hrest (.inl ‹_›) _)
  · split
    · exact .pure_bind (hrest (.inr ‹_›) _)
    · exact .throw_bind

/-- Items that are separated by commas, up to a closing brace or an item without a comma. -/
inductive Items {α : Type} (item : Scanner → Except Fault (α × Scanner)) : Scanner → List α × Scanner → Prop
  | nil (p : Scanner) : Items item p ([], p)
  | last {p q : Scanner} {a} (read : item p = .ok (a, q)) : Items item p ([a], q)
  | cons {p q q' r : Scanner} {a as} (read : item p = .ok (a, q)) (comma : q.token.kind = .comma)
      (moved : q.advance = .ok q') (rest : Items item q' (as, r)) : Items item p (a :: as, r)

section
variable {α : Type} {item : Scanner → Except Fault (α × Scanner)}

/-- Items that are read are read one after the other, with commas between them. -/
theorem readItems_ok (fuel : Nat) : Ensures (readItems item fuel p) (Items item p) := by
  induction fuel generalizing p with
  | zero => exact .error
  | succ fuel ih =>
      rw [Scanner.readItems]
      split
      · exact .ok (.nil p)
      · refine .bind_ok fun (a, p₁) read => ?_
        dsimp only
        split
        · exact .bind_ok fun p₂ moved => ih.bind fun (as, p₃) rest => .ok (.cons read ‹_› moved rest)
        · exact .ok (.last read)

/-- A list in braces is read as the items between them. -/
theorem readBraced_ok : Ensures (p.readBraced item) fun r => ∃ p₁ p₂,
    p.expect .openBrace = .ok p₁ ∧ Items item p₁ (r.1, p₂) ∧ p₂.expect .closeBrace = .ok r.2 := by
  unfold Scanner.readBraced
  exact .bind_ok fun p₁ opened => (readItems_ok _).bind fun (as, p₂) items => .bind_ok fun p₃ closed =>
    .ok ⟨p₁, p₂, opened, items, closed⟩

end

/-- A specifier with its attributes, and whether there are any. -/
inductive Specifies (p : Scanner) : Bool × Scanner → Prop
  | bare {q} (moved : p.advance = .ok q) : Specifies p (false, q)
  | withAttributes {p₁ r} (moved : p.advance = .ok p₁)
      (word : p₁.token.kind = .kwWith ∨ p₁.token.isWord "assert" = true)
      (attributes : p₁.readAttributes = .ok r) : Specifies p r

/-- The record of a specifier is found or filed after its attributes were read. -/
theorem readSpecifier_ok : Ensures p.readSpecifier fun r => p.token.kind = .string ∧ ∃ json p₁,
    Specifies p (json, p₁) ∧
      let (i, records) := addRecord p₁.outline.records (Utf16.toText p.token.units) p.token.range json
      r = (i, { p₁ with outline := { p₁.outline with records } }) := by
  unfold Scanner.readSpecifier
  extract_lets t record rest
  refine .forbid fun hkind => .bind_ok fun p₁ moved => ?_
  extract_lets n
  split
  · rename_i hword
    refine .bind_ok fun (json, p₂) attributes => .ok
      ⟨not_not.1 hkind, json, p₂, .withAttributes moved ?_ attributes, rfl⟩
    simp only [Bool.or_eq_true, Bool.and_eq_true, decide_eq_true_eq] at hword
    exact hword.imp_right And.left
  · exact .pure_bind (.ok ⟨not_not.1 hkind, false, p₁, .bare moved, rfl⟩)

/-! ### Import statements -/

/-- The end of a statement that started at an offset: its semicolon, or the token before the current one. -/
theorem finishStatement_ok {start : Nat} {s : Range → Statement} : Ensures (p.finishStatement start s) fun q =>
    ∃ p₁, (p₁ = p ∨ p.token.kind = .semicolon ∧ p.advance = .ok p₁) ∧
      q = { p₁.addStatement (s (.between start p₁.token.prevStop)) with
        prev := .semicolon
        exprAllowed := true
        left := { p₁.left with stmtStart := true } } := by
  unfold Scanner.finishStatement
  extract_lets rest
  split
  · rename_i hkind
    refine .bind_ok fun p₁ moved => .pure_bind (.ok ⟨p₁, .inr ⟨hkind, moved⟩, ?_⟩)
    rw [prevStop_of_advance moved]
  · rename_i hsemicolon
    unfold Lexer.expectSemicolon Lexer.expect
    extract_lets k
    split
    · rw [if_neg (show p.lexer.token.kind ≠ .semicolon from hsemicolon)]
      exact .error
    · exact .pure_bind (.ok ⟨p, .inl rfl, rfl⟩)

/-- A namespace is read as an asterisk, a word and a variable. -/
theorem readStar_ok : Ensures p.readStar fun r => ∃ p₁ p₂, p.expect .asterisk = .ok p₁ ∧
    p₁.expectWord "as" = .ok p₂ ∧ p₂.readBinding = .ok r := by
  unfold Scanner.readStar
  exact .bind_ok fun p₁ h₁ => .bind_ok fun p₂ h₂ => fun r hr => ⟨p₁, p₂, h₁, h₂, hr⟩

/-- One item of an import clause, with a name of its own for the variable or not. -/
inductive ImportItem (p : Scanner) : ClauseItem × Scanner → Prop
  | renamed {n p₁ p₂ b q} (name : p.readExportName = .ok (n, p₁)) (word : p₁.token.isWord "as" = true)
      (moved : p₁.advance = .ok p₂) (binding : p₂.readBinding = .ok (b, q)) :
      ImportItem p (⟨n.name, b.name, n.range.start, b.start⟩, q)
  | plain {n p₁} (name : p.readExportName = .ok (n, p₁)) (identifier : n.isIdentifier = true) :
      ImportItem p (⟨n.name, n.name, n.range.start, n.range.start⟩, p₁.use n.name)

/-- An item of an import clause is read in one of its forms. -/
theorem readImportItem_ok : Ensures p.readImportItem (ImportItem p) := by
  unfold Scanner.readImportItem
  refine .bind_ok fun (n, p₁) name => ?_
  dsimp only
  split
  · exact .bind_ok fun p₂ moved => .bind_ok fun (b, p₃) binding => .ok (.renamed name ‹_› moved binding)
  · split
    · exact .error
    · rename_i hname
      split
      · exact .error
      · exact .ok (.plain name (by simpa using hname))

/-- The default import that an import statement begins with, if it goes on after it. -/
inductive ImportHead (p : Scanner) : Option Binding → Scanner → Prop
  | none : ImportHead p none p
  | some {b p₁ q} (binding : p.readBinding = .ok (b, p₁)) (comma : p₁.token.kind = .comma)
      (moved : p₁.advance = .ok q) : ImportHead p (some b) q

/-- What an import statement names before its specifier: a default import, a namespace and items. -/
inductive ImportNames (p : Scanner) : Option Binding → Option Binding → List ClauseItem → Scanner → Prop
  | bare : ImportNames p none none [] p
  | byDefault {d p₁ q} (binding : p.readBinding = .ok (d, p₁)) (word : p₁.expectWord "from" = .ok q) :
      ImportNames p (some d) none [] q
  | star {d p₁ b p₂ q} (head : ImportHead p d p₁) (star : p₁.readStar = .ok (b, p₂))
      (word : p₂.expectWord "from" = .ok q) : ImportNames p d (some b) [] q
  | braced {d p₁ items p₂ q} (head : ImportHead p d p₁)
      (braced : p₁.readBraced readImportItem = .ok (items, p₂)) (word : p₂.expectWord "from" = .ok q) :
      ImportNames p d none items q

/-- An import statement is read as its names, its specifier and its end. -/
theorem readImport_ok (start : Nat) : Ensures (p.readImport start) fun q => ∃ d star items p₁ record p₂,
    ImportNames p d star items p₁ ∧ p₁.readSpecifier = .ok (record, p₂) ∧
      p₂.finishStatement start (fun r => .imports r record d star items) = .ok q := by
  unfold Scanner.readImport
  extract_lets rest
  have hrest : ∀ d star items p₁, ImportNames p d star items p₁ → Ensures (rest (d, star, items, p₁)) fun q =>
      ∃ d star items p₁ record p₂, ImportNames p d star items p₁ ∧ p₁.readSpecifier = .ok (record, p₂) ∧
        p₂.finishStatement start (fun r => .imports r record d star items) = .ok q :=
    fun d star items p₁ names => .bind_ok fun (record, p₂) specifier => fun q done =>
      ⟨d, star, items, p₁, record, p₂, names, specifier, done⟩
  split
  · exact .pure_bind (hrest none none [] p .bare)
  · exact .bind_ok fun (b, p₁) star => .bind_ok fun p₂ word => .pure_bind
      (hrest none (some b) [] p₂ (.star .none star word))
  · exact .bind_ok fun (items, p₁) braced => .bind_ok fun p₂ word => .pure_bind
      (hrest none none items p₂ (.braced .none braced word))
  · refine .bind_ok fun (d, p₁) binding => ?_
    dsimp only
    split
    · rename_i hcomma
      refine .bind_ok fun p₂ moved => ?_
      split
      · exact .bind_ok fun (b, p₃) star => .bind_ok fun p₄ word => .pure_bind
          (hrest (some d) (some b) [] p₄ (.star (.some binding hcomma moved) star word))
      · exact .bind_ok fun (items, p₃) braced => .bind_ok fun p₄ word => .pure_bind
          (hrest (some d) none items p₄ (.braced (.some binding hcomma moved) braced word))
      · exact .throw_bind
    · exact .bind_ok fun p₂ word => .pure_bind (hrest (some d) none [] p₂ (.byDefault binding word))
  · exact .throw_bind

/-! ### Export statements -/

/-- One item of an export clause; its name is used as that of a variable if it can name one. -/
inductive ExportItem (p : Scanner) : (ClauseItem × Option Range) × Scanner → Prop
  | renamed {n p₁ p₂ a q} (name : p.readExportName = .ok (n, p₁)) (word : p₁.token.isWord "as" = true)
      (moved : (if n.isIdentifier then p₁.use n.name else p₁).advance = .ok p₂)
      (other : p₂.readExportName = .ok (a, q)) :
      ExportItem p ((⟨n.name, a.name, n.range.start, a.range.start⟩,
        if n.isIdentifier then none else some n.range), q)
  | plain {n p₁} (name : p.readExportName = .ok (n, p₁)) :
      ExportItem p ((⟨n.name, n.name, n.range.start, n.range.start⟩,
        if n.isIdentifier then none else some n.range), if n.isIdentifier then p₁.use n.name else p₁)

/-- An item of an export clause is read in one of its forms. -/
theorem readExportItem_ok : Ensures p.readExportItem (ExportItem p) := by
  unfold Scanner.readExportItem
  refine .bind_ok fun (n, p₁) name => ?_
  dsimp -zeta only
  extract_lets p₂ odd
  split
  · rename_i hword
    refine .bind_ok fun p₃ moved => .bind_ok fun (a, p₄) other => .ok (.renamed name ?_ moved other)
    dsimp only [p₂] at hword
    split at hword <;> exact hword
  · exact .ok (.plain name)

theorem skipKeyword_ok : Ensures p.skipKeyword fun r => r.1 = (p.token.kind == .kwClass) ∧ ∃ p₁,
    p.advance = .ok p₁ ∧ (r.2 = p₁ ∨ p₁.token.kind = .asterisk ∧ p₁.advance = .ok r.2) := by
  unfold Scanner.skipKeyword
  extract_lets isClass
  refine .bind_ok fun p₁ moved => ?_
  split
  · rename_i hstar
    simp only [Bool.and_eq_true, decide_eq_true_eq] at hstar
    exact .bind_ok fun p₂ moved' => .ok ⟨rfl, p₁, moved, .inr ⟨hstar.2, moved'⟩⟩
  · exact .ok ⟨rfl, p₁, moved, .inl rfl⟩

/-- An exported function or class is read as its keyword and its name. -/
theorem readExportedBody_ok (keyword : Range) : Ensures (p.readExportedBody keyword) fun q => ∃ isClass p₁ b p₂,
    p.skipKeyword = .ok (isClass, p₁) ∧ p₁.readBinding = .ok (b, p₂) ∧
      q = (p₂.addStatement (.exportDeclaration keyword [b])).expectBody isClass := by
  unfold Scanner.readExportedBody
  exact .bind_ok fun (isClass, p₁) skipped => .bind_ok fun (b, p₂) binding => .ok
    ⟨isClass, p₁, b, p₂, skipped, binding, rfl⟩

/-- What is exported by default, from its first token on: an expression, or a function or class with or without
a name. -/
inductive DefaultExport (keyword : Range) (p : Scanner) : Scanner → Prop
  | expression (prev : TokenKind) (exprAllowed : Bool) (hprev : prev = .identifier ∨ prev = .assign) :
      DefaultExport keyword p
        { p.addStatement (.exportDefault keyword .expression none 0) with prev, exprAllowed }
  | named {isClass p₁ b p₂} (kind : DefaultKind)
      (hkind : p.token.kind = .kwFunction ∨ p.token.kind = .kwClass) (skipped : p.skipKeyword = .ok (isClass, p₁))
      (binding : p₁.readBinding = .ok (b, p₂)) :
      DefaultExport keyword p ((p₂.addStatement (.exportDefault keyword kind (some b) 0)).expectBody isClass)
  | unnamed {isClass p₁} (kind : DefaultKind)
      (hkind : p.token.kind = .kwFunction ∨ p.token.kind = .kwClass) (skipped : p.skipKeyword = .ok (isClass, p₁)) :
      DefaultExport keyword p
        ((p₁.addStatement (.exportDefault keyword kind none p₁.token.prevStop)).expectBody isClass)

/-- The word before a function that runs asynchronously may be passed first. -/
theorem readExportDefault_ok (keyword : Range) : Ensures (p.readExportDefault keyword) fun q => ∃ p₁ p₂,
    p.advance = .ok p₁ ∧ (p₂ = p₁ ∨ p₁.token.isWord "async" = true ∧ (p₁.use "async").advance = .ok p₂) ∧
      DefaultExport (.between keyword.start p.token.stop) p₂ q := by
  unfold Scanner.readExportDefault
  extract_lets range rest
  have hrest : ∀ r : Bool × Scanner, Ensures (rest r) (DefaultExport range r.2) := by
    rintro ⟨asyncOnly, p₂⟩
    dsimp -zeta only [rest]
    split
    · exact .ok (.expression _ _ (.inl rfl))
    split
    · rename_i hkind
      simp only [Bool.or_eq_true, decide_eq_true_eq] at hkind
      refine .bind_ok fun (isClass, p₃) skipped => ?_
      dsimp -zeta only
      extract_lets kind
      split
      · exact .bind_ok fun (b, p₄) binding => .ok (.named kind hkind skipped binding)
      · exact .ok (.unnamed kind hkind skipped)
    · exact .ok (.expression _ _ (.inr rfl))
  refine .bind_ok fun p₁ moved => ?_
  split
  · rename_i hasync
    exact .bind_ok fun p₂ moved' => .pure_bind ((hrest (_, p₂)).mono fun q hq =>
      ⟨p₁, p₂, moved, .inr ⟨hasync, moved'⟩, hq⟩)
  · exact .pure_bind ((hrest (false, p₁)).mono fun q hq => ⟨p₁, p₁, moved, .inl rfl, hq⟩)

/-- An export statement, from the token after its keyword on. -/
inductive Export (keyword : Range) (p : Scanner) : Scanner → Prop
  | star {p₁ p₂ record p₃ q} (kind : p.token.kind = .asterisk) (moved : p.advance = .ok p₁)
      (word : p₁.expectWord "from" = .ok p₂) (specifier : p₂.readSpecifier = .ok (record, p₃))
      (done : p₃.finishStatement keyword.start (fun r => .exportStar r record) = .ok q) : Export keyword p q
  | starAs {p₁ p₂ n p₃ p₄ record p₅ q} (kind : p.token.kind = .asterisk) (moved : p.advance = .ok p₁)
      (as : p₁.token.isWord "as" = true) (moved' : p₁.advance = .ok p₂) (name : p₂.readExportName = .ok (n, p₃))
      (word : p₃.expectWord "from" = .ok p₄) (specifier : p₄.readSpecifier = .ok (record, p₅))
      (done : p₅.finishStatement keyword.start
        (fun r => .exportStarAs r record ⟨n.name, n.range.start⟩) = .ok q) : Export keyword p q
  | clauseFrom {items p₁ p₂ record p₃ q} (braced : p.readBraced readExportItem = .ok (items, p₁))
      (word : p₁.token.isWord "from" = true) (moved : p₁.advance = .ok p₂)
      (specifier : p₂.readSpecifier = .ok (record, p₃))
      (done : p₃.finishStatement keyword.start (fun r => .exportFrom r record (items.map (·.1))) = .ok q) :
      Export keyword p q
  | clause {items p₁ q} (braced : p.readBraced readExportItem = .ok (items, p₁)) (plain : ∀ a ∈ items, a.2 = none)
      (done : p₁.finishStatement keyword.start (fun r => .exportClause r (items.map (·.1))) = .ok q) :
      Export keyword p q
  | byDefault {q} (kind : p.token.kind = .kwDefault) (read : p.readExportDefault keyword = .ok q) :
      Export keyword p q
  | declaration {q} (kind : p.token.kind = .kwVar ∨ p.token.kind = .kwConst ∨ p.token.kind = .identifier)
      (read : p.readExportedVariables keyword = .ok q) : Export keyword p q
  | body {q} (kind : p.token.kind = .kwFunction ∨ p.token.kind = .kwClass)
      (read : p.readExportedBody keyword = .ok q) : Export keyword p q
  | async {p₁ q} (kind : p.token.kind = .identifier) (moved : p.advance = .ok p₁)
      (function : p₁.token.kind = .kwFunction) (read : p₁.readExportedBody keyword = .ok q) : Export keyword p q

/-- An export statement is read as its keyword and one of the forms of an export. -/
theorem readExport_ok : Ensures p.readExport fun q => ∃ p₁, p.advance = .ok p₁ ∧ Export p.token.range p₁ q := by
  unfold Scanner.readExport
  extract_lets keyword rest
  refine .bind_ok fun p₁ moved => ?_
  -- the form is told by the token behind the keyword
  suffices h : Ensures _ (Export keyword p₁) from h.mono fun q hq => ⟨p₁, moved, hq⟩
  cases kind : p₁.token.kind
  case asterisk =>
    refine .bind_ok fun p₂ moved₂ => ?_
    split
    · refine .bind_ok fun p₃ moved₃ => .bind_ok fun (n, p₄) name => .pure_bind ?_
      exact .bind_ok fun p₅ word => .bind_ok fun (record, p₆) specifier => fun q done =>
        .starAs kind moved₂ ‹_› moved₃ name word specifier done
    · refine .pure_bind (.bind_ok fun p₃ word => .bind_ok fun (record, p₄) specifier => fun q done => ?_)
      exact .star kind moved₂ word specifier done
  case openBrace =>
    refine .bind_ok fun (items, p₂) braced => ?_
    dsimp -zeta only
    extract_lets clause
    split
    · exact .bind_ok fun p₃ moved₃ => .bind_ok fun (record, p₄) specifier => fun q done =>
        .clauseFrom braced ‹_› moved₃ specifier done
    · split
      · exact .error
      · rename_i plain
        exact fun q done => .clause braced (List.findSome?_eq_none_iff.1 plain) done
  case kwDefault => exact fun q read => .byDefault kind read
  case kwVar => exact fun q read => .declaration (.inl kind) read
  case kwConst => exact fun q read => .declaration (.inr (.inl kind)) read
  case identifier =>
    dsimp only
    split
    · exact fun q read => .declaration (.inr (.inr kind)) read
    · split
      · refine .bind_ok fun p₂ moved₂ => ?_
        extract_lets
        refine .forbid fun hfunction => fun q read => .async kind moved₂ ?_ read
        by_contra hne
        exact hfunction (by simp [hne])
      · exact .error
  case kwFunction => exact fun q read => .body (.inl kind) read
  case kwClass => exact fun q read => .body (.inr kind) read
  all_goals exact .error

end ModuleSystem.Scanner

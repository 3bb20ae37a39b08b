import ModuleSystem.Proofs.Outline.Readers

/-!
# The scanner — what it remembers

All that an outline tells comes from tokens: a write starts at a variable or a literal, and ends with
a token; a name is the name of a token.  Between the token and the outline the scanner remembers such
places and names in its frames and in what a token leaves behind for the next one.

`Demands` is what may be demanded of places and names, and `Scanner.Keeps` says that all that a scanner
remembers meets the demands, together with the parts of the source that are cut so far.  A step adds
the places of the current token and of the token that it leads to, and nothing else.

* `Keeps.advance`, `Keeps.push`, …: what the single operations of the scanner keep.
* `Keeps.readImport`, `Keeps.readExport`: a statement that is read in full adds one cut.
-/

namespace ModuleSystem

/-- What a change of one element keeps of every element, it keeps of the list. -/
theorem map_modify_eq {α β : Type} {f : α → α} {g : α → β} (h : ∀ a, g (f a) = g a) (as : List α)
    (i : Nat) : (as.modify i f).map g = as.map g := by
  refine List.ext_getElem? fun j => ?_
  rw [List.getElem?_map, List.getElem?_modify, List.getElem?_map]
  cases as[j]? with
  | none => rfl
  | some a => by_cases hij : i = j <;> simp [hij, h]

/-! ### Cuts and places -/

/-- A part of a source that is removed or replaced. -/
structure Cut where
  range : Range
  /-- It is a whole statement. -/
  whole : Bool
deriving DecidableEq

/-- What compiling a statement cuts. -/
def Statement.cut : Statement → Cut
  | .imports r .. | .exportClause r _ | .exportFrom r _ _ | .exportStar r _ | .exportStarAs r _ _ =>
    ⟨r, true⟩
  | .exportDeclaration keyword _ | .exportDefault keyword .. => ⟨keyword, false⟩

@[simp] theorem Statement.declare_cut (b : Binding) (s : Statement) : (s.declare b).cut = s.cut := by
  cases s <;> rfl

namespace Outline

/-- All that compiling a module cuts. -/
def cuts (o : Outline) : List Cut :=
  (if 0 < o.hashbang.len then [⟨o.hashbang, false⟩] else []) ++
    (o.statements.map (·.cut) ++ (o.dynamicImports.map (⟨·, false⟩) ++ o.importMetas.map (⟨·, false⟩)))

end Outline

/-- The offset of the notice that a loop gets. -/
def LoopWrite.place (l : LoopWrite) : Nat := if l.isBlock then l.body + 1 else l.body

/-! ### Demands -/

/-- What is demanded of all that a scanner remembers. -/
structure Demands where
  source : Source
  /-- All tokens from now on come after this offset. -/
  floor : Nat
  /-- The places where a write or a notice may start. -/
  start : Nat → Prop
  /-- The places where a write may end. -/
  stop : Nat → Prop
  /-- The names of variables. -/
  word : Text → Prop
  /-- The names and specifiers that are printed between quotes. -/
  quoted : Text → Prop

/-- The same demands after an offset. -/
abbrev Demands.past (m : Demands) (floor : Nat) : Demands := { m with floor }

/-- Names are only demanded to be what the names of tokens are. -/
structure Demands.Fair (m : Demands) : Prop where
  word_of_isIdentifier : ∀ {t : Text}, isIdentifier t = true → m.word t
  quoted_of_word : ∀ {t : Text}, m.word t → m.quoted t
  quoted_toText : ∀ us, m.quoted (Utf16.toText us)

/-- A statement meets the demands. -/
def Statement.Meets (m : Demands) : Statement → Prop
  | .imports _ _ byDefault star items =>
    (∀ b ∈ byDefault, m.word b.name) ∧ (∀ b ∈ star, m.word b.name) ∧
      ∀ i ∈ items, m.quoted i.name ∧ m.word i.asName
  | .exportClause _ items => ∀ i ∈ items, m.word i.name ∧ m.quoted i.asName
  | .exportDeclaration _ names => ∀ b ∈ names, m.word b.name
  | .exportDefault _ kind name insertAt =>
    (∀ b ∈ name, m.word b.name) ∧ (kind ≠ .expression → name = none → m.start insertAt)
  | .exportFrom .. | .exportStar .. | .exportStarAs .. => True

/-- An outline meets the demands. -/
structure Outline.Meets (m : Demands) (o : Outline) : Prop where
  writes : ∀ w ∈ o.writes, m.start w.start ∧ (w.stop = 0 ∨ m.stop w.stop)
  loops : ∀ l ∈ o.loopWrites, m.start l.place
  statements : ∀ s ∈ o.statements, s.Meets m
  records : ∀ r ∈ o.records, m.quoted r.path

/-- A frame meets the demands. Only a literal may turn out to be the start of a write, and only the
parenthesis of a statement is the head of a loop. -/
structure Frame.Meets (m : Demands) (f : Frame) : Prop where
  start : f.isArrayLiteral = true ∨ f.kind = .object → m.start f.start
  shorthand : ∀ b ∈ f.shorthand, m.word b.name
  forHead : f.isForHead = true → f.kind = .parenStatement
  loop : f.loopTargets ≠ [] → f.isForHead = true

/-- What a token leaves behind meets the demands. -/
structure Leftover.Meets (m : Demands) (l : Leftover) : Prop where
  ref : ∀ b ∈ l.ref, m.start b.start
  update : ∀ n ∈ l.update, m.start n

/-- All that a scanner remembers meets the demands, and these are the cuts. -/
structure Scanner.Keeps (m : Demands) (cuts : List Cut) (p : Scanner) : Prop where
  lexer : Lexer.Met m.source p.lexer
  floor : m.floor ≤ p.token.prevStop
  outline : p.outline.Meets m
  cuts : p.outline.cuts.Perm cuts
  top : p.top.Meets m
  below : ∀ f ∈ p.below, f.Meets m
  lastClosed : p.lastClosed.Meets m
  left : p.left.Meets m
  pending : ∀ u ∈ p.pendingUpdate, m.start u.1

variable {m : Demands} {cuts : List Cut} {p p' : Scanner}

theorem Leftover.meets_empty : Leftover.Meets m {} := ⟨by simp, by simp⟩

namespace Scanner

/-! ### Moving on -/

theorem Keeps.withLexer (h : p.Keeps m cuts) {lx : Lexer} (hlx : p.lexer.next = .ok lx) :
    Keeps m cuts { p with lexer := lx } := by
  have hle := h.lexer.places_le
  refine { h with lexer := h.lexer.next hlx, floor := ?_ }
  show m.floor ≤ lx.token.prevStop
  rw [Lexer.prevStop_of_next hlx]
  have := h.floor
  simp only [Scanner.token] at this
  omega

/-- Moving on keeps what is remembered: it changes the current token only. -/
theorem Keeps.advance (h : p.Keeps m cuts) : Ensures p.advance (Keeps m cuts) := by
  intro p' hp'
  obtain ⟨lx, hlx, rfl⟩ := advance_ok hp'
  exact h.withLexer hlx

/-- A token that is done with leaves only its kind behind. -/
theorem Keeps.next (h : p.Keeps m cuts) (exprAllowed : Bool) :
    Ensures (p.next exprAllowed) (Keeps m cuts) := by
  intro p' hp'
  obtain ⟨lx, hlx, rfl⟩ := next_ok hp'
  exact { h.withLexer hlx with }

theorem Keeps.expect (h : p.Keeps m cuts) (k : TokenKind) : Ensures (p.expect k) (Keeps m cuts) :=
  fun p' hp' => h.advance p' (expect_ok hp').2

/-- A word that is expected is passed over. -/
theorem Keeps.expectWord (h : p.Keeps m cuts) (word : Text) :
    Ensures (p.expectWord word) (Keeps m cuts) :=
  fun p' hp' => h.advance p' (expectWord_ok hp').2

end Scanner

/-! ### Fewer demands -/

/-- The demands `m'` are met by what meets the demands `m`. -/
structure Demands.Covers (m m' : Demands) : Prop where
  start : ∀ n, m.start n → m'.start n
  stop : ∀ n, m.stop n → m'.stop n
  word : ∀ t, m.word t → m'.word t
  quoted : ∀ t, m.quoted t → m'.quoted t

variable {m' : Demands}

/-- A statement that meets the demands meets those that they cover. -/
theorem Statement.Meets.mono (hm : m.Covers m') {s : Statement} (h : s.Meets m) : s.Meets m' := by
  cases s with
  | imports r record byDefault star items =>
      exact ⟨fun b hb => hm.word _ (h.1 b hb), fun b hb => hm.word _ (h.2.1 b hb), fun i hi =>
        ⟨hm.quoted _ (h.2.2 i hi).1, hm.word _ (h.2.2 i hi).2⟩⟩
  | exportClause r items => exact fun i hi => ⟨hm.word _ (h i hi).1, hm.quoted _ (h i hi).2⟩
  | exportDeclaration keyword names => exact fun b hb => hm.word _ (h b hb)
  | exportDefault keyword kind name insertAt =>
      exact ⟨fun b hb => hm.word _ (h.1 b hb), fun hkind hname => hm.start _ (h.2 hkind hname)⟩
  | exportFrom | exportStar | exportStarAs => trivial

/-- An outline that meets the demands meets those that they cover. -/
theorem Outline.Meets.mono (hm : m.Covers m') {o : Outline} (h : o.Meets m) : o.Meets m' where
  writes w hw := ⟨hm.start _ (h.writes w hw).1, (h.writes w hw).2.imp_right (hm.stop _)⟩
  loops l hl := hm.start _ (h.loops l hl)
  statements s hs := (h.statements s hs).mono hm
  records r hr := hm.quoted _ (h.records r hr)

/-- A frame that meets the demands meets those that they cover. -/
theorem Frame.Meets.mono (hm : m.Covers m') {f : Frame} (h : f.Meets m) : f.Meets m' :=
  { h with
    start := fun hf => hm.start _ (h.start hf)
    shorthand := fun b hb => hm.word _ (h.shorthand b hb) }

theorem Leftover.Meets.mono (hm : m.Covers m') {l : Leftover} (h : l.Meets m) : l.Meets m' :=
  ⟨fun b hb => hm.start _ (h.ref b hb), fun n hn => hm.start _ (h.update n hn)⟩

namespace Scanner

/-- A scanner that meets the demands meets those that they cover, as long as their floor is not above the
current token. -/
theorem Keeps.mono (h : p.Keeps m cuts) (hm : m.Covers m') (hsource : m'.source = m.source)
    (hfloor : m'.floor ≤ p.token.prevStop) : p.Keeps m' cuts where
  lexer := hsource ▸ h.lexer
  floor := hfloor
  outline := h.outline.mono hm
  cuts := h.cuts
  top := h.top.mono hm
  below f hf := (h.below f hf).mono hm
  lastClosed := h.lastClosed.mono hm
  left := h.left.mono hm
  pending u hu := hm.start _ (h.pending u hu)

/-- From the current token on, nothing stands before its end. -/
theorem Keeps.raise (h : p.Keeps m cuts) {floor : Nat} (hfloor : floor ≤ p.token.prevStop) :
    p.Keeps (m.past floor) cuts :=
  h.mono ⟨fun _ => id, fun _ => id, fun _ => id, fun _ => id⟩ rfl hfloor

/-- What holds of places behind a higher floor holds behind a lower one. -/
theorem Keeps.lower {floor : Nat} (h : p.Keeps (m.past floor) cuts) (hfloor : m.floor ≤ floor) :
    p.Keeps m cuts :=
  h.mono ⟨fun _ => id, fun _ => id, fun _ => id, fun _ => id⟩ rfl (hfloor.trans h.floor)

/-- The current token does not end before the floor. -/
theorem Keeps.floor_le_stop (h : p.Keeps m cuts) : m.floor ≤ p.token.stop := by
  have hplaces := h.lexer.places_le
  have hfloor := h.floor
  simp only [Scanner.token] at *
  omega

/-- After the current token, everything comes after it. -/
theorem Keeps.advance_past (h : p.Keeps m cuts) :
    Ensures p.advance (Keeps (m.past p.token.stop) cuts) :=
  fun p' hp' => (h.advance p' hp').raise (prevStop_of_advance hp').ge

/-- Behind the current token, the floor may be raised to its end. -/
theorem Keeps.next_past (h : p.Keeps m cuts) (exprAllowed : Bool) :
    Ensures (p.next exprAllowed) (Keeps (m.past p.token.stop) cuts) :=
  fun p' hp' => (h.next exprAllowed p' hp').raise (prevStop_of_next hp').ge

/-! ### Single operations -/

theorem Keeps.use (h : p.Keeps m cuts) (name : Text) : (p.use name).Keeps m cuts :=
  { h with outline := { h.outline with } }

/-- A token may leave behind whatever meets the demands. -/
theorem Keeps.leave (h : p.Keeps m cuts) {f : Leftover → Leftover} (hf : (f p.left).Meets m) :
    (p.leave f).Keeps m cuts :=
  { h with left := hf }

/-- The innermost frame may become any frame that meets the demands. -/
theorem Keeps.withTop (h : p.Keeps m cuts) {f : Frame} (hf : f.Meets m) :
    Keeps m cuts { p with top := f } :=
  { h with top := hf }

/-- A frame that starts at the current token may be opened if it meets the demands there. -/
theorem Keeps.push (h : p.Keeps m cuts) {f : Frame} (hf : { f with start := p.token.start }.Meets m) :
    (p.push f).Keeps m cuts :=
  { h with
    top := { hf with }
    below := by
      intro g hg
      obtain rfl | hg := List.mem_cons.1 hg
      · exact h.top
      · exact h.below g hg }

/-- The innermost frame is closed, and the one around it has met the demands all along. -/
theorem Keeps.pop (h : p.Keeps m cuts) : p.pop.Keeps m cuts := by
  unfold Scanner.pop
  split
  · exact h
  · rename_i f below hbelow
    exact
      { h with
        top := h.below f (by simp [hbelow])
        below := fun g hg => h.below g (by simp [hbelow, hg]) }

/-- The ends of writes are set one after the other, and nothing else changes. -/
theorem mem_endWrites {stop : Nat} {writes : List Write} {closing : List PendingClose} {w : Write}
    (h : w ∈ endWrites stop writes closing) :
    ∃ w' ∈ writes, w.start = w'.start ∧ (w.stop = w'.stop ∨ w.stop = stop) := by
  unfold endWrites at h
  induction closing generalizing writes with
  | nil => exact ⟨w, h, rfl, .inl rfl⟩
  | cons c closing ih =>
      obtain ⟨w', hw', hstart, hstop⟩ := ih h
      obtain ⟨i, hi⟩ := List.mem_iff_getElem?.1 hw'
      rw [List.getElem?_modify] at hi
      obtain ⟨w'', hw'', rfl⟩ := Option.map_eq_some_iff.1 hi
      refine ⟨w'', List.mem_of_getElem? hw'', ?_⟩
      split at hstart
      · exact ⟨hstart, .inr (by simp_all)⟩
      · simp_all

/-- Writes end with the token before the current one, so the demand is one on that place. -/
theorem Keeps.closeWhile (h : p.Keeps m cuts) (hstop : m.stop p.token.prevStop)
    (closes : PendingClose → Bool) : (p.closeWhile closes).Keeps m cuts := by
  refine { h with outline := { h.outline with writes := fun w hw => ?_ } }
  obtain ⟨w', hw', hstart, hw⟩ := mem_endWrites hw
  obtain ⟨hstart', hstop'⟩ := h.outline.writes w' hw'
  refine ⟨hstart ▸ hstart', ?_⟩
  obtain hw | hw := hw
  · rwa [hw]
  · exact .inr (hw ▸ hstop)

theorem Keeps.closeWrites (h : p.Keeps m cuts) (hstop : m.stop p.token.prevStop) (depth : Nat) :
    (p.closeWrites depth).Keeps m cuts := h.closeWhile hstop _

/-- Writes that turn out to be default values are forgotten, and those before them are kept. -/
theorem Keeps.discardWrites (h : p.Keeps m cuts) (count : Nat) :
    (p.discardWrites count).Keeps m cuts := by
  unfold Scanner.discardWrites
  split
  · exact h
  · exact { h with outline :=
      { h.outline with writes := fun w hw => h.outline.writes w (List.mem_of_mem_take hw) } }

/-- A write is added whose start, and end if it has one, meet the demands. -/
theorem Keeps.addWrite (h : p.Keeps m cuts) {targets : List Binding} {start stop : Nat}
    (hstart : m.start start) (hstop : stop = 0 ∨ m.stop stop) :
    (p.addWrite targets start stop).Keeps m cuts := by
  refine { h with outline := { h.outline with writes := fun w hw => ?_ } }
  obtain hw | hw := List.mem_append.1 hw
  · exact h.outline.writes w hw
  · cases List.mem_singleton.1 hw
    exact ⟨hstart, hstop⟩

/-- A write whose end is not known yet has only its start to meet the demands. -/
theorem Keeps.startWrite (h : p.Keeps m cuts) {targets : List Binding} {start : Nat}
    (hstart : m.start start) : (p.startWrite targets start).Keeps m cuts :=
  { h.addWrite hstart (.inl rfl) with }

/-- A variable that is declared adds a word to an exported declaration, and no cut. -/
theorem Keeps.addBinding (h : p.Keeps m cuts) {b : Binding} (hb : m.word b.name) (declFrame : Nat) :
    (p.addBinding declFrame b).Keeps m cuts := by
  unfold Scanner.addBinding
  split
  · exact h
  · rename_i i _
    refine { h with outline := { h.outline with statements := fun s hs => ?_ }, cuts := ?_ }
    · obtain ⟨j, hj⟩ := List.mem_iff_getElem?.1 hs
      rw [List.getElem?_modify] at hj
      obtain ⟨s', hs', rfl⟩ := Option.map_eq_some_iff.1 hj
      have hmeets := h.outline.statements s' (List.mem_of_getElem? hs')
      split
      · cases s' with
        | exportDeclaration keyword names =>
            intro c hc
            obtain hc | hc := List.mem_append.1 hc
            · exact hmeets c hc
            · exact List.mem_singleton.1 hc ▸ hb
        | _ => exact hmeets
      · exact hmeets
    · refine List.Perm.trans (.of_eq ?_) h.cuts
      simp only [Outline.cuts, map_modify_eq (Statement.declare_cut b)]

theorem Keeps.startDeclaration (h : p.Keeps m cuts) (export? : Option Nat) :
    (p.startDeclaration export?).Keeps m cuts :=
  h.withTop { h.top with }

/-- A statement that ends ends the assignments in it. -/
theorem Keeps.endStatement (h : p.Keeps m cuts) (hstop : m.stop p.token.prevStop) :
    p.endStatement.Keeps m cuts :=
  (h.closeWrites hstop p.depth).withTop { h.top with }

/-- A bracket is closed by the token that closes its kind, and its assignments end before that token. -/
theorem Keeps.close (h : p.Keeps m cuts) (hstop : m.stop p.token.prevStop) :
    Ensures p.close fun p' => p'.Keeps m cuts ∧ p'.lexer = p.lexer ∧ p'.left = p.left ∧
      p'.lastClosed.kind.closer = p.token.kind := by
  unfold Scanner.close
  split
  · exact .error
  · rename_i hcloser
    have hclosed := h.closeWrites hstop p.depth
    simp only [Bool.or_eq_true, not_or, decide_eq_true_eq, not_not] at hcloser
    refine .ok ⟨{ hclosed.pop with lastClosed := h.top }, ?_, ?_, hcloser.1⟩
    all_goals
      simp only [Scanner.pop]
      split <;> rfl

/-! ### Names and clauses -/

/-- The name of an identifier or a keyword meets the demands on words. -/
theorem Keeps.word_of_isName (h : p.Keeps m cuts) (hm : m.Fair) (hname : p.token.kind.isName = true) :
    m.word p.token.name :=
  hm.word_of_isIdentifier (h.lexer.named hname)

/-- The name of a variable that is read is a word. -/
theorem Keeps.readBinding (h : p.Keeps m cuts) (hm : m.Fair) :
    Ensures p.readBinding fun r => r.2.Keeps m cuts ∧ m.word r.1.name := by
  rintro ⟨b, p'⟩ hr
  obtain ⟨hkind, hb, moved⟩ := readBinding_ok _ hr
  refine ⟨(h.use p.token.name).advance _ moved, hb ▸ h.word_of_isName hm ?_⟩
  rw [hkind]
  rfl

/-- The name of an export may be a string; as an identifier it is a word. -/
theorem Keeps.readExportName (h : p.Keeps m cuts) (hm : m.Fair) :
    Ensures p.readExportName fun r => r.2.Keeps m cuts ∧ m.quoted r.1.name ∧
      (r.1.isIdentifier = true → m.word r.1.name) := by
  intro r hr
  cases readExportName_ok r hr with
  | string hkind hname moved =>
      refine ⟨h.advance _ moved, ?_, by simp⟩
      unfold Utf16.toText? at hname
      split at hname
      · cases hname
      · cases hname
        exact hm.quoted_toText _
  | word hkind moved =>
      have hword := h.word_of_isName hm hkind
      exact ⟨h.advance _ moved, hm.quoted_of_word hword, fun _ => hword⟩

theorem Keeps.readAttribute (h : p.Keeps m cuts) : Ensures p.readAttribute (Keeps m cuts) := by
  intro p' hp'
  obtain ⟨p₁, p₂, -, moved, colon, -, moved'⟩ := readAttribute_ok p' hp'
  exact ((h.advance p₁ moved).expect _ p₂ colon).advance p' moved'

/-- What every item of a list in braces keeps, and what holds of every item, is kept by the list and holds of
it. -/
theorem Keeps.items {α : Type} {item : Scanner → Except Fault (α × Scanner)} {Q : α → Prop}
    (hitem : ∀ p : Scanner, p.Keeps m cuts → Ensures (item p) fun r => r.2.Keeps m cuts ∧ Q r.1)
    {r : List α × Scanner} (hr : Items item p r) (h : p.Keeps m cuts) :
    r.2.Keeps m cuts ∧ ∀ a ∈ r.1, Q a := by
  induction hr with
  | nil => exact ⟨h, by simp⟩
  | last read =>
      obtain ⟨hq, ha⟩ := hitem _ h _ read
      exact ⟨hq, by simpa using ha⟩
  | cons read _ moved _ ih =>
      obtain ⟨hq, ha⟩ := hitem _ h _ read
      obtain ⟨hr, has⟩ := ih (hq.advance _ moved)
      exact ⟨hr, List.forall_mem_cons.2 ⟨ha, has⟩⟩

/-- A list in braces is kept when its items are. -/
theorem Keeps.readBraced {α : Type} {item : Scanner → Except Fault (α × Scanner)} {Q : α → Prop}
    (hitem : ∀ p : Scanner, p.Keeps m cuts → Ensures (item p) fun r => r.2.Keeps m cuts ∧ Q r.1)
    (h : p.Keeps m cuts) :
    Ensures (p.readBraced item) fun r => r.2.Keeps m cuts ∧ ∀ a ∈ r.1, Q a := by
  intro r hr
  obtain ⟨p₁, p₂, opened, items, closed⟩ := readBraced_ok r hr
  obtain ⟨h₂, has⟩ := Keeps.items hitem items (h.expect _ p₁ opened)
  exact ⟨h₂.expect _ r.2 closed, has⟩

theorem Keeps.readAttributes (h : p.Keeps m cuts) :
    Ensures p.readAttributes fun r => r.2.Keeps m cuts := by
  unfold Scanner.readAttributes
  refine h.advance.bind fun p₁ h₁ => ?_
  refine (Keeps.readBraced (Q := fun _ => True) (fun p hp => ?_) h₁).bind fun r hr => .ok hr.1
  exact hp.readAttribute.bind fun p' hp' => .ok ⟨hp', trivial⟩

/-- A record that is added, or found again, has the path that was asked for; the others are as before. -/
theorem mem_addRecord {records : List ImportRecord} {path : Text} {range : Range} {json : Bool}
    {r : ImportRecord} (h : r ∈ (addRecord records path range json).2) :
    r.path = path ∨ ∃ r' ∈ records, r.path = r'.path := by
  unfold addRecord at h
  split at h
  · obtain ⟨i, hi⟩ := List.mem_iff_getElem?.1 h
    rw [List.getElem?_modify] at hi
    obtain ⟨r', hr', rfl⟩ := Option.map_eq_some_iff.1 hi
    refine .inr ⟨r', List.mem_of_getElem? hr', ?_⟩
    split <;> rfl
  · obtain h | h := List.mem_append.1 h
    · exact .inr ⟨r, h, rfl⟩
    · exact .inl (by rw [List.mem_singleton.1 h])

theorem Keeps.specifies (h : p.Keeps m cuts) {r : Bool × Scanner} (hr : Specifies p r) : r.2.Keeps m cuts := by
  cases hr with
  | bare moved => exact h.advance _ moved
  | withAttributes moved _ attributes => exact (h.advance _ moved).readAttributes r attributes

/-- A specifier that is read adds a record whose path comes from a string. -/
theorem Keeps.readSpecifier (h : p.Keeps m cuts) (hm : m.Fair) :
    Ensures p.readSpecifier fun r => r.2.Keeps m cuts := by
  intro r hr
  obtain ⟨-, json, p₁, hspecifies, rfl⟩ := readSpecifier_ok r hr
  have h₁ := h.specifies hspecifies
  refine { h₁ with outline := { h₁.outline with records := fun record hrecord => ?_ } }
  obtain hpath | ⟨r', hr', hpath⟩ := mem_addRecord hrecord
  · exact hpath ▸ hm.quoted_toText _
  · exact hpath ▸ h₁.outline.records r' hr'

/-! ### Statements that are read in full -/

/-- A statement that is added adds its cut. -/
theorem Keeps.addStatement (h : p.Keeps m cuts) {s : Statement} (hs : s.Meets m) :
    (p.addStatement s).Keeps m (s.cut :: cuts) := by
  refine { h with outline := { h.outline with statements := fun s' hs' => ?_ }, cuts := ?_ }
  · obtain hs' | hs' := List.mem_append.1 hs'
    · exact h.outline.statements s' hs'
    · exact List.mem_singleton.1 hs' ▸ hs
  · refine List.Perm.trans ?_ (h.cuts.cons _)
    simp only [Scanner.addStatement, Outline.cuts, List.map_append, List.map_cons, List.map_nil,
      List.append_assoc, List.singleton_append]
    rw [← List.append_assoc, ← List.append_assoc]
    exact List.perm_middle

/-- A whole statement that started at an offset was read, up to the current token, and is removed. -/
def Removes (m : Demands) (cuts : List Cut) (start : Nat) (p : Scanner) : Prop :=
  p.Keeps m (⟨.between start p.token.prevStop, true⟩ :: cuts) ∧ p.prev = .semicolon

/-- A statement that ends, and is cut as a whole, is removed up to the current token. -/
theorem Keeps.finishStatement (h : p.Keeps m cuts) {start : Nat} {s : Range → Statement}
    (done : p.finishStatement start s = .ok p') (hs : ∀ r, (s r).Meets m) (hcut : ∀ r, (s r).cut = ⟨r, true⟩) :
    Removes m cuts start p' := by
  obtain ⟨p₁, hp₁, rfl⟩ := finishStatement_ok p' done
  have h₁ : p₁.Keeps m cuts := by
    obtain rfl | ⟨-, moved⟩ := hp₁
    · exact h
    · exact h.advance p₁ moved
  have hadd := h₁.addStatement (hs (.between start p₁.token.prevStop))
  rw [hcut] at hadd
  exact ⟨{ hadd with left := { h₁.left with } }, rfl⟩

/-- The name of a namespace is a word. -/
theorem Keeps.readStar (h : p.Keeps m cuts) (hm : m.Fair) :
    Ensures p.readStar fun r => r.2.Keeps m cuts ∧ m.word r.1.name := by
  intro r hr
  obtain ⟨p₁, p₂, star, word, binding⟩ := readStar_ok r hr
  exact ((h.expect _ p₁ star).expectWord _ p₂ word).readBinding hm r binding

/-- An item of an import names an export and a variable. -/
theorem Keeps.readImportItem (h : p.Keeps m cuts) (hm : m.Fair) :
    Ensures p.readImportItem fun r => r.2.Keeps m cuts ∧ m.quoted r.1.name ∧ m.word r.1.asName := by
  intro r hr
  cases readImportItem_ok r hr with
  | renamed name _ moved binding =>
      obtain ⟨h₁, hquoted, -⟩ := h.readExportName hm _ name
      obtain ⟨h₂, hb⟩ := (h₁.advance _ moved).readBinding hm _ binding
      exact ⟨h₂, hquoted, hb⟩
  | plain name identifier =>
      obtain ⟨h₁, hquoted, hword⟩ := h.readExportName hm _ name
      exact ⟨h₁.use _, hquoted, hword identifier⟩

/-- The variable at the head of an import is a word. -/
theorem Keeps.importHead (h : p.Keeps m cuts) (hm : m.Fair) {d : Option Binding} (hd : ImportHead p d p') :
    p'.Keeps m cuts ∧ ∀ b ∈ d, m.word b.name := by
  cases hd with
  | none => exact ⟨h, by simp⟩
  | some binding _ moved =>
      obtain ⟨h₁, hb⟩ := h.readBinding hm _ binding
      exact ⟨h₁.advance _ moved, by simpa using hb⟩

/-- Everything an import names meets the demands. -/
theorem Keeps.importNames (h : p.Keeps m cuts) (hm : m.Fair) {d star : Option Binding} {items : List ClauseItem}
    (hnames : ImportNames p d star items p') : p'.Keeps m cuts ∧ (∀ b ∈ d, m.word b.name) ∧
      (∀ b ∈ star, m.word b.name) ∧ ∀ i ∈ items, m.quoted i.name ∧ m.word i.asName := by
  cases hnames with
  | bare => exact ⟨h, by simp⟩
  | byDefault binding word =>
      obtain ⟨h₁, hb⟩ := h.readBinding hm _ binding
      exact ⟨h₁.expectWord _ _ word, by simpa using hb, by simp⟩
  | star head star word =>
      obtain ⟨h₁, hd⟩ := h.importHead hm head
      obtain ⟨h₂, hb⟩ := h₁.readStar hm _ star
      exact ⟨h₂.expectWord _ _ word, hd, by simpa using hb, by simp⟩
  | braced head braced word =>
      obtain ⟨h₁, hd⟩ := h.importHead hm head
      obtain ⟨h₂, hitems⟩ := Keeps.readBraced (Q := fun i => m.quoted i.name ∧ m.word i.asName)
        (fun p hp => hp.readImportItem hm) h₁ _ braced
      exact ⟨h₂.expectWord _ _ word, hd, by simp, hitems⟩

/-- An import statement is removed as a whole. -/
theorem Keeps.readImport (h : p.Keeps m cuts) (hm : m.Fair) (start : Nat) :
    Ensures (p.readImport start) (Removes m cuts start) := by
  intro q hq
  obtain ⟨d, star, items, p₁, record, p₂, names, specifier, done⟩ := readImport_ok start q hq
  obtain ⟨h₁, hd, hstar, hitems⟩ := h.importNames hm names
  exact (h₁.readSpecifier hm _ specifier).finishStatement done (fun r => ⟨hd, hstar, hitems⟩) fun r => rfl

theorem Keeps.useIf (h : p.Keeps m cuts) (c : Bool) (name : Text) :
    (if c then p.use name else p).Keeps m cuts := by
  split
  · exact h.use name
  · exact h

/-- An item of an export clause names an export, and without a fault a variable. -/
theorem Keeps.readExportItem (h : p.Keeps m cuts) (hm : m.Fair) :
    Ensures p.readExportItem fun r => r.2.Keeps m cuts ∧ m.quoted r.1.1.asName ∧
      (r.1.2 = none → m.word r.1.1.name) := by
  intro r hr
  cases readExportItem_ok r hr with
  | renamed name _ moved other =>
      obtain ⟨h₁, hquoted, hword⟩ := h.readExportName hm _ name
      obtain ⟨h₂, ha, -⟩ := Keeps.readExportName ((h₁.useIf _ _).advance _ moved) hm _ other
      exact ⟨h₂, ha, fun hnone => hword (by simpa using hnone)⟩
  | plain name =>
      obtain ⟨h₁, hquoted, hword⟩ := h.readExportName hm _ name
      exact ⟨h₁.useIf _ _, hquoted, fun hnone => hword (by simpa using hnone)⟩

/-- All items of an export clause name exports, and without a fault variables. -/
theorem Keeps.exportItems (h : p.Keeps m cuts) (hm : m.Fair) :
    Ensures (p.readBraced Scanner.readExportItem) fun r => r.2.Keeps m cuts ∧
      ∀ a ∈ r.1, m.quoted a.1.asName ∧ (a.2 = none → m.word a.1.name) :=
  Keeps.readBraced (Q := fun a : ClauseItem × Option Range => m.quoted a.1.asName ∧ (a.2 = none → m.word a.1.name))
    (fun _ hp => hp.readExportItem hm) h

theorem Keeps.expectBody (h : p.Keeps m cuts) (isClass : Bool) : (p.expectBody isClass).Keeps m cuts :=
  { h with }

theorem Keeps.skipKeyword (h : p.Keeps m cuts) :
    Ensures p.skipKeyword fun r => r.2.Keeps m cuts := by
  intro r hr
  obtain ⟨-, p₁, moved, hstar⟩ := skipKeyword_ok r hr
  obtain hstar | ⟨-, moved'⟩ := hstar
  · exact hstar ▸ h.advance p₁ moved
  · exact (h.advance p₁ moved).advance r.2 moved'

/-- Of an exported function or class only the keyword is cut. -/
theorem Keeps.readExportedBody (h : p.Keeps m cuts) (hm : m.Fair) (keyword : Range) :
    Ensures (p.readExportedBody keyword) (Keeps m (⟨keyword, false⟩ :: cuts)) := by
  intro q hq
  obtain ⟨isClass, p₁, b, p₂, skipped, binding, rfl⟩ := readExportedBody_ok keyword q hq
  obtain ⟨h₂, hb⟩ := (h.skipKeyword _ skipped).readBinding hm _ binding
  refine (h₂.addStatement (s := .exportDeclaration keyword [b]) ?_).expectBody isClass
  intro c hc
  exact List.mem_singleton.1 hc ▸ hb

/-- Of an exported declaration of variables only the keyword is cut. -/
theorem Keeps.readExportedVariables (h : p.Keeps m cuts) (keyword : Range) :
    Ensures (p.readExportedVariables keyword) (Keeps m (⟨keyword, false⟩ :: cuts)) := by
  unfold Scanner.readExportedVariables
  refine ((h.addStatement (s := .exportDeclaration keyword []) ?_).startDeclaration _).next true
  simp [Statement.Meets]

/-- Of a default export only the keyword is cut; what follows it may start a write, as it stands at the end of
the last token. -/
theorem Keeps.defaultExport (hm : m.Fair) {keyword : Range} {floor : Nat} (h : p.Keeps (m.past floor) cuts)
    (hle : m.floor ≤ floor) (he : DefaultExport keyword p p') : floor ≤ p'.token.prevStop ∧
      ((p'.prev ≠ .semicolon → m.start p'.token.prevStop) → p'.Keeps m (⟨keyword, false⟩ :: cuts)) := by
  cases he with
  | expression =>
      have hexpression := (h.lower hle).addStatement (s := .exportDefault keyword .expression none 0)
        ⟨by simp, by simp⟩
      exact ⟨h.floor, fun _ => { hexpression with }⟩
  | @named isClass p₁ b p₂ kind hkind skipped binding =>
      obtain ⟨h₂, hb⟩ := (h.skipKeyword _ skipped).readBinding ⟨hm.1, hm.2, hm.3⟩ _ binding
      refine ⟨h₂.floor, fun _ => Keeps.expectBody ((h₂.lower hle).addStatement
        (s := .exportDefault keyword kind (some b) 0) ⟨?_, by simp⟩) _⟩
      rintro _ ⟨⟩
      exact hb
  | @unnamed isClass p₁ kind hkind skipped =>
      have h₁ := h.skipKeyword _ skipped
      exact ⟨h₁.floor, fun hstart => Keeps.expectBody ((h₁.lower hle).addStatement
        (s := .exportDefault keyword kind none p₁.token.prevStop)
        ⟨by simp, fun _ _ => hstart (by simp [Scanner.expectBody])⟩) _⟩

/-- The keywords of a default export are cut, and a name may be inserted before the current token. -/
theorem Keeps.readExportDefault (h : p.Keeps m cuts) (hm : m.Fair) (keyword : Range) :
    Ensures (p.readExportDefault keyword) fun p' => p.token.stop ≤ p'.token.prevStop ∧
      ((p'.prev ≠ .semicolon → m.start p'.token.prevStop) →
        p'.Keeps m (⟨.between keyword.start p.token.stop, false⟩ :: cuts)) := by
  intro q hq
  obtain ⟨p₁, p₂, moved, hasync, he⟩ := readExportDefault_ok keyword q hq
  have h₁ := h.advance_past p₁ moved
  refine Keeps.defaultExport hm ?_ h.floor_le_stop he
  obtain rfl | ⟨-, moved'⟩ := hasync
  · exact h₁
  · exact (h₁.use _).advance p₂ moved'

/-- The cut that a step makes which starts at the current token and leads to another place. -/
structure CutsTo (s : Source) (p p' : Scanner) (k : Cut) : Prop where
  kind : p.token.kind = .kwImport ∨ p.token.kind = .kwExport
  start : k.range.start = p.token.start
  nonempty : k.range.start < k.range.stop
  stop_le : k.range.stop ≤ p'.token.prevStop
  whole : k.whole = true → k.range.stop = p'.token.prevStop ∧ p'.prev = .semicolon
  seam : s.contents.Seam k.range.stop

theorem stop_between {start stop : Nat} (h : start ≤ stop) : (Range.between start stop).stop = stop :=
  Nat.add_sub_cancel' h

/-- A keyword is not empty. -/
theorem start_lt_stop_of_kind {s : Source} (h : Lexer.Met s p.lexer)
    (hkind : p.token.kind = .kwImport ∨ p.token.kind = .kwExport) : p.token.start < p.token.stop := by
  refine h.start_lt_stop (fun heof => ?_) fun hinvalid => ?_
  · simp [Scanner.token, heof] at hkind
  · simp [Scanner.token, hinvalid] at hkind

/-- A statement that is removed is the cut of the step that read it. -/
theorem cutsTo_whole (h : Lexer.Met m.source p.lexer)
    (h' : Removes (m.past p.token.stop) cuts p.token.start p')
    (hkind : p.token.kind = .kwImport ∨ p.token.kind = .kwExport) :
    CutsTo m.source p p' ⟨.between p.token.start p'.token.prevStop, true⟩ := by
  have hlt := start_lt_stop_of_kind h hkind
  have hle : p.token.stop ≤ p'.token.prevStop := h'.1.floor
  have hstop := @stop_between p.token.start p'.token.prevStop (by omega)
  exact ⟨hkind, rfl, by rw [hstop]; exact hlt.trans_le hle, hstop.le, fun _ => ⟨hstop, h'.2⟩,
    by rw [hstop]; exact h'.1.lexer.seam_prevStop⟩

/-- A keyword is the cut of a step that passed over it and went on behind it. -/
theorem cutsTo_keyword {s : Source} {stop : Nat} (h : Lexer.Met s p.lexer)
    (hkind : p.token.kind = .kwImport ∨ p.token.kind = .kwExport) (hlt : p.token.stop ≤ stop)
    (hle : stop ≤ p'.token.prevStop) (hseam : s.contents.Seam stop) :
    CutsTo s p p' ⟨.between p.token.start stop, false⟩ := by
  have hlt' := start_lt_stop_of_kind h hkind
  have hstop := @stop_between p.token.start stop (by omega)
  exact ⟨hkind, rfl, by rw [hstop]; exact hlt'.trans_le hlt, by rw [hstop]; exact hle, by simp,
    by rwa [hstop]⟩

/-- The rest of an export, after its keyword, adds one cut that starts with the keyword. -/
theorem Keeps.readExport (h : p.Keeps m cuts) (hm : m.Fair) (hkind : p.token.kind = .kwExport) :
    Ensures p.readExport fun p' => ∃ k, CutsTo m.source p p' k ∧
      ((p'.prev ≠ .semicolon → m.start p'.token.prevStop) →
        p'.Keeps (m.past p.token.stop) (k :: cuts)) := by
  have hm₁ : (m.past p.token.stop).Fair := ⟨hm.1, hm.2, hm.3⟩
  intro q hq
  obtain ⟨p₁, moved, he⟩ := readExport_ok q hq
  have h₁ := h.advance_past p₁ moved
  -- a whole statement, and a declaration that loses its keyword
  have hwhole : Removes (m.past p.token.stop) cuts p.token.start q → ∃ k, CutsTo m.source p q k ∧
      ((q.prev ≠ .semicolon → m.start q.token.prevStop) → q.Keeps (m.past p.token.stop) (k :: cuts)) :=
    fun hq => ⟨_, cutsTo_whole h.lexer hq (.inr hkind), fun _ => hq.1⟩
  have hdeclaration : q.Keeps (m.past p.token.stop) (⟨p.token.range, false⟩ :: cuts) →
      ∃ k, CutsTo m.source p q k ∧
        ((q.prev ≠ .semicolon → m.start q.token.prevStop) → q.Keeps (m.past p.token.stop) (k :: cuts)) :=
    fun hq => ⟨_, cutsTo_keyword h.lexer (.inr hkind) le_rfl hq.floor h.lexer.seam_stop, fun _ => hq⟩
  cases he with
  | star _ moved₂ word specifier done =>
      have h₂ := ((h₁.advance _ moved₂).expectWord _ _ word).readSpecifier hm₁ _ specifier
      exact hwhole (h₂.finishStatement done (fun _ => trivial) fun _ => rfl)
  | starAs _ moved₂ _ moved₃ name word specifier done =>
      have h₃ := ((h₁.advance _ moved₂).advance _ moved₃).readExportName hm₁ _ name
      have h₄ := (h₃.1.expectWord _ _ word).readSpecifier hm₁ _ specifier
      exact hwhole (h₄.finishStatement done (fun _ => trivial) fun _ => rfl)
  | clauseFrom braced _ moved₃ specifier done =>
      have h₂ := (h₁.exportItems hm₁ _ braced).1
      have h₃ := (h₂.advance _ moved₃).readSpecifier hm₁ _ specifier
      exact hwhole (h₃.finishStatement done (fun _ => trivial) fun _ => rfl)
  | clause braced plain done =>
      obtain ⟨h₂, hitems⟩ := h₁.exportItems hm₁ _ braced
      refine hwhole (h₂.finishStatement done (fun _ i hi => ?_) fun _ => rfl)
      obtain ⟨a, ha, rfl⟩ := List.mem_map.1 hi
      exact ⟨(hitems a ha).2 (plain a ha), (hitems a ha).1⟩
  | byDefault _ read =>
      obtain ⟨hle, hq⟩ := h₁.readExportDefault hm₁ p.token.range q read
      exact ⟨_, cutsTo_keyword h.lexer (.inr hkind) h₁.floor_le_stop hle h₁.lexer.seam_stop, hq⟩
  | declaration _ read => exact hdeclaration (h₁.readExportedVariables p.token.range q read)
  | body _ read => exact hdeclaration (h₁.readExportedBody hm₁ p.token.range q read)
  | async _ moved₂ _ read => exact hdeclaration ((h₁.advance _ moved₂).readExportedBody hm₁ p.token.range q read)

end Scanner

end ModuleSystem

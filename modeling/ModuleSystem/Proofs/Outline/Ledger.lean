import ModuleSystem.Proofs.Outline.Steps

/-!
# The scanner — what it notes down

While a source is read, the scanner notes the names that occur, and it files the specifiers of import
and export statements as records.  A `Ledger` says what must be noted by now, and `Scanner.Tallies`
that the notes of a scanner agree with it: the local names of every statement are among the names that
occur, every place of a statement lies in the source, and the statements refer to the records in the
order in which these were filed.

* `Filed.add`: a specifier that is read finds its record, or files a new one as the last.
* `Tallies.advance`, `Tallies.push`, …: what the single operations of the scanner keep.
* `Tallies.readImport`, `Tallies.readExport`: a statement that is read in full.
-/

namespace ModuleSystem

/-! ### Statements -/

namespace Statement

/-- The record of the specifier of a statement, if it has one. -/
def record? : Statement → Option Nat
  | .imports _ i .. | .exportFrom _ i _ | .exportStar _ i | .exportStarAs _ i _ => some i
  | _ => none

/-- The names of the variables that a statement binds, declares or exports. -/
def localNames : Statement → List Text
  | .imports _ _ byDefault star items =>
    byDefault.toList.map (·.name) ++ star.toList.map (·.name) ++ items.map (·.asName)
  | .exportClause _ items => items.map (·.name)
  | .exportDeclaration _ names => names.map (·.name)
  | .exportDefault _ _ name _ => name.toList.map (·.name)
  | .exportFrom .. | .exportStar .. | .exportStarAs .. => []

/-- The places where the names of a clause stand. -/
def itemPlaces (items : List ClauseItem) : List Nat := items.flatMap fun i => [i.nameStart, i.asStart]

/-- The places where the names of a statement stand. The name of a default export stands at its
keyword. -/
def places : Statement → List Nat
  | .imports _ _ byDefault star items =>
    byDefault.toList.map (·.start) ++ star.toList.map (·.start) ++ itemPlaces items
  | .exportClause _ items | .exportFrom _ _ items => itemPlaces items
  | .exportStarAs _ _ b => [b.start]
  | .exportDeclaration _ names => names.map (·.start)
  | .exportDefault keyword .. => [keyword.start]
  | .exportStar .. => []

@[simp] theorem declare_record? (b : Binding) (st : Statement) : (st.declare b).record? = st.record? := by
  cases st <;> rfl

/-- A variable that is declared adds its name to the statement. -/
theorem mem_localNames_declare {b : Binding} {st : Statement} {t : Text}
    (h : t ∈ (st.declare b).localNames) : t ∈ st.localNames ∨ t = b.name := by
  cases st with
  | exportDeclaration keyword names => simpa [declare, localNames, or_comm] using h
  | _ => exact .inl h

/-- A variable that is declared adds its place to the statement. -/
theorem mem_places_declare {b : Binding} {st : Statement} {n : Nat}
    (h : n ∈ (st.declare b).places) : n ∈ st.places ∨ n = b.start := by
  cases st with
  | exportDeclaration keyword names => simpa [declare, places, or_comm] using h
  | _ => exact .inl h

/-- The local names of a statement are among the names that occur, and its places lie in the
source. -/
structure Noted (s : Source) (used : List Text) (st : Statement) : Prop where
  names : ∀ t ∈ st.localNames, t ∈ used
  places : ∀ n ∈ st.places, n ≤ s.contents.length

/-- A statement stays noted when more names occur. -/
theorem Noted.mono {s : Source} {used used' : List Text} {st : Statement} (h : st.Noted s used)
    (hused : used ⊆ used') : st.Noted s used' :=
  ⟨fun t ht => hused (h.names t ht), h.places⟩

end Statement

/-- The places of an item lie in the source. -/
def ClauseItem.Placed (s : Source) (i : ClauseItem) : Prop :=
  i.nameStart ≤ s.contents.length ∧ i.asStart ≤ s.contents.length

/-- The places of a clause lie in the source if those of its items do. -/
theorem itemPlaces_le {s : Source} {items : List ClauseItem} (h : ∀ i ∈ items, i.Placed s) :
    ∀ n ∈ Statement.itemPlaces items, n ≤ s.contents.length := by
  intro n hn
  obtain ⟨i, hi, hn⟩ := List.mem_flatMap.1 hn
  obtain rfl | rfl : n = i.nameStart ∨ n = i.asStart := by simpa using hn
  · exact (h i hi).1
  · exact (h i hi).2

/-- The name of a binding occurs, and its place lies in the source. -/
structure Binding.Noted (s : Source) (used : List Text) (b : Binding) : Prop where
  name : b.name ∈ used
  place : b.start ≤ s.contents.length

/-- A variable stays noted when more names occur. -/
theorem Binding.Noted.mono {s : Source} {used used' : List Text} {b : Binding} (h : b.Noted s used)
    (hused : used ⊆ used') : b.Noted s used' :=
  ⟨hused h.name, h.place⟩

/-- A declaration with another variable that is noted is noted. -/
theorem Statement.Noted.declare {s : Source} {used : List Text} {st : Statement} {b : Binding}
    (h : st.Noted s used) (hb : b.Noted s used) : (st.declare b).Noted s used where
  names t ht := (mem_localNames_declare ht).elim (h.names t) fun heq => heq ▸ hb.name
  places n hn := (mem_places_declare hn).elim (h.places n) fun heq => heq ▸ hb.place

/-! ### Records -/

/-- The records have distinct paths, and `refs`, the references to them in the order of the source,
name each record for the first time in the order of the records. -/
structure Filed (records : List ImportRecord) (refs : List Nat) : Prop where
  paths : (records.map (·.path)).Nodup
  refs : refs.eraseDups = List.range records.length

/-- The records are those that a statement refers to. -/
theorem Filed.mem_iff {records : List ImportRecord} {refs : List Nat} (h : Filed records refs) {i : Nat} :
    i ∈ refs ↔ i < records.length := by
  rw [← List.mem_eraseDups, h.refs, List.mem_range]

/-- A record with this path is at this index. -/
def HasPath (records : List ImportRecord) (i : Nat) (path : Text) : Prop :=
  ∃ r, records[i]? = some r ∧ r.path = path

namespace Scanner

/-- Filing a specifier changes no record but for what it asks of its contents. -/
theorem hasPath_addRecord {records : List ImportRecord} {i : Nat} {path' path : Text} {range : Range}
    {json : Bool} (h : HasPath records i path') : HasPath (addRecord records path range json).2 i path' := by
  obtain ⟨r, hr, rfl⟩ := h
  unfold addRecord
  split
  · rename_i j _
    refine ⟨_, by rw [List.getElem?_modify, hr]; rfl, ?_⟩
    dsimp only [Option.map]
    split <;> rfl
  · exact ⟨r, by rw [List.getElem?_append_left (List.getElem?_eq_some_iff.1 hr).1]; exact hr, rfl⟩

/-- A specifier is filed as a record with its path. -/
theorem addRecord_hasPath (records : List ImportRecord) (path : Text) (range : Range) (json : Bool) :
    HasPath (addRecord records path range json).2 (addRecord records path range json).1 path := by
  unfold addRecord
  split
  · rename_i i hfind
    obtain ⟨hi, hpath, -⟩ := List.findIdx?_eq_some_iff_getElem.1 hfind
    refine ⟨{ records[i] with json := records[i].json || json }, ?_, of_decide_eq_true hpath⟩
    rw [List.getElem?_modify, List.getElem?_eq_getElem hi]
    simp
  · exact ⟨{ path, range, json }, by simp, rfl⟩

/-- A specifier finds its record, or files a new one as the last. -/
theorem Filed.add {records : List ImportRecord} {refs : List Nat} (h : Filed records refs) (path : Text)
    (range : Range) (json : Bool) :
    Filed (addRecord records path range json).2 (refs ++ [(addRecord records path range json).1]) := by
  unfold addRecord
  split
  · rename_i i hfind
    obtain ⟨hi, -⟩ := List.findIdx?_eq_some_iff_getElem.1 hfind
    have hmem : i ∈ refs := h.mem_iff.2 hi
    refine ⟨?_, ?_⟩
    · dsimp only
      rw [map_modify_eq]
      · exact h.paths
      · exact fun _ => rfl
    · simp [List.eraseDups_append, List.removeAll, hmem, h.refs]
  · rename_i hfind
    have hnew : records.length ∉ refs := fun hmem => lt_irrefl _ (h.mem_iff.1 hmem)
    refine ⟨?_, by
      simp [List.eraseDups_append, List.removeAll, hnew, h.refs, List.range_succ, List.eraseDups_cons]⟩
    have hpath : path ∉ records.map (·.path) := by
      rintro hmem
      obtain ⟨r, hr, rfl⟩ := List.mem_map.1 hmem
      exact absurd rfl (of_decide_eq_false (List.findIdx?_eq_none_iff.1 hfind r hr))
    simpa [List.nodup_append, h.paths] using hpath

end Scanner

/-- Between two offsets a source has a string that spells the path of a record. -/
def Quotes (s : Source) (start stop : Nat) (records : List ImportRecord) (i : Nat) : Prop :=
  ∃ lx, Lexer.Met s lx ∧ lx.token.kind = .string ∧ start ≤ lx.token.start ∧ lx.token.stop ≤ stop ∧
    HasPath records i (Utf16.toText lx.token.units)

/-- A string between two offsets lies between any that are further apart. -/
theorem Quotes.mono {s : Source} {start stop stop' : Nat} {records : List ImportRecord} {i : Nat}
    (h : Quotes s start stop records i) (hstop : stop ≤ stop') : Quotes s start stop' records i := by
  obtain ⟨lx, hlx, hstring, hstart, hle, hpath⟩ := h
  exact ⟨lx, hlx, hstring, hstart, hle.trans hstop, hpath⟩

/-- The specifier of a statement spells the path of its record. -/
def Statement.Cites (s : Source) (records : List ImportRecord) (st : Statement) : Prop :=
  ∀ i ∈ st.record?, Quotes s st.cut.range.start st.cut.range.stop records i

/-! ### Ledgers -/

/-- What is to be noted by now. -/
structure Ledger where
  source : Source
  /-- All tokens from now on come after this offset. -/
  floor : Nat := 0
  /-- Names that occur. -/
  names : List Text := []
  /-- The record of the statement that is being read. -/
  cited : List Nat := []
  /-- The places where a dot ends. -/
  dots : Nat → Prop

namespace Ledger

/-- A statement is read in full, of which all comes after an offset. No dot matters there. -/
abbrev within (l : Ledger) (floor : Nat) : Ledger := { l with floor, dots := fun _ => True }

/-- The same ledger with more names. -/
abbrev note (l : Ledger) (names : List Text) : Ledger := { l with names := names ++ l.names }

/-- The statement that is being read refers to a record. -/
abbrev cite (l : Ledger) (i : Nat) : Ledger := { l with cited := [i] }

end Ledger

/-- The notes of a scanner agree with a ledger. -/
structure Scanner.Tallies (l : Ledger) (p : Scanner) : Prop where
  lexer : Lexer.Met l.source p.lexer
  floor : l.floor ≤ p.token.prevStop
  dots : p.prev = .dot ∨ p.prev = .questionDot → l.dots p.token.prevStop
  names : l.names ⊆ p.outline.usedNames
  statements : ∀ st ∈ p.outline.statements,
    st.Noted l.source p.outline.usedNames ∧ st.Cites l.source p.outline.records
  filed : Filed p.outline.records (p.outline.statements.filterMap (·.record?) ++ l.cited)
  top : ∀ b ∈ p.top.shorthand, b.Noted l.source p.outline.usedNames
  below : ∀ f ∈ p.below, ∀ b ∈ f.shorthand, b.Noted l.source p.outline.usedNames

namespace Scanner

variable {s : Source} {l : Ledger} {p p' q : Scanner} {left : Leftover}
  {floor : Nat} {keyword : Range}

/-! ### Moving on -/

/-- Moving on by hand, as a step does, keeps the notes. It has to be told where a dot ends. -/
theorem Tallies.withLexer (h : p.Tallies l) {lx : Lexer} (hlx : p.lexer.next = .ok lx) {prev : TokenKind}
    (hdots : prev = .dot ∨ prev = .questionDot → l.dots p.token.stop) (exprAllowed : Bool) :
    Tallies l { p with prev, exprAllowed, lexer := lx } := by
  have hprev : lx.token.prevStop = p.token.stop := Lexer.prevStop_of_next hlx
  have hplaces := h.lexer.places_le
  have hfloor := h.floor
  refine { h with lexer := h.lexer.next hlx, floor := ?_, dots := ?_ }
  · simp only [Scanner.token] at *
    omega
  · simpa only [Scanner.token, hprev] using hdots

theorem Tallies.advance (h : p.Tallies (l.within floor)) :
    Ensures p.advance (Tallies (l.within floor)) := by
  intro p' hp'
  obtain ⟨lx, hlx, rfl⟩ := advance_ok hp'
  exact h.withLexer hlx (fun _ => trivial) p.exprAllowed

/-- A token that is done with is left behind. -/
theorem Tallies.next (h : p.Tallies l)
    (hdots : p.token.kind = .dot ∨ p.token.kind = .questionDot → l.dots p.token.stop)
    (exprAllowed : Bool) : Ensures (p.next exprAllowed) (Tallies l) := by
  intro p' hp'
  obtain ⟨lx, hlx, rfl⟩ := next_ok hp'
  exact h.withLexer hlx hdots exprAllowed

theorem Tallies.expect (h : p.Tallies (l.within floor)) (k : TokenKind) :
    Ensures (p.expect k) (Tallies (l.within floor)) :=
  fun p' hp' => h.advance p' (expect_ok hp').2

theorem Tallies.expectWord (h : p.Tallies (l.within floor)) (word : Text) :
    Ensures (p.expectWord word) (Tallies (l.within floor)) :=
  fun p' hp' => h.advance p' (expectWord_ok hp').2

/-- All that comes now comes after the end of the last token. -/
theorem Tallies.enter (h : p.Tallies l) (hfloor : floor ≤ p.token.prevStop) : p.Tallies (l.within floor) :=
  { h with floor := hfloor, dots := fun _ => trivial }

/-- Fewer names. -/
theorem Tallies.names_mono {names : List Text} (h : p.Tallies l) (hnames : names ⊆ l.names) :
    p.Tallies { l with names } :=
  { h with names := List.Subset.trans hnames h.names }

/-! ### Single operations -/

/-- A name that is used is noted. -/
theorem Tallies.use (h : p.Tallies l) (name : Text) : (p.use name).Tallies (l.note [name]) := by
  have hsub : p.outline.usedNames ⊆ name :: p.outline.usedNames := List.subset_cons_self ..
  exact
    { h with
      names := List.cons_subset_cons name h.names
      statements := fun st hst => ⟨(h.statements st hst).1.mono hsub, (h.statements st hst).2⟩
      top := fun b hb => (h.top b hb).mono hsub
      below := fun f hf b hb => (h.below f hf b hb).mono hsub }

theorem Tallies.leave (h : p.Tallies l) (f : Leftover → Leftover) : (p.leave f).Tallies l := { h with }

/-- The innermost frame may change, as long as the variable that it remembers is noted. -/
theorem Tallies.withTop (h : p.Tallies l) {f : Frame}
    (hf : ∀ b ∈ f.shorthand, b.Noted l.source p.outline.usedNames) : Tallies l { p with top := f } :=
  { h with top := hf }

/-- A frame that is opened remembers no variable yet. -/
theorem Tallies.push (h : p.Tallies l) {f : Frame} (hf : f.shorthand = none) : (p.push f).Tallies l :=
  { h with
    top := by simp [Scanner.push, hf]
    below := by
      intro g hg
      obtain rfl | hg := List.mem_cons.1 hg
      · exact h.top
      · exact h.below g hg }

theorem Tallies.pop (h : p.Tallies l) : p.pop.Tallies l := by
  unfold Scanner.pop
  split
  · exact h
  · rename_i f below hbelow
    exact
      { h with
        top := h.below f (by simp [hbelow])
        below := fun g hg => h.below g (by simp [hbelow, hg]) }

theorem Tallies.closeWhile (h : p.Tallies l) (closes : PendingClose → Bool) :
    (p.closeWhile closes).Tallies l := { h with }

theorem Tallies.closeWrites (h : p.Tallies l) (depth : Nat) : (p.closeWrites depth).Tallies l :=
  h.closeWhile _

/-- The notes say nothing about the writes that are forgotten. -/
theorem Tallies.discardWrites (h : p.Tallies l) (count : Nat) : (p.discardWrites count).Tallies l := by
  unfold Scanner.discardWrites
  split
  · exact h
  · exact { h with }

theorem Tallies.addWrite (h : p.Tallies l) (targets : List Binding) (start stop : Nat) :
    (p.addWrite targets start stop).Tallies l := { h with }

theorem Tallies.startWrite (h : p.Tallies l) (targets : List Binding) (start : Nat) :
    (p.startWrite targets start).Tallies l := { h with }

theorem Tallies.startDeclaration (h : p.Tallies l) (export? : Option Nat) :
    (p.startDeclaration export?).Tallies l := { h with }

theorem Tallies.endStatement (h : p.Tallies l) : p.endStatement.Tallies l := { h with }

/-- A variable that is added to a declaration has to be noted. -/
theorem Tallies.addBinding (h : p.Tallies l) {b : Binding} (hb : b.Noted l.source p.outline.usedNames)
    (declFrame : Nat) : (p.addBinding declFrame b).Tallies l := by
  unfold Scanner.addBinding
  split
  · exact h
  · rename_i i _
    refine { h with statements := fun st hst => ?_, filed := ?_ }
    · obtain ⟨j, hj⟩ := List.mem_iff_getElem?.1 hst
      rw [List.getElem?_modify] at hj
      obtain ⟨st', hst', rfl⟩ := Option.map_eq_some_iff.1 hj
      obtain ⟨hnoted, hcites⟩ := h.statements st' (List.mem_of_getElem? hst')
      split
      · exact ⟨hnoted.declare hb, by simpa [Statement.Cites] using hcites⟩
      · exact ⟨hnoted, hcites⟩
    · have hrefs : ∀ sts : List Statement, sts.filterMap (·.record?) =
          (sts.map (·.record?)).filterMap id := fun sts => by simp
      rw [hrefs, map_modify_eq (Statement.declare_record? b), ← hrefs]
      exact h.filed

/-- Closing a bracket notes nothing down. -/
theorem Tallies.close (h : p.Tallies l) :
    Ensures p.close fun p' => p'.Tallies l ∧ p'.lexer = p.lexer := by
  unfold Scanner.close
  split
  · exact .error
  · refine .ok ⟨{ (h.closeWrites p.depth).pop with }, ?_⟩
    simp only [Scanner.pop]
    split <;> rfl

theorem Tallies.ite {c : Prop} [Decidable c] (hp : p.Tallies l) (hq : q.Tallies l) :
    (if c then p else q).Tallies l := by
  split
  · exact hp
  · exact hq

/-! ### Names and clauses -/

/-- The current token starts in the source. -/
theorem Tallies.start_le (h : p.Tallies l) : p.token.start ≤ l.source.contents.length := by
  have hplaces := h.lexer.places_le
  simp only [Scanner.token]
  omega

theorem Tallies.prevStop_le (h : p.Tallies l) : p.token.prevStop ≤ l.source.contents.length :=
  h.lexer.places_le.1.trans h.start_le

/-- The name of a variable that is read is noted, and its place lies in the source. -/
theorem Tallies.readBinding (h : p.Tallies (l.within floor)) :
    Ensures p.readBinding fun r => r.2.Tallies ((l.note [r.1.name]).within floor) ∧
      r.1.start ≤ l.source.contents.length := by
  rintro ⟨b, p'⟩ hr
  obtain ⟨-, rfl, moved⟩ := readBinding_ok _ hr
  exact ⟨Tallies.advance (l := l.note [p.token.name]) (h.use p.token.name) p' moved, h.start_le⟩

/-- The name of an export is not noted, as it is no variable; its place lies in the source. -/
theorem Tallies.readExportName (h : p.Tallies (l.within floor)) :
    Ensures p.readExportName fun r => r.2.Tallies (l.within floor) ∧
      r.1.range.start ≤ l.source.contents.length := by
  intro r hr
  cases readExportName_ok r hr with
  | string _ _ moved | word _ moved => exact ⟨h.advance _ moved, h.start_le⟩

/-- An attribute notes nothing down. -/
theorem Tallies.readAttribute (h : p.Tallies (l.within floor)) :
    Ensures p.readAttribute (Tallies (l.within floor)) := by
  intro p' hp'
  obtain ⟨p₁, p₂, -, moved, colon, -, moved'⟩ := readAttribute_ok p' hp'
  exact ((h.advance p₁ moved).expect _ p₂ colon).advance p' moved'

/-- The names of the items of a clause are noted one after the other. -/
theorem Tallies.items {α : Type} {item : Scanner → Except Fault (α × Scanner)} {f : α → List Text}
    {Q : α → Prop}
    (hitem : ∀ (l : Ledger) (p : Scanner), p.Tallies (l.within floor) → l.source = s →
      Ensures (item p) fun r => r.2.Tallies ((l.note (f r.1)).within floor) ∧ Q r.1)
    {r : List α × Scanner} (hr : Items item p r) (h : p.Tallies (l.within floor)) (hs : l.source = s) :
    r.2.Tallies ((l.note (r.1.flatMap f)).within floor) ∧ ∀ a ∈ r.1, Q a := by
  induction hr generalizing l with
  | nil => exact ⟨h, by simp⟩
  | last read =>
      obtain ⟨hq, ha⟩ := hitem l _ h hs _ read
      exact ⟨by simpa using hq, by simpa using ha⟩
  | @cons p q q' r a as read _ moved _ ih =>
      obtain ⟨hq, ha⟩ := hitem l _ h hs _ read
      obtain ⟨hr, has⟩ := ih (l := l.note (f a)) (Tallies.advance hq _ moved) hs
      refine ⟨hr.names_mono ?_, List.forall_mem_cons.2 ⟨ha, has⟩⟩
      simp only [List.flatMap_cons]
      grind

/-- What the items of a list in braces note, the list notes. -/
theorem Tallies.readBraced {α : Type} {item : Scanner → Except Fault (α × Scanner)} {f : α → List Text}
    {Q : α → Prop}
    (hitem : ∀ (l : Ledger) (p : Scanner), p.Tallies (l.within floor) → l.source = s →
      Ensures (item p) fun r => r.2.Tallies ((l.note (f r.1)).within floor) ∧ Q r.1)
    (h : p.Tallies (l.within floor)) (hs : l.source = s) :
    Ensures (p.readBraced item) fun r =>
      r.2.Tallies ((l.note (r.1.flatMap f)).within floor) ∧ ∀ a ∈ r.1, Q a := by
  intro r hr
  obtain ⟨p₁, p₂, opened, items, closed⟩ := readBraced_ok r hr
  obtain ⟨h₂, has⟩ := Tallies.items hitem items (h.expect _ p₁ opened) hs
  exact ⟨Tallies.expect h₂ _ r.2 closed, has⟩

/-- The attributes of an import note nothing down. -/
theorem Tallies.readAttributes (h : p.Tallies (l.within floor)) :
    Ensures p.readAttributes fun r => r.2.Tallies (l.within floor) := by
  unfold Scanner.readAttributes
  refine h.advance.bind fun p₁ h₁ => ?_
  refine (Tallies.readBraced (f := fun _ => []) (Q := fun _ => True) (fun l p hp _ => ?_) h₁ rfl).bind
    fun r hr => .ok (hr.1.names_mono (by simp))
  exact hp.readAttribute.bind fun p' hp' => .ok ⟨hp', trivial⟩

/-- All that comes after the current token comes after its end. -/
theorem Tallies.specifies (h : p.Tallies (l.within floor)) {r : Bool × Scanner} (hr : Specifies p r) :
    r.2.Tallies (l.within p.token.stop) := by
  have hadvance : ∀ {q}, p.advance = .ok q → q.Tallies (l.within p.token.stop) := fun moved =>
    { h.advance _ moved with floor := (prevStop_of_advance moved).ge }
  cases hr with
  | bare moved => exact hadvance moved
  | withAttributes moved _ attributes => exact (hadvance moved).readAttributes r attributes

/-- The specifier that was read stands before the current token, and its path is that of the record. -/
theorem Tallies.readSpecifier (h : p.Tallies (l.within floor)) (hcited : l.cited = []) :
    Ensures p.readSpecifier fun r => r.2.Tallies ((l.cite r.1).within floor) ∧
      Quotes l.source floor r.2.token.prevStop r.2.outline.records r.1 := by
  intro r hr
  obtain ⟨hkind, json, p₁, hspecifies, rfl⟩ := readSpecifier_ok r hr
  have h₁ : p₁.Tallies (l.within p.token.stop) := h.specifies hspecifies
  have hplaces := h.lexer.places_le
  have hstart : floor ≤ p.token.start := h.floor.trans hplaces.1
  refine ⟨{ h₁ with floor := ?_, statements := fun st hst => ?_, filed := ?_ }, ?_⟩
  · exact (hstart.trans hplaces.2.1).trans h₁.floor
  · obtain ⟨hnoted, hcites⟩ := h₁.statements st hst
    refine ⟨hnoted, fun i hi => ?_⟩
    obtain ⟨lx, hlx, hstring, hle, hle', hpath⟩ := hcites i hi
    exact ⟨lx, hlx, hstring, hle, hle', hasPath_addRecord hpath⟩
  · have hfiled := h₁.filed
    rw [hcited, List.append_nil] at hfiled
    exact Filed.add hfiled _ _ _
  · exact ⟨p.lexer, h.lexer, hkind, hstart, h₁.floor, addRecord_hasPath ..⟩

/-! ### Statements that are read in full -/

/-- A statement may be added that is noted, and quotes the specifier that was filed for it. -/
theorem Tallies.addStatement (h : p.Tallies l) (st : Statement) (hcited : l.cited = st.record?.toList)
    (hnoted : st.Noted l.source l.names) (hcites : st.Cites l.source p.outline.records) :
    (p.addStatement st).Tallies { l with cited := [] } := by
  refine { h with statements := fun st' hst' => ?_, filed := ?_ }
  · obtain hst' | hst' := List.mem_append.1 hst'
    · exact h.statements st' hst'
    · cases List.mem_singleton.1 hst'
      exact ⟨hnoted.mono h.names, hcites⟩
  · have hfiled := h.filed
    rw [hcited] at hfiled
    cases hrecord : st.record? <;>
      simpa [Scanner.addStatement, List.filterMap_cons, hrecord] using hfiled

/-- A statement was read of which all came after an offset, and the last token was no dot. -/
def Completes (l : Ledger) (floor : Nat) (p : Scanner) : Prop :=
  p.Tallies (l.within floor) ∧ p.prev ≠ .dot ∧ p.prev ≠ .questionDot

/-- Behind a statement that was read, the notes agree with the ledger around it. -/
theorem Completes.exit (h : Completes l floor p) (hfloor : l.floor ≤ floor) : p.Tallies l :=
  { h.1 with
    floor := hfloor.trans h.1.floor
    dots := fun hdot => (hdot.elim h.2.1 h.2.2).elim }

/-- A statement ends with any token but a dot. -/
theorem Tallies.next_completes (h : p.Tallies (l.within floor))
    (hkind : p.token.kind ≠ .dot ∧ p.token.kind ≠ .questionDot) (exprAllowed : Bool) :
    Ensures (p.next exprAllowed) (Completes l floor) := by
  intro p' hp'
  have hnext := h.next (fun _ => trivial) exprAllowed p' hp'
  obtain ⟨lx, -, rfl⟩ := next_ok hp'
  exact ⟨hnext, hkind⟩

/-- A statement ends with its semicolon, or with the token before the current one. -/
theorem Tallies.finishStatement {st : Range → Statement} (i? : Option Nat)
    (h : p.Tallies ({ l with cited := i?.toList }.within floor)) (hcited : l.cited = [])
    (done : p.finishStatement floor st = .ok p')
    (hrecord : ∀ r, (st r).record? = i?) (hcut : ∀ r, (st r).cut = ⟨r, true⟩)
    (hnoted : ∀ r, (st r).Noted l.source l.names)
    (hquotes : ∀ i ∈ i?, Quotes l.source floor p.token.prevStop p.outline.records i) :
    Completes l floor p' := by
  obtain ⟨p₁, hp₁, rfl⟩ := finishStatement_ok p' done
  have h₁ : p₁.Tallies ({ l with cited := i?.toList }.within floor) ∧
      ∀ i ∈ i?, Quotes l.source floor p₁.token.prevStop p₁.outline.records i := by
    obtain rfl | ⟨-, moved⟩ := hp₁
    · exact ⟨h, hquotes⟩
    · refine ⟨h.advance p₁ moved, fun i hi => ?_⟩
      have hplaces := h.lexer.places_le
      have hprev := prevStop_of_advance moved
      obtain ⟨lx, -, rfl⟩ := advance_ok moved
      refine (hquotes i hi).mono ?_
      simp only [Scanner.token] at *
      omega
  obtain ⟨h₁, hquotes₁⟩ := h₁
  have hadd := h₁.addStatement (st (.between floor p₁.token.prevStop)) (by rw [hrecord]) (hnoted _) fun i hi => by
    rw [hrecord] at hi
    rw [hcut, stop_between h₁.floor]
    exact hquotes₁ i hi
  exact ⟨{ hadd with filed := hcited ▸ hadd.filed, dots := fun _ => trivial }, by simp, by simp⟩

/-- The name of a namespace is noted. -/
theorem Tallies.readStar (h : p.Tallies (l.within floor)) :
    Ensures p.readStar fun r => r.2.Tallies ((l.note [r.1.name]).within floor) ∧
      r.1.start ≤ l.source.contents.length := by
  intro r hr
  obtain ⟨p₁, p₂, star, word, binding⟩ := readStar_ok r hr
  exact ((h.expect _ p₁ star).expectWord _ p₂ word).readBinding r binding

/-- An item of an import clause notes its local name. -/
theorem Tallies.readImportItem (h : p.Tallies (l.within floor)) :
    Ensures p.readImportItem fun r => r.2.Tallies ((l.note [r.1.asName]).within floor) ∧
      r.1.Placed l.source := by
  intro r hr
  cases readImportItem_ok r hr with
  | renamed name _ moved binding =>
      obtain ⟨h₁, hn⟩ := h.readExportName _ name
      obtain ⟨h₂, hb⟩ := (h₁.advance _ moved).readBinding _ binding
      exact ⟨h₂, hn, hb⟩
  | plain name =>
      obtain ⟨h₁, hn⟩ := h.readExportName _ name
      exact ⟨h₁.use _, hn, hn⟩

/-- The variable at the head of an import is noted. -/
theorem Tallies.importHead (h : p.Tallies (l.within floor)) {d : Option Binding} (hd : ImportHead p d p') :
    p'.Tallies ((l.note (d.toList.map (·.name))).within floor) ∧ ∀ b ∈ d, b.start ≤ l.source.contents.length := by
  cases hd with
  | none => exact ⟨h, by simp⟩
  | some binding _ moved =>
      obtain ⟨h₁, hb⟩ := h.readBinding _ binding
      exact ⟨Tallies.advance h₁ _ moved, by simpa using hb⟩

/-- All local names of an import are noted. -/
theorem Tallies.importNames (h : p.Tallies (l.within floor)) {d star : Option Binding} {items : List ClauseItem}
    (hnames : ImportNames p d star items p') :
    p'.Tallies ((l.note (d.toList.map (·.name) ++ star.toList.map (·.name) ++ items.map (·.asName))).within floor) ∧
      (∀ b ∈ d, b.start ≤ l.source.contents.length) ∧ (∀ b ∈ star, b.start ≤ l.source.contents.length) ∧
      ∀ i ∈ items, i.Placed l.source := by
  cases hnames with
  | bare => exact ⟨h, by simp⟩
  | byDefault binding word =>
      obtain ⟨h₁, hb⟩ := h.readBinding _ binding
      exact ⟨Tallies.expectWord h₁ _ _ word, by simpa using hb, by simp⟩
  | star head star word =>
      obtain ⟨h₁, hd⟩ := h.importHead head
      obtain ⟨h₂, hb⟩ := Tallies.readStar h₁ _ star
      refine ⟨(Tallies.expectWord h₂ _ _ word).names_mono ?_, hd, by simpa using hb, by simp⟩
      grind
  | braced head braced word =>
      obtain ⟨h₁, hd⟩ := h.importHead head
      obtain ⟨h₂, hitems⟩ := Tallies.readBraced (f := fun i => [i.asName]) (Q := fun i => i.Placed l.source)
        (fun l' p hp hs => hs ▸ hp.readImportItem) h₁ rfl _ braced
      refine ⟨(Tallies.expectWord h₂ _ _ word).names_mono ?_, hd, by simp, hitems⟩
      simp
      grind

/-- An import statement notes its local names and files its specifier. -/
theorem Tallies.readImport (h : p.Tallies (l.within floor)) (hcited : l.cited = []) :
    Ensures (p.readImport floor) (Completes l floor) := by
  intro q hq
  obtain ⟨d, star, items, p₁, record, p₂, names, specifier, done⟩ := readImport_ok floor q hq
  obtain ⟨h₁, hd, hstar, hitems⟩ := h.importNames names
  obtain ⟨h₂, hquotes⟩ := Tallies.readSpecifier h₁ hcited _ specifier
  have hplaces : ∀ r, ∀ n ∈ (Statement.imports r record d star items).places, n ≤ l.source.contents.length := by
    intro r n hn
    simp only [Statement.places, List.mem_append, List.mem_map, Option.mem_toList] at hn
    obtain (⟨b, hb, rfl⟩ | ⟨b, hb, rfl⟩) | hn := hn
    · exact hd b hb
    · exact hstar b hb
    · exact itemPlaces_le hitems n hn
  obtain ⟨hdone, hdot⟩ := Tallies.finishStatement (some record) h₂ hcited done (fun _ => rfl) (fun _ => rfl)
    (fun r => ⟨fun t ht => List.mem_append_left _ ht, hplaces r⟩) (by rintro _ ⟨⟩; exact hquotes)
  exact ⟨hdone.names_mono (List.subset_append_right ..), hdot⟩

/-- The name that an item of an export clause uses as that of a variable. -/
def usedBy (a : ClauseItem × Option Range) : List Text := if a.2 = none then [a.1.name] else []

/-- An item of an export clause notes its name if that is a variable. -/
theorem Tallies.readExportItem (h : p.Tallies (l.within floor)) :
    Ensures p.readExportItem fun r =>
      r.2.Tallies ((l.note (usedBy r.1)).within floor) ∧ r.1.1.Placed l.source := by
  have huse : ∀ {n : ExportName} {q : Scanner}, q.Tallies (l.within floor) →
      (if n.isIdentifier then q.use n.name else q).Tallies
        ((l.note (if (if n.isIdentifier then none else some n.range) = none then [n.name] else [])).within floor) := by
    intro n q hq
    split
    · exact hq.use n.name
    · exact hq
  intro r hr
  cases readExportItem_ok r hr with
  | renamed name _ moved other =>
      obtain ⟨h₁, hn⟩ := h.readExportName _ name
      obtain ⟨h₂, ha⟩ := Tallies.readExportName (Tallies.advance (huse h₁) _ moved) _ other
      exact ⟨h₂, hn, ha⟩
  | plain name =>
      obtain ⟨h₁, hn⟩ := h.readExportName _ name
      exact ⟨huse h₁, hn, hn⟩

/-- An export clause notes the names of its items that are variables. -/
theorem Tallies.exportItems (h : p.Tallies (l.within floor)) :
    Ensures (p.readBraced Scanner.readExportItem) fun r => r.2.Tallies ((l.note (r.1.flatMap usedBy)).within floor) ∧
      ∀ i ∈ r.1.map (·.1), i.Placed l.source := by
  intro r hr
  obtain ⟨hq, hitems⟩ := Tallies.readBraced (f := usedBy) (Q := fun a => a.1.Placed l.source)
    (fun l' p hp hs => hs ▸ hp.readExportItem) h rfl r hr
  exact ⟨hq, List.forall_mem_map.2 hitems⟩

theorem Tallies.skipKeyword (h : p.Tallies (l.within floor)) :
    Ensures p.skipKeyword fun r => r.2.Tallies (l.within floor) := by
  intro r hr
  obtain ⟨-, p₁, moved, hstar⟩ := skipKeyword_ok r hr
  obtain hstar | ⟨-, moved'⟩ := hstar
  · exact hstar ▸ h.advance p₁ moved
  · exact (h.advance p₁ moved).advance r.2 moved'

/-- A declaration is exported, of which the body follows. -/
theorem completes_expectBody (st : Statement) (h : p.Tallies (l.within floor)) (hcited : l.cited = [])
    (hrecord : st.record? = none) (hnoted : st.Noted l.source l.names) (isClass : Bool) :
    Completes l floor ((p.addStatement st).expectBody isClass) := by
  have hadd := h.addStatement st (by rw [hcited, hrecord]; rfl) hnoted
    (by simp [Statement.Cites, hrecord])
  exact ⟨{ hadd with filed := hcited ▸ hadd.filed, dots := fun _ => trivial }, nofun, nofun⟩

/-- An exported function or class notes its name. -/
theorem Tallies.readExportedBody (h : p.Tallies (l.within floor)) (hcited : l.cited = []) (keyword : Range) :
    Ensures (p.readExportedBody keyword) (Completes l floor) := by
  intro q hq
  obtain ⟨isClass, p₁, b, p₂, skipped, binding, rfl⟩ := readExportedBody_ok keyword q hq
  obtain ⟨h₂, hb⟩ := (h.skipKeyword _ skipped).readBinding _ binding
  obtain ⟨hdone, hdot⟩ := completes_expectBody (.exportDeclaration keyword [b]) h₂ hcited rfl
    ⟨by simp [Statement.localNames], by simpa [Statement.places] using hb⟩ isClass
  exact ⟨hdone.names_mono (List.subset_append_right ..), hdot⟩

/-- An exported declaration starts without a variable, so nothing is noted yet. -/
theorem Tallies.readExportedVariables (h : p.Tallies (l.within floor)) (hcited : l.cited = [])
    (hkind : p.token.kind ≠ .dot ∧ p.token.kind ≠ .questionDot) (keyword : Range) :
    Ensures (p.readExportedVariables keyword) (Completes l floor) := by
  unfold Scanner.readExportedVariables
  have hadd := h.addStatement (.exportDeclaration keyword []) (by rw [hcited]; rfl)
    ⟨by simp [Statement.localNames], by simp [Statement.places]⟩ (by simp [Statement.Cites, Statement.record?])
  refine (Tallies.next_completes (l := { l with cited := [] })
    (hadd.startDeclaration (some p.outline.statements.length)) hkind true).mono fun p' hp' => ⟨?_, hp'.2⟩
  exact { hp'.1 with filed := hcited ▸ hp'.1.filed }

/-- A default export notes the name of its function or class, if it has one. -/
theorem Tallies.defaultExport (h : p.Tallies (l.within floor)) (hcited : l.cited = [])
    (he : DefaultExport keyword p p') (hplace : keyword.start ≤ l.source.contents.length) :
    Completes l floor p' := by
  have hnoted : ∀ kind place, (Statement.exportDefault keyword kind none place).Noted l.source l.names :=
    fun _ _ => ⟨by simp [Statement.localNames], by simpa [Statement.places] using hplace⟩
  cases he with
  | expression prev exprAllowed hprev =>
      have hexpression := h.addStatement _ (by rw [hcited]; rfl) (hnoted .expression 0)
        (by simp [Statement.Cites, Statement.record?])
      refine ⟨{ hexpression with filed := hcited ▸ hexpression.filed, dots := fun _ => trivial }, ?_⟩
      obtain rfl | rfl := hprev <;> exact ⟨nofun, nofun⟩
  | @named isClass p₁ b p₂ kind _ skipped binding =>
      obtain ⟨h₂, -⟩ := (h.skipKeyword _ skipped).readBinding _ binding
      obtain ⟨hdone, hdot⟩ := completes_expectBody (.exportDefault keyword kind (some b) 0) h₂ hcited
        rfl ⟨by simp [Statement.localNames], by simpa [Statement.places] using hplace⟩ isClass
      exact ⟨hdone.names_mono (List.subset_append_right ..), hdot⟩
  | unnamed kind _ skipped => exact completes_expectBody _ (h.skipKeyword _ skipped) hcited rfl (hnoted kind _) _

/-- A default export files no specifier. -/
theorem Tallies.readExportDefault (h : p.Tallies (l.within keyword.start)) (hcited : l.cited = []) :
    Ensures (p.readExportDefault keyword) (Completes l keyword.start) := by
  intro q hq
  obtain ⟨p₁, p₂, moved, hasync, he⟩ := readExportDefault_ok keyword q hq
  have h₁ := h.advance p₁ moved
  refine Tallies.defaultExport ?_ hcited he (h.floor.trans h.prevStop_le)
  obtain rfl | ⟨-, moved'⟩ := hasync
  · exact h₁
  · exact (Tallies.advance (l := l.note [Text.ofString "async"]) (h₁.use _) p₂ moved').names_mono
      (List.subset_append_right ..)

/-- An export statement of any kind notes its local names, and files its specifier if it has one. -/
theorem Tallies.readExport (h : p.Tallies l) (hcited : l.cited = []) :
    Ensures p.readExport (Completes l p.token.start) := by
  intro q hq
  obtain ⟨p₁, moved, he⟩ := readExport_ok q hq
  have h₁ : p₁.Tallies (l.within p.token.range.start) := by
    have hplaces := h.lexer.places_le
    refine { (h.enter (Nat.zero_le p.token.prevStop)).advance p₁ moved with floor := ?_ }
    show p.token.start ≤ p₁.token.prevStop
    rw [prevStop_of_advance moved]
    exact hplaces.2.1
  cases he with
  | star _ moved₂ word specifier done =>
      obtain ⟨h₂, hquotes⟩ := ((h₁.advance _ moved₂).expectWord _ _ word).readSpecifier hcited _ specifier
      exact Tallies.finishStatement (some _) h₂ hcited done (fun _ => rfl) (fun _ => rfl)
        (fun _ => ⟨by simp [Statement.localNames], by simp [Statement.places]⟩) (by rintro _ ⟨⟩; exact hquotes)
  | starAs _ moved₂ _ moved₃ name word specifier done =>
      obtain ⟨h₃, hn⟩ := ((h₁.advance _ moved₂).advance _ moved₃).readExportName _ name
      obtain ⟨h₄, hquotes⟩ := (h₃.expectWord _ _ word).readSpecifier hcited _ specifier
      exact Tallies.finishStatement (some _) h₄ hcited done (fun _ => rfl) (fun _ => rfl)
        (fun _ => ⟨by simp [Statement.localNames], by simpa [Statement.places] using hn⟩)
        (by rintro _ ⟨⟩; exact hquotes)
  | clauseFrom braced _ moved₃ specifier done =>
      obtain ⟨h₂, hitems⟩ := h₁.exportItems _ braced
      obtain ⟨h₃, hquotes⟩ := (Tallies.advance h₂ _ moved₃).readSpecifier hcited _ specifier
      obtain ⟨hdone, hdot⟩ := Tallies.finishStatement (some _) h₃ hcited done (fun _ => rfl) (fun _ => rfl)
        (fun _ => ⟨by simp [Statement.localNames], by exact itemPlaces_le hitems⟩)
        (by rintro _ ⟨⟩; exact hquotes)
      exact ⟨hdone.names_mono (List.subset_append_right ..), hdot⟩
  | @clause items p₂ _ braced plain done =>
      obtain ⟨h₂, hitems⟩ := h₁.exportItems _ braced
      -- every item of a clause of its own is a variable
      have hnames : ∀ t ∈ (items.map (·.1)).map (·.name), t ∈ items.flatMap usedBy ++ l.names := by
        intro t ht
        obtain ⟨i, hi, rfl⟩ := List.mem_map.1 ht
        obtain ⟨a, ha, rfl⟩ := List.mem_map.1 hi
        exact List.mem_append_left _ (List.mem_flatMap.2 ⟨a, ha, by simp [usedBy, plain a ha]⟩)
      have hfiled : Filed _ (_ ++ l.cited) := h₂.filed
      rw [hcited] at hfiled
      obtain ⟨hdone, hdot⟩ := Tallies.finishStatement
        (l := l.note (items.flatMap usedBy)) none { h₂ with filed := hfiled } hcited done (fun _ => rfl)
        (fun _ => rfl) (fun _ => ⟨hnames, by exact itemPlaces_le hitems⟩) (by simp)
      exact ⟨hdone.names_mono (List.subset_append_right ..), hdot⟩
  | byDefault _ read => exact h₁.readExportDefault hcited q read
  | declaration hkind read =>
      exact h₁.readExportedVariables hcited (by obtain hkind | hkind | hkind := hkind <;> simp [hkind]) p.token.range q read
  | body _ read => exact h₁.readExportedBody hcited p.token.range q read
  | async _ moved₂ _ read => exact (h₁.advance _ moved₂).readExportedBody hcited p.token.range q read

end Scanner

end ModuleSystem

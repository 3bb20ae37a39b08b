import ModuleSystem.Proofs.Compile.Lines
import ModuleSystem.Proofs.Lexer.Adjacent
import ModuleSystem.Proofs.Lexer.Brackets

/-!
# Printing — the object literals of a prologue

A prologue passes object literals to the runtime: one with a getter for each export, and one for each record
with a setter for each name that is imported from it.  `ObjectLiteral.evaluate?` reads a literal from tokens and
makes its object: an entry creates the own property of its key or overwrites it, except that the key `__proto__`
sets the prototype and creates none.

* `Print.prologueTokens`, `Print.prologue_spells`: the tokens of a prologue.
* `Print.names_registered`: the own keys are all names, apart from `__proto__`.
* `Print.name_lost`: an export that is announced under no key.
-/

namespace ModuleSystem

/-! ### Evaluating object literals -/

namespace ObjectLiteral

/-- Where the reading of an object literal stands. -/
inductive Stage where
  | key
  | colon
  /-- Before the first token of a value. -/
  | value
  /-- Behind the first token of a value, with these brackets open in it. -/
  | within (nested : List Bracket)

/-- The keys of an object literal, in their order, from the tokens behind its first brace. Keys are strings, and
a value goes on up to a comma or a brace that stands in none of its brackets. -/
def keys : Stage → List Symbol → Option (List Text)
  | _, [] => none
  | .key, x :: xs =>
    if x.kind = .closeBrace then some []
    else if x.kind = .string then (keys .colon xs).map (Utf16.toText x.units :: ·)
    else none
  | .colon, x :: xs => if x.kind = .colon then keys .value xs else none
  | .value, x :: xs =>
    if x.kind = .comma then none
    else (Bracket.pass [] x.kind).bind fun nested => keys (.within nested) xs
  | .within nested, x :: xs =>
    if nested = [] ∧ x.kind = .comma then keys .key xs
    else if nested = [] ∧ x.kind = .closeBrace then some []
    else (Bracket.pass nested x.kind).bind fun nested => keys (.within nested) xs

/-- The key that sets the prototype. -/
def prototypeKey : Text := "__proto__"

/-- What an entry does to the own keys of an object. -/
def define (own : List Text) (key : Text) : List Text :=
  if key == prototypeKey || own.contains key then own else own ++ [key]

/-- The own keys of the object that the literal at the beginning of the tokens makes. -/
def evaluate? : List Symbol → Option (List Text)
  | [] => none
  | x :: xs => if x.kind = .openBrace then (keys .key xs).map (·.foldl define []) else none

end ObjectLiteral

/-- Local names are identifiers, and all other names are those of some code units. -/
def Interface.Named (i : Interface) : Prop :=
  i.All (fun t => ∃ us, t = Utf16.toText us) fun t => isIdentifier t = true

namespace Print

open Lexer (Spells)

/-- The tokens up to the arguments of a method. -/
def callee (runtime method : Text) : List Symbol :=
  [.word runtime, .mark .dot, .word method, .mark .openParen]

/-- What stands behind the parenthesis of each call of a method. -/
def argumentsOf (runtime method : Text) : List Symbol → List (List Symbol)
  | [] => []
  | x :: xs =>
    (if (callee runtime method).isPrefixOf (x :: xs) then [xs.drop 3] else []) ++ argumentsOf runtime method xs

/-- The own keys of what is passed to the runtime for the exports. A module without exports makes no call. -/
def exportKeys (runtime : Text) (xs : List Symbol) : Option (List Text) :=
  match argumentsOf runtime "export" xs with
  | [] => some []
  | [ys] => ObjectLiteral.evaluate? ys
  | _ => none

/-- The specifier of a record, and the own keys of what is passed for it. -/
def recordKeys? : List Symbol → Option (Text × List Text)
  | path :: comma :: ys =>
    if path.kind = .string ∧ comma.kind = .comma then
      (ObjectLiteral.evaluate? ys).map (Utf16.toText path.units, ·)
    else none
  | _ => none

/-- The keys of each call for a record. A record of which nothing is imported has none. -/
def importKeys (runtime : Text) (xs : List Symbol) : Option (List (Text × List Text)) :=
  (argumentsOf runtime "import" xs).mapM recordKeys?

/-- The distinct names that are imported from a record. -/
def aliases (i : Interface) (record : Nat) : List Text :=
  ((i.namedImports.filter (·.record = record)).map (·.importName)).eraseDups

/-- The imports of a name from a record. -/
def importsOf (i : Interface) (record : Nat) (name : Text) : List NamedImport :=
  (i.namedImports.filter (·.record = record)).filter (·.importName = name)

/-! ### The tokens of a prologue -/

/-- The tokens of a text between quotes. -/
def quoted (t : Text) : Symbol := .string (Utf16.ofText t)

def exportEntry (e : LocalExport) : List Symbol :=
  [quoted e.name, .mark .colon, .mark .openParen, .mark .closeParen, .mark .equalsGreaterThan, .word e.localName]

def exportTokens (i : Interface) (n : GeneratedNames) : List Symbol :=
  if i.localExports.isEmpty then []
  else
    callee n.runtime "export" ++ Symbol.mark .openBrace ::
      (List.intercalate [Symbol.mark .comma] (i.localExports.map exportEntry) ++
        [Symbol.mark .closeBrace, .mark .closeParen, .mark .semicolon])

def declarationTokens (i : Interface) : List Symbol :=
  if i.namedImports.isEmpty then []
  else
    .word "let" :: (List.intercalate [Symbol.mark .comma]
      ((i.namedImports.map (·.localName)).eraseDups.map fun t => [Symbol.word t]) ++ [Symbol.mark .semicolon])

def assignTokens (n : GeneratedNames) (m : NamedImport) : List Symbol :=
  [.word m.localName, .mark .assign, .word n.value, .mark .semicolon]

def importEntry (i : Interface) (n : GeneratedNames) (record : Nat) (name : Text) : List Symbol :=
  quoted name :: .mark .colon :: .mark .openParen :: .word n.value :: .mark .closeParen ::
    .mark .equalsGreaterThan :: .mark .openBrace ::
    ((importsOf i record name).flatMap (assignTokens n) ++ [Symbol.mark .closeBrace])

def importTokens (i : Interface) (n : GeneratedNames) (path : Text) (record : Nat) : List Symbol :=
  if (aliases i record).isEmpty then []
  else
    callee n.runtime "import" ++ quoted path :: .mark .comma :: .mark .openBrace ::
      (List.intercalate [Symbol.mark .comma] ((aliases i record).map (importEntry i n record)) ++
        [Symbol.mark .closeBrace, .mark .closeParen, .mark .semicolon])

/-- The tokens of a prologue. -/
def prologueTokens (i : Interface) (n : GeneratedNames) : List Symbol :=
  [Symbol.mark .openParen, .word "function", .mark .asterisk, .mark .openParen, .word n.runtime,
    .mark .closeParen, .mark .openBrace, quoted "use strict", .mark .semicolon] ++ exportTokens i n ++ declarationTokens i ++
    i.records.zipIdx.flatMap (fun (r, k) => importTokens i n r.path k) ++ [Symbol.word "yield", .mark .semicolon]

variable {i : Interface} {n : GeneratedNames}

section Spelling

open Lexer

theorem spells_colon : Spells (· == 32) [58] [.mark .colon] :=
  Spells.apart (Piece.reads_mark (e := ([58], .colon)) (by decide) (by decide))

theorem spells_comma : Spells (· == 32) [44] [.mark .comma] :=
  Spells.apart (Piece.reads_mark (e := ([44], .comma)) (by decide) (by decide))

theorem spells_asterisk : Spells (· == 32) [42] [.mark .asterisk] :=
  Spells.apart (Piece.reads_mark (e := ([42], .asterisk)) (by decide) (by decide))

theorem spells_equals : Spells (· == 32) [61] [.mark .assign] :=
  Spells.apart (Piece.reads_mark (e := ([61], .assign)) (by decide) (by decide))

theorem spells_arrow : Spells (· == 32) [61, 62] [.mark .equalsGreaterThan] :=
  Spells.apart (Piece.reads_mark (e := ([61, 62], .equalsGreaterThan)) (by decide) (by decide))

theorem spells_openParen : Spells any [40] [.mark .openParen] := Spells.mark rfl

theorem spells_closeParen : Spells any [41] [.mark .closeParen] := Spells.mark rfl

theorem spells_semicolon : Spells any [59] [.mark .semicolon] := Spells.mark rfl

theorem spells_openBrace : Spells any [123] [.mark .openBrace] := Spells.mark rfl

theorem spells_closeBrace : Spells any [125] [.mark .closeBrace] := Spells.mark rfl

/-- The literal of a string is one token that stands for it. -/
theorem spells_quoted {t : Text} (h : ∃ us, t = Utf16.toText us) : Spells any (Quoted.literal t) [quoted t] := by
  obtain ⟨us, rfl⟩ := h
  rw [quoted, Utf16.ofText_toText]
  exact Spells.string us

/-- A method of the runtime is called by four tokens. -/
theorem spells_callee {runtime method : Text} (hruntime : isIdentifier runtime = true)
    (hmethod : isIdentifier method = true) (hbegins : begins CodePoint.isIdentifierStart method = true) :
    Spells any (runtime ++ ([46] ++ (method ++ [40]))) (callee runtime method) := by
  have hname := (Spells.word hmethod).append spells_openParen rfl
  refine (Spells.word hruntime).append (Spells.dot.append hname ?_) rfl
  cases method with
  | nil => cases hbegins
  | cons b method => exact hbegins

/-- The end of a call. -/
theorem spells_end : Spells any "\x7d);" [.mark .closeBrace, .mark .closeParen, .mark .semicolon] := by
  rw [show ("\x7d);" : Text) = [125] ++ ([41] ++ [59]) by decide]
  exact spells_closeBrace.andThen (spells_closeParen.andThen spells_semicolon)

theorem spells_exportEntry {e : LocalExport} (hname : ∃ us, e.name = Utf16.toText us)
    (hlocal : isIdentifier e.localName = true) :
    Spells Spells.endsWord (Quoted.literal e.name ++ ": () => " ++ e.localName) (exportEntry e) := by
  have hvalue := spells_closeParen.andThen (spells_arrow.blank.append (Spells.word hlocal).blank rfl)
  have hentry := (spells_quoted hname).andThen (spells_colon.append (spells_openParen.blank.andThen hvalue) rfl)
  rw [show (": () => " : Text) = [58] ++ (32 :: [40] ++ ([41] ++ (32 :: [61, 62] ++ [32]))) by decide]
  simpa [exportEntry] using hentry

/-- The call that registers the exports is read back as its tokens. -/
theorem spells_exportCall (hi : i.Named)
    (hn : n.Named) : Spells any (exportCall i n) (exportTokens i n) := by
  unfold exportCall exportTokens
  split
  · exact Spells.nil
  · rename_i hne
    extract_lets entry
    have hentries : Spells Spells.endsWord _ _ := Spells.joinWith (by simpa using hne) (fun e he =>
      ⟨spells_exportEntry (hi.exports e he).1 (hi.exports e he).2, by simp [exportEntry]⟩) rfl
    have hcall := (@spells_callee n.runtime "export" hn.runtime (by decide) (by decide)).andThen
      (spells_openBrace.andThen (hentries.append spells_end rfl))
    rw [show (".export(\x7b" : Text) = ([46] ++ (Text.ofString "export" ++ [40])) ++ [123] by decide]
    simpa [entry] using hcall

theorem spells_declaration (hi : i.Named) :
    Spells any (importDeclaration i) (declarationTokens i) := by
  unfold importDeclaration declarationTokens
  split
  · exact Spells.nil
  · rename_i hne
    have hne' : (i.namedImports.map (·.localName)).eraseDups ≠ [] := fun hnil => by
      obtain ⟨m, ms, hms⟩ := List.exists_cons_of_ne_nil (l := i.namedImports) (by simpa using hne)
      have hm : m.localName ∈ (i.namedImports.map (·.localName)).eraseDups := List.mem_eraseDups.2 (by simp [hms])
      rw [hnil] at hm
      cases hm
    have hlocals : Spells Spells.endsWord (Text.joinWith ", " ((i.namedImports.map (·.localName)).eraseDups.map id))
        _ := Spells.joinWith (g := fun t => [Symbol.word t]) hne' (fun t ht => by
      obtain ⟨m, hm, rfl⟩ := List.mem_map.1 (List.mem_eraseDups.1 ht)
      exact ⟨Spells.word (hi.imports m hm).2, by simp⟩) rfl
    have hblank := hlocals.blank_of_ne_nil (Spells.intercalate_ne_nil hne' (by simp))
    have hdeclaration := (Spells.word (w := "let") (by decide)).append (hblank.append spells_semicolon rfl) rfl
    rw [show ("let " : Text) = Text.ofString "let" ++ [32] by decide, show (";" : Text) = [59] by decide]
    simpa using hdeclaration

theorem spells_assign {m : NamedImport} (hlocal : isIdentifier m.localName = true) (hn : n.Named) :
    Spells any (" " ++ m.localName ++ " = " ++ n.value ++ ";") (assignTokens n m) := by
  have hvalue := (Spells.word hn.value).blank.append spells_semicolon rfl
  have hassign := (Spells.word hlocal).blank.append (spells_equals.blank.append hvalue rfl) rfl
  rw [show (" " : Text) = [32] by decide, show (" = " : Text) = [32, 61, 32] by decide,
    show (";" : Text) = [59] by decide]
  simpa [assignTokens] using hassign

theorem spells_importEntry (hi : i.Named) (hn : n.Named) (record : Nat) {name : Text}
    (hname : ∃ us, name = Utf16.toText us) :
    Spells any (Quoted.literal name ++ ": (" ++ n.value ++ ") => \x7b" ++
      (importsOf i record name).flatMap (fun m => (" " ++ m.localName ++ " = " ++ n.value ++ ";" : Text)) ++ " \x7d")
      (importEntry i n record name) := by
  have hassigns : Spells any _ _ := Spells.flatMap (g := assignTokens n) fun m (hm : m ∈ importsOf i record name) =>
    spells_assign (hi.imports m (List.mem_filter.1 (List.mem_filter.1 hm).1).1).2 hn
  have hbody := spells_openBrace.blank.andThen (hassigns.andThen spells_closeBrace.blank)
  have hsetter := (Spells.word hn.value).append (spells_closeParen.andThen (spells_arrow.blank.append hbody rfl)) rfl
  have hentry := (spells_quoted hname).andThen (spells_colon.append (spells_openParen.blank.andThen hsetter) rfl)
  rw [show (": (" : Text) = [58, 32, 40] by decide, show (") => \x7b" : Text) = [41, 32, 61, 62, 32, 123] by decide,
    show (" \x7d" : Text) = [32, 125] by decide]
  simpa [importEntry] using hentry

/-- The call that registers the imports of a record is read back as its tokens. -/
theorem spells_importCall (hi : i.Named) (hn : n.Named) {path : Text} (hpath : ∃ us, path = Utf16.toText us)
    (record : Nat) : Spells any (importCall i n path record) (importTokens i n path record) := by
  unfold importCall importTokens importEntries
  extract_lets named assign entries
  have hempty : entries.isEmpty = (aliases i record).isEmpty := by simp [entries, aliases, named]
  rw [hempty]
  split
  · exact Spells.nil
  · rename_i hne
    have hentries : Spells any (Text.joinWith ", " entries)
        (List.intercalate [Symbol.mark .comma] ((aliases i record).map (importEntry i n record))) := by
      refine Spells.joinWith (show aliases i record ≠ [] by simpa using hne) (fun name hname => ?_) rfl
      obtain ⟨m, hm, rfl⟩ := List.mem_map.1 (List.mem_eraseDups.1 hname)
      exact ⟨spells_importEntry hi hn record (hi.imports m (List.mem_filter.1 hm).1).1, by simp [importEntry]⟩
    have hobject := (spells_openBrace.andThen (hentries.andThen spells_end)).blank_of_ne_nil (by simp)
    have hcall := (@spells_callee n.runtime "import" hn.runtime (by decide) (by decide)).andThen
      ((spells_quoted hpath).andThen (spells_comma.append hobject rfl))
    rw [show (".import(" : Text) = [46] ++ (Text.ofString "import" ++ [40]) by decide,
      show (", \x7b" : Text) = [44, 32, 123] by decide]
    simpa using hcall

/-- The tokens of a prologue. -/
theorem prologue_spells (hi : i.Named) (hn : n.Named) : Spells any (prologue i n) (prologueTokens i n) := by
  have hcalls : Spells any (i.records.zipIdx.flatMap fun (r, k) => importCall i n r.path k)
      (i.records.zipIdx.flatMap fun (r, k) => importTokens i n r.path k) :=
    Spells.flatMap fun (r, k) hr => spells_importCall hi hn (hi.records r (List.fst_mem_of_mem_zipIdx hr)) k
  have hstrict : Spells any (Quoted.literal "use strict") [quoted "use strict"] :=
    spells_quoted (Utf16.exists_toText (by decide))
  have hyield := (Spells.word (w := "yield") (by decide)).append spells_semicolon rfl
  have hbody := (spells_exportCall hi hn).andThen ((spells_declaration hi).andThen (hcalls.andThen hyield))
  have hfirst := spells_closeParen.andThen (spells_openBrace.blank.andThen (hstrict.andThen
    (spells_semicolon.andThen hbody)))
  have hfunction := (Spells.word (w := "function") (by decide)).append (spells_asterisk.append
    (spells_openParen.blank.andThen ((Spells.word hn.runtime).append hfirst rfl)) rfl) rfl
  have hall := spells_openParen.andThen hfunction
  rw [prologue, show ("(function* (" : Text) = [40] ++ (Text.ofString "function" ++ [42, 32, 40]) by decide,
    show (") \x7b\"use strict\";" : Text) = [41, 32, 123] ++ (Quoted.literal "use strict" ++ [59]) by decide +kernel,
    show ("yield;" : Text) = Text.ofString "yield" ++ [59] by decide]
  simpa [prologueTokens] using hall

end Spelling

/-! ### Reading the object literals -/

section Reading

open ObjectLiteral

variable {x : Symbol} {xs ys v : List Symbol} {nested : List Bracket}

/-- The tokens are a whole value. -/
def Whole (v : List Symbol) : Prop := ∀ ys, keys .value (v ++ ys) = keys (.within []) ys

theorem keys_within_plain (h : x.kind.isPlain = true) (hx : x.kind ≠ .comma) :
    keys (.within nested) (x :: xs) = keys (.within nested) xs := by
  have hbrace : x.kind ≠ .closeBrace := by
    rintro heq
    rw [heq] at h
    cases h
  rw [keys, if_neg fun hand => hx hand.2, if_neg fun hand => hbrace hand.2, Bracket.pass_plain h]
  rfl

/-- Within a value the keys of the object are not looked for. -/
theorem keys_within_all (h : ∀ x ∈ xs, x.kind.isPlain = true ∧ x.kind ≠ .comma) :
    keys (.within nested) (xs ++ ys) = keys (.within nested) ys := by
  induction xs with
  | nil => rfl
  | cons x xs ih =>
      obtain ⟨hx, hxs⟩ := List.forall_mem_cons.1 h
      rw [List.cons_append, keys_within_plain hx.1 hx.2, ih hxs]

theorem kind_word (x : Text) : (Symbol.word x).kind.isPlain = true ∧ (Symbol.word x).kind ≠ .comma ∧
    (Symbol.word x).kind ≠ .dot := by
  have hname : (Symbol.word x).kind.isName = true := Lexer.nameKind_isName x
  refine ⟨TokenKind.isPlain_of_isName hname, ?_, ?_⟩ <;> rintro heq <;> rw [heq] at hname <;> cases hname

theorem kind_assigns (n : GeneratedNames) (ms : List NamedImport) :
    ∀ x ∈ ms.flatMap (assignTokens n), x.kind.isPlain = true ∧ x.kind ≠ .comma ∧ x.kind ≠ .dot := by
  intro x hx
  obtain ⟨m, -, hx⟩ := List.mem_flatMap.1 hx
  simp only [assignTokens, List.mem_cons, List.not_mem_nil, or_false] at hx
  obtain rfl | rfl | rfl | rfl := hx
  · exact kind_word _
  · decide
  · exact kind_word _
  · decide

/-- Getters are values. -/
theorem whole_getter (x : Text) :
    Whole [.mark .openParen, .mark .closeParen, .mark .equalsGreaterThan, .word x] := fun ys => by
  have hbody : keys (.within []) ([Symbol.mark .equalsGreaterThan, .word x] ++ ys) = keys (.within []) ys :=
    keys_within_all (List.forall_mem_cons.2 ⟨by decide, List.forall_mem_singleton.2
      ⟨(kind_word x).1, (kind_word x).2.1⟩⟩)
  exact hbody

/-- Setters are values. -/
theorem whole_setter (x : Text) (hv : ∀ y ∈ v, y.kind.isPlain = true ∧ y.kind ≠ .comma) :
    Whole (.mark .openParen :: .word x :: .mark .closeParen :: .mark .equalsGreaterThan :: .mark .openBrace ::
      (v ++ [Symbol.mark .closeBrace])) := fun ys => by
  have hparameter : ∀ zs, keys (.within [.paren]) (.word x :: zs) = keys (.within [.paren]) zs :=
    fun zs => keys_within_plain (kind_word x).1 (kind_word x).2.1
  have hbody : keys (.within [.brace]) (v ++ (Symbol.mark .closeBrace :: ys)) = keys (.within []) ys := keys_within_all hv
  rw [List.cons_append, List.cons_append, List.cons_append, List.cons_append, List.cons_append, List.append_assoc]
  exact (hparameter _).trans hbody

/-- An entry adds its name to the keys. -/
theorem keys_entry {name : Text} (hname : ∃ us, name = Utf16.toText us) (hv : Whole v) :
    keys .key (quoted name :: .mark .colon :: (v ++ ys)) = (keys (.within []) ys).map (name :: ·) := by
  obtain ⟨us, rfl⟩ := hname
  have hentry : keys .key (quoted (Utf16.toText us) :: .mark .colon :: (v ++ ys)) =
      (keys .value (v ++ ys)).map (Utf16.toText (Utf16.ofText (Utf16.toText us)) :: ·) := rfl
  rw [hentry, hv, Utf16.ofText_toText]

/-- The keys of entries with commas between them. -/
theorem keys_intercalate {α : Type} {as : List α} {f : α → Text} {g : α → List Symbol}
    (h : ∀ a ∈ as, (∃ us, f a = Utf16.toText us) ∧ ∃ v, g a = quoted (f a) :: .mark .colon :: v ∧ Whole v) :
    keys .key (List.intercalate [Symbol.mark .comma] (as.map g) ++ Symbol.mark .closeBrace :: ys) = some (as.map f) := by
  induction as with
  | nil => rfl
  | cons a as ih =>
      obtain ⟨⟨hname, v, hg, hv⟩, has⟩ := List.forall_mem_cons.1 h
      cases as with
      | nil =>
          rw [List.map_singleton, List.intercalate_singleton, hg, List.cons_append, List.cons_append,
            keys_entry hname hv]
          rfl
      | cons b bs =>
          rw [List.map_cons, List.map_cons, List.intercalate_cons_cons, ← List.map_cons, hg, List.append_assoc,
            List.append_assoc, List.cons_append, List.cons_append, keys_entry hname hv]
          exact congrArg (Option.map (f a :: ·)) (ih has)

/-- No method is mentioned. -/
def NoDot (xs : List Symbol) : Prop := ∀ x ∈ xs, x.kind ≠ .dot

instance (xs : List Symbol) : Decidable (NoDot xs) := inferInstanceAs (Decidable (∀ x ∈ xs, x.kind ≠ .dot))

theorem word_ne_dot (t : Text) : (Symbol.word t).kind ≠ .dot := (kind_word t).2.2

theorem mark_ne_dot {k : TokenKind} (h : k ≠ .dot) : (Symbol.mark k).kind ≠ .dot := h

theorem quoted_ne_dot (t : Text) : (quoted t).kind ≠ .dot := show TokenKind.string ≠ .dot by decide

theorem NoDot.append (h : NoDot xs) (h' : NoDot ys) : NoDot (xs ++ ys) :=
  List.forall_mem_append.2 ⟨h, h'⟩

theorem NoDot.head (h : NoDot xs) (hys : ∀ y ∈ ys.head?, y.kind ≠ .dot) :
    ∀ y ∈ (xs ++ ys).head?, y.kind ≠ .dot := by
  cases xs with
  | nil => exact hys
  | cons x xs => exact fun y hy => Option.some.inj hy ▸ h x List.mem_cons_self

theorem callee_isPrefixOf_cons {runtime method : Text} (h : x = .word runtime → ys.head? ≠ some (.mark .dot)) :
    (callee runtime method).isPrefixOf (x :: ys) = false := by
  refine Bool.eq_false_iff.2 fun hprefix => ?_
  obtain ⟨hx, hrest⟩ := List.cons_prefix_cons.1 (List.isPrefixOf_iff_prefix.1 hprefix)
  obtain ⟨zs, rfl⟩ := hrest
  exact h hx.symm rfl

/-- Nothing is called in tokens without a point. -/
theorem argumentsOf_append {runtime method : Text} (hxs : NoDot xs)
    (hys : ∀ y ∈ ys.head?, y.kind ≠ .dot) :
    argumentsOf runtime method (xs ++ ys) = argumentsOf runtime method ys := by
  induction xs with
  | nil => rfl
  | cons x xs ih =>
      obtain ⟨-, hxs⟩ := List.forall_mem_cons.1 hxs
      rw [List.cons_append, argumentsOf, callee_isPrefixOf_cons fun _ hdot => NoDot.head hxs hys _ hdot rfl, ih hxs]
      rfl

/-- A call is found where its method is the one looked for. -/
theorem argumentsOf_callee (runtime method method' : Text) (ys : List Symbol) :
    argumentsOf runtime method (callee runtime method' ++ ys) =
      (if method = method' then [ys] else []) ++ argumentsOf runtime method ys := by
  have hname : ∀ t : Text, (Symbol.word t).kind.isName = true := Lexer.nameKind_isName
  have hmark : ∀ (t : Text) (k : TokenKind), k.isName = false → Symbol.mark k ≠ .word t := fun t k hk heq => by
    have hword := hname t
    rw [← heq, show (Symbol.mark k).kind = k from rfl, hk] at hword
    cases hword
  have hcall : (callee runtime method).isPrefixOf (callee runtime method' ++ ys) = decide (method = method') := by
    rw [Bool.eq_iff_iff, List.isPrefixOf_iff_prefix, decide_eq_true_iff]
    simp only [callee, List.cons_append, List.nil_append, List.cons_prefix_cons, List.nil_prefix, and_true, true_and]
    exact ⟨congrArg Symbol.name, congrArg Symbol.word⟩
  -- the call is not found again within its own first tokens
  have hrest : argumentsOf runtime method (.mark .dot :: .word method' :: .mark .openParen :: ys) =
      argumentsOf runtime method ys := by
    rw [argumentsOf, argumentsOf, argumentsOf, callee_isPrefixOf_cons fun h => absurd h (hmark _ _ rfl),
      callee_isPrefixOf_cons fun _ h => hmark method' .dot rfl (by cases h),
      callee_isPrefixOf_cons fun h => absurd h (hmark _ _ rfl)]
    rfl
  have hunfold : argumentsOf runtime method (callee runtime method' ++ ys) =
      (if (callee runtime method).isPrefixOf (callee runtime method' ++ ys) then [ys] else []) ++
        argumentsOf runtime method (.mark .dot :: .word method' :: .mark .openParen :: ys) := rfl
  rw [hunfold, hcall, hrest]
  simp only [decide_eq_true_eq]

/-! ### The keys of a prologue -/

theorem NoDot.intercalate {α : Type} {as : List α} {g : α → List Symbol} (h : ∀ a ∈ as, NoDot (g a)) :
    NoDot (List.intercalate [Symbol.mark .comma] (as.map g)) := by
  induction as with
  | nil => simp [NoDot]
  | cons a as ih =>
      obtain ⟨ha, has⟩ := List.forall_mem_cons.1 h
      cases as with
      | nil => simpa using ha
      | cons b bs =>
          rw [List.map_cons, List.map_cons, List.intercalate_cons_cons, ← List.map_cons]
          exact (ha.append (List.forall_mem_singleton.2 (mark_ne_dot (by decide)))).append (ih has)

/-- What is passed for the exports, and the end of the call. -/
def exportObject (i : Interface) : List Symbol :=
  .mark .openBrace :: (List.intercalate [Symbol.mark .comma] (i.localExports.map exportEntry) ++
    [Symbol.mark .closeBrace, .mark .closeParen, .mark .semicolon])

theorem noDot_exportObject : NoDot (exportObject i) := by
  refine List.forall_mem_cons.2 ⟨mark_ne_dot (by decide), NoDot.append (.intercalate fun e _ => ?_) (by decide)⟩
  simp [NoDot, exportEntry, word_ne_dot, mark_ne_dot, quoted_ne_dot]

/-- The call that registers the exports has the object of the exports as argument. -/
theorem argumentsOf_exportTokens (method : Text) (hys : ∀ y ∈ ys.head?, y.kind ≠ .dot) :
    argumentsOf n.runtime method (exportTokens i n ++ ys) =
      (if i.localExports.isEmpty then [] else if method = "export" then [exportObject i ++ ys] else []) ++
        argumentsOf n.runtime method ys := by
  unfold exportTokens
  split
  · rfl
  · rw [List.append_assoc, argumentsOf_callee]
    exact congrArg _ (argumentsOf_append noDot_exportObject hys)

theorem exportTokens_head (hys : ∀ y ∈ ys.head?, y.kind ≠ .dot) :
    ∀ y ∈ (exportTokens i n ++ ys).head?, y.kind ≠ .dot := by
  unfold exportTokens
  split
  · exact hys
  · rintro _ ⟨⟩
    exact word_ne_dot _

theorem noDot_declaration : NoDot (declarationTokens i) := by
  unfold declarationTokens
  split
  · simp [NoDot]
  · refine List.forall_mem_cons.2 ⟨word_ne_dot _, NoDot.append (.intercalate fun t _ => ?_) (by decide)⟩
    exact List.forall_mem_singleton.2 (word_ne_dot t)

/-- What is passed for a record, and the end of the call. -/
def recordObject (i : Interface) (n : GeneratedNames) (path : Text) (record : Nat) : List Symbol :=
  quoted path :: .mark .comma :: .mark .openBrace ::
    (List.intercalate [Symbol.mark .comma] ((aliases i record).map (importEntry i n record)) ++
      [Symbol.mark .closeBrace, .mark .closeParen, .mark .semicolon])

theorem noDot_recordObject (path : Text) (record : Nat) : NoDot (recordObject i n path record) := by
  refine List.forall_mem_cons.2 ⟨quoted_ne_dot _, List.forall_mem_cons.2 ⟨mark_ne_dot (by decide),
    List.forall_mem_cons.2 ⟨mark_ne_dot (by decide), NoDot.append (.intercalate fun name _ => ?_) (by decide)⟩⟩⟩
  have hassigns : NoDot ((importsOf i record name).flatMap (assignTokens n)) :=
    fun x hx => (kind_assigns n _ x hx).2.2
  have hvalue := hassigns.append (show NoDot [.mark .closeBrace] by decide)
  simp only [importEntry, NoDot, List.forall_mem_cons] at hvalue ⊢
  exact ⟨quoted_ne_dot _, by decide, by decide, word_ne_dot _, by decide, by decide, by decide, hvalue⟩

/-- No call begins with a point. -/
theorem importTokens_head {ks : List (ImportRecord × Nat)} (hys : ∀ y ∈ ys.head?, y.kind ≠ .dot) :
    ∀ y ∈ (ks.flatMap (fun (r, k) => importTokens i n r.path k) ++ ys).head?, y.kind ≠ .dot := by
  induction ks with
  | nil => exact hys
  | cons r ks ih =>
      rw [List.flatMap_cons, List.append_assoc]
      unfold importTokens
      dsimp only
      split
      · exact ih
      · rintro _ ⟨⟩
        exact word_ne_dot _

/-- The call that registers the imports of a record has the object of that record as argument. -/
theorem argumentsOf_importTokens (path : Text) (record : Nat) (method : Text)
    (hys : ∀ y ∈ ys.head?, y.kind ≠ .dot) :
    argumentsOf n.runtime method (importTokens i n path record ++ ys) =
      (if (aliases i record).isEmpty then [] else
        if method = "import" then [recordObject i n path record ++ ys] else []) ++
        argumentsOf n.runtime method ys := by
  unfold importTokens
  split
  · rfl
  · rw [List.append_assoc, argumentsOf_callee]
    exact congrArg _ (argumentsOf_append (noDot_recordObject path record) hys)

/-- Different keys are all defined but the one that sets the prototype. -/
theorem foldl_define {ks : List Text} (hnodup : ks.Nodup) : ks.foldl define [] = ks.filter (· ≠ prototypeKey) := by
  have hfold : ∀ ks own : List Text, (own ++ ks).Nodup →
      ks.foldl define (own.filter (· ≠ prototypeKey)) = (own ++ ks).filter (· ≠ prototypeKey) := by
    intro ks
    induction ks with
    | nil => simp
    | cons k ks ih =>
        intro own hnodup
        have hown : k ∉ own := fun hk => (List.nodup_append.1 hnodup).2.2 k hk k List.mem_cons_self rfl
        have hstep : define (own.filter (· ≠ prototypeKey)) k = (own ++ [k]).filter (· ≠ prototypeKey) := by
          by_cases hk : k = prototypeKey
          · rw [define, if_pos (by simp [hk])]
            simp [hk]
          · rw [define, if_neg (by simp [hk, hown])]
            simp [hk]
        rw [List.foldl_cons, hstep, ih _ (by simpa using hnodup), List.append_assoc]
        rfl
  exact hfold ks [] hnodup

/-- A record, with its names, if it has any. -/
def registered? (i : Interface) : ImportRecord × Nat → Option (Text × List Text)
  | (r, k) =>
    if (aliases i k).isEmpty then none else some (r.path, (aliases i k).filter (· ≠ ObjectLiteral.prototypeKey))

/-- An object literal of distinct keys makes each of them but for the one that sets a prototype. -/
theorem evaluate?_entries {α : Type} {as : List α} {f : α → Text} {g : α → List Symbol}
    (h : ∀ a ∈ as, (∃ us, f a = Utf16.toText us) ∧ ∃ v, g a = quoted (f a) :: .mark .colon :: v ∧ Whole v)
    (hnodup : (as.map f).Nodup) :
    evaluate? (.mark .openBrace :: (List.intercalate [Symbol.mark .comma] (as.map g) ++ Symbol.mark .closeBrace :: ys)) =
      some ((as.map f).filter (· ≠ prototypeKey)) := by
  rw [evaluate?]
  refine (if_pos rfl).trans ?_
  rw [keys_intercalate h, Option.map_some, foldl_define hnodup]

theorem evaluate?_exportObject (hi : i.Named) (hnodup : (i.localExports.map (·.name)).Nodup) :
    evaluate? (exportObject i ++ ys) = some ((i.localExports.map (·.name)).filter (· ≠ prototypeKey)) := by
  rw [exportObject, List.cons_append, List.append_assoc]
  exact evaluate?_entries (fun e he => ⟨(hi.exports e he).1, _, rfl, whole_getter e.localName⟩) hnodup

theorem recordKeys?_recordObject (hi : i.Named) {path : Text} (hpath : ∃ us, path = Utf16.toText us) (record : Nat) :
    recordKeys? (recordObject i n path record ++ ys) =
      some (path, (aliases i record).filter (· ≠ prototypeKey)) := by
  obtain ⟨us, rfl⟩ := hpath
  have hentries : evaluate? (.mark .openBrace :: (List.intercalate [Symbol.mark .comma]
      ((aliases i record).map (importEntry i n record)) ++ Symbol.mark .closeBrace ::
        ([Symbol.mark .closeParen, .mark .semicolon] ++ ys))) =
      some (((aliases i record).map id).filter (· ≠ prototypeKey)) := by
    refine evaluate?_entries (fun name hname => ⟨?_, _, rfl, whole_setter n.value fun x hx => ?_⟩) ?_
    · obtain ⟨m, hm, rfl⟩ := List.mem_map.1 (List.mem_eraseDups.1 hname)
      exact (hi.imports m (List.mem_filter.1 hm).1).1
    · exact ⟨(kind_assigns n _ x hx).1, (kind_assigns n _ x hx).2.1⟩
    · rw [List.map_id]
      exact Text.nodup_eraseDups _
  rw [List.map_id] at hentries
  rw [recordObject, List.cons_append, List.cons_append, List.cons_append, List.append_assoc, recordKeys?]
  refine (if_pos ⟨rfl, rfl⟩).trans ((congrArg _ hentries).trans ?_)
  rw [Option.map_some, quoted, Utf16.ofText_toText]
  rfl

/-- The calls for the records, each with its own names. -/
theorem mapM_recordKeys? (hi : i.Named) (ks : List (ImportRecord × Nat)) (hks : ∀ r ∈ ks, r.1 ∈ i.records)
    (hys : ∀ y ∈ ys.head?, y.kind ≠ .dot) (hnone : argumentsOf n.runtime "import" ys = []) :
    (argumentsOf n.runtime "import" (ks.flatMap (fun (r, k) => importTokens i n r.path k) ++ ys)).mapM recordKeys? =
      some (ks.filterMap (registered? i)) := by
  induction ks with
  | nil => rw [List.flatMap_nil, List.nil_append, hnone]; rfl
  | cons r ks ih =>
      obtain ⟨hr, hrest⟩ := List.forall_mem_cons.1 hks
      obtain ⟨r, k⟩ := r
      rw [List.flatMap_cons, List.append_assoc, argumentsOf_importTokens r.path k "import" (importTokens_head hys),
        List.filterMap_cons, registered?]
      split
      · exact ih hrest
      · rw [if_pos rfl, List.singleton_append, List.mapM_cons, recordKeys?_recordObject hi (hi.records r hr) k,
          ih hrest]
        rfl

/-- No call for a record registers exports. -/
theorem argumentsOf_records (ks : List (ImportRecord × Nat)) (hys : ∀ y ∈ ys.head?, y.kind ≠ .dot) :
    argumentsOf n.runtime "export" (ks.flatMap (fun (r, k) => importTokens i n r.path k) ++ ys) =
      argumentsOf n.runtime "export" ys := by
  induction ks with
  | nil => rfl
  | cons r ks ih =>
      rw [List.flatMap_cons, List.append_assoc,
        argumentsOf_importTokens r.1.path r.2 "export" (importTokens_head hys), ih,
        if_neg (show ¬ Text.ofString "export" = Text.ofString "import" by decide)]
      split <;> rfl

/-- The tokens behind the last call. -/
def lastTokens : List Symbol := [.word "yield", .mark .semicolon, .mark .endOfFile]

theorem argumentsOf_lastTokens (runtime method : Text) : argumentsOf runtime method lastTokens = [] := by
  have hnone : NoDot lastTokens := by decide
  have happend := @argumentsOf_append lastTokens [] runtime method hnone (by simp)
  rwa [List.append_nil] at happend

theorem argumentsOf_prologue (i : Interface) (n : GeneratedNames) (method : Text) :
    argumentsOf n.runtime method (prologueTokens i n ++ [Symbol.mark .endOfFile]) =
      (if i.localExports.isEmpty then [] else if method = "export" then
        [exportObject i ++ (declarationTokens i ++
          (i.records.zipIdx.flatMap (fun (r, k) => importTokens i n r.path k) ++ lastTokens))] else []) ++
        argumentsOf n.runtime method
          (i.records.zipIdx.flatMap (fun (r, k) => importTokens i n r.path k) ++ lastTokens) := by
  have hrecords := @importTokens_head i n lastTokens i.records.zipIdx (by decide)
  have hdeclaration := noDot_declaration (i := i) |>.head hrecords
  have hopening : NoDot [.mark .openParen, .word "function", .mark .asterisk, .mark .openParen, .word n.runtime,
      .mark .closeParen, .mark .openBrace, quoted "use strict", .mark .semicolon] := by
    simp [NoDot, word_ne_dot, mark_ne_dot, quoted_ne_dot]
  have htokens : prologueTokens i n ++ [Symbol.mark .endOfFile] = [Symbol.mark .openParen, .word "function", .mark .asterisk,
      .mark .openParen, .word n.runtime, .mark .closeParen, .mark .openBrace, quoted "use strict", .mark .semicolon] ++
        (exportTokens i n ++ (declarationTokens i ++
          (i.records.zipIdx.flatMap (fun (r, k) => importTokens i n r.path k) ++ lastTokens))) := by
    simp [prologueTokens, lastTokens]
  rw [htokens, argumentsOf_append hopening (exportTokens_head hdeclaration),
    argumentsOf_exportTokens method hdeclaration, argumentsOf_append noDot_declaration hrecords]

/-- The keys that a prologue registers. -/
theorem prologue_keys (hi : i.Named) (hnodup : (i.localExports.map (·.name)).Nodup) :
    exportKeys n.runtime (prologueTokens i n ++ [Symbol.mark .endOfFile]) =
      some ((i.localExports.map (·.name)).filter (· ≠ prototypeKey)) ∧
    importKeys n.runtime (prologueTokens i n ++ [Symbol.mark .endOfFile]) =
      some (i.records.zipIdx.filterMap (registered? i)) := by
  have hlast : ∀ y ∈ lastTokens.head?, y.kind ≠ .dot := by decide
  refine ⟨?_, ?_⟩
  · rw [exportKeys, argumentsOf_prologue, argumentsOf_records _ hlast, argumentsOf_lastTokens, List.append_nil]
    by_cases hempty : i.localExports.isEmpty
    · rw [if_pos hempty, List.isEmpty_iff.1 hempty]
      rfl
    · rw [if_neg hempty, if_pos rfl]
      exact evaluate?_exportObject hi hnodup
  · have hrecords := mapM_recordKeys? hi i.records.zipIdx (fun r hr => List.fst_mem_of_mem_zipIdx hr) hlast
      (argumentsOf_lastTokens n.runtime "import")
    rw [importKeys, argumentsOf_prologue, if_neg (show ¬ Text.ofString "import" = Text.ofString "export" by decide),
      ite_self, List.nil_append]
    exact hrecords

end Reading

/-! ### All sources -/

theorem named_ofOutline {s : Source} {o : Outline} (h : Outline.read s = .ok o) {unnamed : Text}
    (hunnamed : isIdentifier unnamed = true) : (Interface.ofOutline o unnamed).Named := by
  obtain ⟨gs, hgs⟩ := Outline.read_laidOut h
  refine Interface.ofOutline_all (fun t ht => ?_) (fun _ => id) (Utf16.exists_toText (by decide)) hgs.meets hunnamed
  obtain hword | hunits := ht
  · exact Utf16.exists_toText (Piece.isValid_of_isIdentifier hword)
  · exact hunits

/-- The names that printing introduces where nothing is in the way. -/
def firstNames : GeneratedNames := { runtime := "__esm", unnamed := "_default", value := "_value" }

theorem firstNames_named : firstNames.Named := ⟨by decide, by decide, by decide⟩

theorem json_named (s : Source) : (json s).2.Named where
  exports := List.forall_mem_singleton.2 ⟨Utf16.exists_toText (by decide), by decide⟩
  imports := by simp [json]
  records := by simp [json]

theorem prologue_prefix_json (s : Source) : prologue (json s).2 firstNames <+: (json s).1 := by
  refine ⟨"const _default = JSON.parse(" ++ Quoted.literal s.contents ++ ");" ++ epilogue, ?_⟩
  simp only [json, firstNames, List.append_assoc]

/-- What a prologue registers, read from its text, are the names of its interface. -/
theorem prologue_registers (s : Source) (hi : i.Named) (hn : n.Named) (hnodup : (i.localExports.map (·.name)).Nodup) :
    ∃ ts, Source.Lexes { s with contents := prologue i n } ts ∧
      exportKeys n.runtime (ts.map Token.symbol) =
        some ((i.localExports.map (·.name)).filter (· ≠ ObjectLiteral.prototypeKey)) ∧
      importKeys n.runtime (ts.map Token.symbol) = some (i.records.zipIdx.filterMap (registered? i)) := by
  obtain ⟨ts, hts, hsymbols⟩ := @Lexer.Spells.lexes _ _ _ { s with contents := prologue i n } (prologue_spells hi hn)
  have hall : ts.map Token.symbol = prologueTokens i n ++ [Symbol.mark .endOfFile] := hsymbols
  refine ⟨ts, hts, ?_⟩
  rw [hall]
  exact prologue_keys hi hnodup

/-- The prologue of compiled code registers every name under its own key, apart from `__proto__`. Read as tokens,
it passes one object literal for the exports, of which the own keys are their names, and one for each record of
which something is imported, of which the own keys are the distinct names; only the key `__proto__` creates no
property. -/
theorem names_registered (s : Source) (f : Option Format) (c : Compiled) (h : compile s f = .ok c) :
    ∃ n ts, prologue c.interface n <+: c.code ∧
      Source.Lexes { s with contents := prologue c.interface n } ts ∧
      exportKeys n.runtime (ts.map Token.symbol) =
        some ((c.interface.localExports.map (·.name)).filter (· ≠ ObjectLiteral.prototypeKey)) ∧
      importKeys n.runtime (ts.map Token.symbol) =
        some (c.interface.records.zipIdx.filterMap (registered? c.interface)) := by
  cases compiles_of_eq h with
  | @script o hread =>
      have hn := GeneratedNames.ofOutline_named o
      have hnames := (Interface.explicitExportNames_perm o (GeneratedNames.ofOutline o).unnamed).nodup_iff.2
        (Outline.names_nodup (Outline.read_scan hread).2)
      obtain ⟨ts, hts⟩ := prologue_registers s (named_ofOutline hread hn.unnamed) hn (List.nodup_append.1 hnames).1
      exact ⟨GeneratedNames.ofOutline o, ts, ⟨_, (List.append_assoc _ _ _).symm⟩, hts⟩
  | json =>
      obtain ⟨ts, hts⟩ := prologue_registers s (json_named s) firstNames_named (List.pairwise_singleton _ _)
      exact ⟨firstNames, ts, prologue_prefix_json s, hts⟩

/-- A module with several imports of a name, and with an import of `__proto__`. -/
def mixed : Source := { contents := "import\x7b__proto__ as p,a,b as c,a as d\x7dfrom'x';export let y" }

theorem names_registered_mixed : ∃ c n ts, compile mixed (some .script) = .ok c ∧
    Source.Lexes { mixed with contents := prologue c.interface n } ts ∧
    exportKeys n.runtime (ts.map Token.symbol) = some [Text.ofString "y"] ∧
    importKeys n.runtime (ts.map Token.symbol) =
      some [(Text.ofString "x", [Text.ofString "a", Text.ofString "b"])] := by
  have hcompile : (compile mixed (some .script)).toOption.map (fun c =>
      ((c.interface.localExports.map (·.name)).filter (· ≠ ObjectLiteral.prototypeKey),
        c.interface.records.zipIdx.filterMap (registered? c.interface))) =
      some ([Text.ofString "y"], [(Text.ofString "x", [Text.ofString "a", Text.ofString "b"])]) := by
    decide +kernel
  cases h : compile mixed (some .script) with
  | error e => rw [h] at hcompile; cases hcompile
  | ok c =>
      rw [h] at hcompile
      obtain ⟨hexports, himports⟩ := Prod.mk.inj (Option.some.inj hcompile)
      obtain ⟨n, ts, -, hts, hexportKeys, himportKeys⟩ := names_registered mixed (some .script) c h
      exact ⟨c, n, ts, rfl, hts, hexportKeys.trans (congrArg some hexports),
        himportKeys.trans (congrArg some himports)⟩

/-- A module that exports the name `__proto__`. -/
def ancestor : Source := { contents := "let __proto__;export\x7b__proto__\x7d" }

/-- Its prologue. -/
def ancestorPrologue : Text :=
  "(function* (__esm) \x7b\"use strict\";__esm.export(\x7b\"__proto__\": () => __proto__\x7d);yield;"

/-- An export that is announced, by a literal without own keys. -/
theorem name_lost : ∃ c n ts, compile ancestor (some .script) = .ok c ∧
    c.code = ancestorPrologue ++ "let __proto__;\n\x7d)" ∧ prologue c.interface n = ancestorPrologue ∧
    c.interface.localExports.map (·.name) = [ObjectLiteral.prototypeKey] ∧
    Source.Lexes { ancestor with contents := ancestorPrologue } ts ∧
    exportKeys n.runtime (ts.map Token.symbol) = some [] := by
  have hcompile : (compile ancestor (some .script)).toOption.map (fun c =>
      (c.code, prologue c.interface firstNames, c.interface.localExports.map (·.name))) =
      some (ancestorPrologue ++ "let __proto__;\n\x7d)", ancestorPrologue, [ObjectLiteral.prototypeKey]) := by
    decide +kernel
  have htokens : (Source.tokens? { ancestor with contents := ancestorPrologue }).map (fun ts =>
      exportKeys firstNames.runtime (ts.map Token.symbol)) = some (some []) := by
    decide +kernel
  cases h : compile ancestor (some .script) with
  | error e => rw [h] at hcompile; cases hcompile
  | ok c =>
      rw [h] at hcompile
      obtain ⟨ts, hts, hkeys⟩ := Option.map_eq_some_iff.1 htokens
      have hall := Option.some.inj hcompile
      simp only [Prod.mk.injEq] at hall
      exact ⟨c, firstNames, ts, rfl, hall.1, hall.2.1, hall.2.2, Source.lexes_of_tokens? hts, hkeys⟩

end Print

end ModuleSystem

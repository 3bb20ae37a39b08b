import ModuleSystem.Proofs.Lexer.Literals
import ModuleSystem.Proofs.Lexer.Spelled

/-!
# The lexer — tokens next to each other

Printed code has blanks only where they are needed.  `Spells p t xs`: the text `t` is read as the tokens `xs`,
whatever comes after it, as long as that is nothing or begins with a character for which `p` holds.  Such texts
are put together with `Spells.append`.

* `Spells.word`, `Spells.string`, `Spells.mark`: texts of one token.
* `Spells.joinWith`: texts with commas between them.
* `Spells.lexes`: the tokens of a whole source.
-/

namespace ModuleSystem

open Utf8 (isValid glyphs)

/-- A token without its place. -/
structure Symbol where
  kind : TokenKind
  name : Text := []
  units : List UInt16 := []
deriving DecidableEq, Repr

/-- What a token is, wherever it stands. -/
def Token.symbol (t : Token) : Symbol := { kind := t.kind, name := t.name, units := t.units }

namespace Symbol

/-- An identifier or a reserved word. -/
def word (x : Text) : Symbol := { kind := Lexer.nameKind x, name := x }

/-- A string. -/
def string (us : List UInt16) : Symbol := { kind := .string, units := us }

/-- A mark. -/
def mark (k : TokenKind) : Symbol := { kind := k }

end Symbol

namespace Lexer

variable {lx lx₁ lx' : Lexer} {p q : Nat → Bool} {t u : Text} {x : Symbol} {xs ys : List Symbol}

/-! ### Runs over symbols -/

/-- Moving on over tokens, of which `lx'` stands on the last one. -/
inductive Finds : Lexer → List Symbol → Lexer → Prop where
  | refl (lx : Lexer) : Finds lx [] lx
  | next {lx lx₁ lx' : Lexer} {xs : List Symbol} (hnext : lx.next = .ok lx₁) (hlast : lx₁.token.isLast = false)
      (h : Finds lx₁ xs lx') : Finds lx (lx₁.token.symbol :: xs) lx'

/-- Symbols that are found one run after the other are found in one run. -/
theorem Finds.trans (h : Finds lx xs lx₁) (h' : Finds lx₁ ys lx') : Finds lx (xs ++ ys) lx' := by
  induction h with
  | refl => exact h'
  | next hnext hlast _ ih => exact .next hnext hlast (ih h')

/-- A run up to the end of the source gives all its tokens. -/
theorem Finds.exists_yields {last : Lexer} (h : Finds lx xs lx') (hlast : lx.token.isLast = false)
    (hnext : lx'.next = .ok last) (hend : last.token.kind = .endOfFile) :
    ∃ ts, lx.Yields ts ∧ ts.map Token.symbol = lx.token.symbol :: (xs ++ [last.token.symbol]) := by
  induction h with
  | refl lx => exact ⟨_, .more (kind_ne_of_isLast hlast).1 hnext (.last hend), rfl⟩
  | next hnext' hlast' _ ih =>
      obtain ⟨ts, hts, hsymbols⟩ := ih hlast' hnext
      exact ⟨_, .more (kind_ne_of_isLast hlast).1 hnext' hts, by rw [List.map_cons, hsymbols]; rfl⟩

/-- The given text is what the lexer has not read yet. -/
structure Faces (lx : Lexer) (t : Text) : Prop where
  dialect : lx.dialect = .script
  valid : lx.token.kind ≠ .invalid
  rest : lx.cursor.rest = glyphs t

/-- Nothing, or a character for which `p` holds, is at the beginning. -/
def Follows (p : Nat → Bool) (t : Text) : Prop := ∀ g ∈ (glyphs t).head?, p g.code = true

/-- Any character. -/
def any (_ : Nat) : Bool := true

theorem follows_any (t : Text) : Follows any t := fun _ _ => rfl

theorem follows_nil (p : Nat → Bool) : Follows p [] := by rintro _ ⟨⟩

/-- An ASCII byte is a character by itself. -/
theorem glyphs_cons_ascii {b : UInt8} (h : b.toNat < 128) (t : Text) : glyphs (b :: t) = asciiGlyph b :: glyphs t := by
  have hglyphs : glyphs [b] = ascii [b] := glyphs_ascii (List.forall_mem_singleton.2 h)
  have hne : b.toNat ≠ Utf8.replacement := by
    unfold Utf8.replacement
    omega
  have hvalid : isValid [b] := by
    rw [Utf8.isValid_iff, hglyphs]
    exact List.forall_mem_singleton.2 (by simp [Utf8.isInvalid, hne])
  rw [← List.singleton_append, Utf8.glyphs_append hvalid, hglyphs]
  rfl

/-- A text begins with a character in ASCII for which `p` holds. -/
def begins (p : Nat → Bool) : Text → Bool
  | [] => false
  | b :: _ => decide (b.toNat < 128) && p b.toNat

/-- What a text begins with decides whether it may follow, whatever comes behind it. -/
theorem follows_of_begins (h : begins p t = true) (u : Text) : Follows p (t ++ u) := by
  cases t with
  | nil => cases h
  | cons b t =>
      simp only [begins, Bool.and_eq_true, decide_eq_true_eq] at h
      rw [List.cons_append, Follows, glyphs_cons_ascii h.1]
      rintro _ ⟨⟩
      exact h.2

/-- The text is read as these tokens before anything that begins with a character for which `p` holds. -/
structure Spells (p : Nat → Bool) (t : Text) (xs : List Symbol) : Prop where
  valid : isValid t
  finds : ∀ (lx : Lexer) (u : Text), lx.Faces (t ++ u) → Follows p u → ∃ lx', Finds lx xs lx' ∧ lx'.Faces u

namespace Spells

theorem nil : Spells p [] [] := ⟨rfl, fun lx _ h _ => ⟨lx, .refl lx, h⟩⟩

theorem mono (h : Spells p t xs) (hpq : ∀ c, q c = true → p c = true) : Spells q t xs :=
  ⟨h.valid, fun lx u hlx hu => h.finds lx u hlx fun g hg => hpq _ (hu g hg)⟩

/-- One text after the other. -/
theorem append_of_follows (h : Spells p t xs) (h' : Spells q u ys)
    (hfollows : ∀ v, Follows q v → Follows p (u ++ v)) : Spells q (t ++ u) (xs ++ ys) := by
  refine ⟨Utf8.isValid_append h.valid h'.valid, fun lx v hlx hv => ?_⟩
  rw [List.append_assoc] at hlx
  obtain ⟨lx₁, hfinds, hlx₁⟩ := h.finds lx (u ++ v) hlx (hfollows v hv)
  obtain ⟨lx', hfinds', hlx'⟩ := h'.finds lx₁ v hlx₁ hv
  exact ⟨lx', hfinds.trans hfinds', hlx'⟩

/-- Two texts spell their symbols side by side when the second may follow the first. -/
theorem append (h : Spells p t xs) (h' : Spells q u ys) (hbegins : begins p u = true) :
    Spells q (t ++ u) (xs ++ ys) :=
  h.append_of_follows h' fun v _ => follows_of_begins hbegins v

/-- Whatever comes next can follow. -/
theorem andThen (h : Spells any t xs) (h' : Spells q u ys) : Spells q (t ++ u) (xs ++ ys) :=
  h.append_of_follows h' fun _ _ => follows_any _

/-- Texts that may stand before anything spell their symbols in any number. -/
theorem flatMap {α : Type} {as : List α} {f : α → Text} {g : α → List Symbol} (h : ∀ a ∈ as, Spells any (f a) (g a)) :
    Spells any (as.flatMap f) (as.flatMap g) := by
  induction as with
  | nil => exact nil
  | cons a as ih =>
      obtain ⟨ha, has⟩ := List.forall_mem_cons.1 h
      exact ha.andThen (ih has)

/-! ### Single tokens -/

/-- One token with no gap before it. -/
theorem single (hvalid : isValid t) (hkind : x.kind ≠ .endOfFile ∧ x.kind ≠ .invalid)
    (hgap : ∀ newline pos u, Follows p u →
      skipGap .script newline ⟨pos, glyphs t ++ glyphs u⟩ = .ok (⟨pos, glyphs t ++ glyphs u⟩, newline))
    (hscan : ∀ pos u, Follows p u → scanLexeme .script ⟨pos, glyphs t ++ glyphs u⟩ =
      .ok { kind := x.kind, name := x.name, units := x.units, cursor := ⟨pos + t.length, glyphs u⟩ }) :
    Spells p t [x] := by
  refine ⟨hvalid, fun lx u hlx hu => ?_⟩
  obtain ⟨pos, hcursor⟩ : ∃ pos, lx.cursor = ⟨pos, glyphs t ++ glyphs u⟩ :=
    ⟨lx.cursor.pos, by rw [← Utf8.glyphs_append hvalid, ← hlx.rest]⟩
  have hgap' : skipGap lx.dialect (lx.token.stop = 0) lx.cursor =
      .ok (⟨pos, glyphs t ++ glyphs u⟩, lx.token.stop = 0) := by
    rw [hlx.dialect, hcursor]
    exact hgap _ pos u hu
  have hscan' := hscan pos u hu
  rw [← hlx.dialect] at hscan'
  refine ⟨_, .next (next_eq hlx.valid hgap' hscan') ?_ (.refl _), hlx.dialect, hkind.2, rfl⟩
  simp [Token.isLast, onto, hkind.1, hkind.2]

/-- A blank can come before a token. -/
theorem blank (h : Spells p t (x :: xs)) : Spells p (32 :: t) (x :: xs) := by
  have hvalid : isValid [32] := by decide
  refine ⟨Utf8.isValid_append hvalid h.valid, fun lx u hlx hu => ?_⟩
  have hrest : lx.cursor.rest = asciiGlyph 32 :: glyphs (t ++ u) := hlx.rest.trans (glyphs_cons_ascii (by decide) _)
  let behind : Lexer := { lx with cursor := ⟨lx.cursor.pos + 1, glyphs (t ++ u)⟩ }
  have hsame : lx.next = behind.next := by
    have hcursor : lx.cursor = ⟨lx.cursor.pos, asciiGlyph 32 :: glyphs (t ++ u)⟩ := by rw [← hrest]
    have hgap : skipGap lx.dialect (lx.token.stop = 0) lx.cursor =
        skipGap lx.dialect (lx.token.stop = 0) behind.cursor := by
      rw [hlx.dialect, hcursor]
      exact Piece.skipGap_blank _ _ _
    unfold next
    dsimp only
    rw [if_neg hlx.valid, hgap]
    exact (if_neg hlx.valid).symm
  obtain ⟨lx', hfinds, hlx'⟩ := h.finds behind u ⟨hlx.dialect, hlx.valid, rfl⟩ hu
  cases hfinds with
  | next hnext hlast hfinds => exact ⟨lx', .next (hsame.trans hnext) hlast hfinds, hlx'⟩

/-- A blank may stand before the symbols of a text. -/
theorem blank_of_ne_nil (h : Spells p t xs) (hne : xs ≠ []) : Spells p (32 :: t) xs := by
  obtain ⟨x, xs, rfl⟩ := List.exists_cons_of_ne_nil hne
  exact h.blank

/-- What ends a word. -/
def endsWord (c : Nat) : Bool := !CodePoint.isIdentifierPart c && c != 92

/-- Identifiers and reserved words. -/
theorem word {w : Text} (h : isIdentifier w = true) : Spells endsWord w [Symbol.word w] := by
  have hends : ∀ u, Follows endsWord u → EndsWord (glyphs u) := fun u hu g hg => by
    simpa [endsWord] using hu g hg
  exact single (Piece.isValid_of_isIdentifier h) (show (Symbol.word w).kind ≠ _ ∧ _ from (Piece.reads_word h).kind)
    (fun newline pos u _ => Piece.skipGap_identifier h newline pos (glyphs u))
    fun pos u hu => Piece.scanLexeme_identifier h (hends u hu) pos

/-- Marks that no longer mark begins with. -/
theorem mark {b : UInt8} {k : TokenKind} (h : markOf b = some k) : Spells any [b] [Symbol.mark k] := by
  have hb : b.toNat < 128 ∧ isLineEnd b.toNat = false ∧ CodePoint.isBlank b.toNat = false ∧ b.toNat ≠ 47 ∧
      k ≠ .endOfFile ∧ k ≠ .invalid := by
    obtain ⟨rfl, rfl⟩ | ⟨rfl, rfl⟩ | ⟨rfl, rfl⟩ | ⟨rfl, rfl⟩ | ⟨rfl, rfl⟩ := markOf_cases h <;> decide
  obtain ⟨hascii, hend, hblank, hslash, hkind⟩ := hb
  have hglyphs : glyphs [b] = ascii [b] := glyphs_ascii (List.forall_mem_singleton.2 hascii)
  refine single ?_ hkind (fun newline pos u _ => ?_) fun pos u _ => ?_
  · rw [Utf8.isValid_iff, hglyphs]
    refine List.forall_mem_singleton.2 ?_
    have hne : b.toNat ≠ Utf8.replacement := by
      unfold Utf8.replacement
      omega
    simp [Utf8.isInvalid, hne]
  · rw [hglyphs]
    exact skipGap_blanks .script newline 0 pos (by rintro _ ⟨⟩; exact ⟨hend, hblank, hslash⟩)
  · rw [hglyphs]
    exact scanLexeme_mark h .script pos (glyphs u)

/-- A point before a name. -/
theorem dot : Spells CodePoint.isIdentifierStart [46] [Symbol.mark .dot] := by
  have hglyphs : glyphs [46] = [asciiGlyph 46] := by decide
  refine single (by decide) (by decide) (fun newline pos u _ => ?_) fun pos u hu => ?_
  · rw [hglyphs]
    exact skipGap_blanks .script newline 0 pos (by rintro _ ⟨⟩; decide)
  · have hpunctuator : punctuator? (asciiGlyph 46 :: glyphs u) = some ([46], .dot) := by
      refine punctuator?_alone [("...", .dotDotDot)] (by decide) (by decide) fun e he => ?_
      obtain rfl := List.mem_singleton.1 he
      exact ⟨46, rfl, fun g hg => (CodePoint.ne_of_isIdentifierStart (hu g hg)).2.2.2.1⟩
    have hdigit : Cursor.sees ⟨pos + 1, glyphs u⟩ CodePoint.isDigit = false := by
      cases hgs : glyphs u with
      | nil => rfl
      | cons g gs =>
          have hg := hu g (by rw [hgs]; rfl)
          exact (CodePoint.ne_of_isIdentifierStart hg).2.2.2.2.2.2.1
    rw [hglyphs, List.singleton_append, scanLexeme.eq_def]
    simp [hpunctuator, hdigit, Symbol.mark, CodePoint.isDigit, CodePoint.isIdentifierStart, Cursor.steps, Cursor.step]

/-- Other marks, before a blank. -/
theorem apart {s : Piece} (h : s.Reads) : Spells (· == 32) s.text [{ kind := s.kind, name := s.name }] := by
  have hapart : ∀ u, Follows (· == 32) u → Apart (glyphs u) := fun u hu => by
    cases hgs : glyphs u with
    | nil => exact .inl rfl
    | cons g gs =>
        have hcode : g.code = 32 := by simpa using hu g (by rw [hgs]; rfl)
        have hbytes := Utf8.bytes_of_ascii (t := u) (g := g) (by rw [hgs]; exact List.mem_cons_self) (by omega)
        obtain ⟨code, bytes⟩ := g
        dsimp only at hcode hbytes
        exact .inr ⟨gs, by rw [hbytes, hcode]; rfl⟩
  exact single h.valid h.kind (fun newline pos u hu => h.gap newline pos _ (hapart u hu))
    fun pos u hu => h.scan pos _ (hapart u hu)

/-- Strings. -/
theorem string (us : List UInt16) : Spells any (Quoted.literal (Utf16.toText us)) [Symbol.string us] := by
  have hletters : ∀ l ∈ (Utf16.codePoints us).map Json.Letter.ofCode, l.IsJson := Quoted.isJson_codePoints us
  have hunits : ((Utf16.codePoints us).map Json.Letter.ofCode).flatMap Json.Letter.units = us := Quoted.units_codePoints us
  rw [Quoted.literal_toText]
  refine single (Json.isValid_quoted hletters) ⟨nofun, nofun⟩ (fun newline pos u _ => ?_) fun pos u _ => ?_
  · rw [Json.glyphs_quoted hletters]
    exact skipGap_blanks .script newline 0 pos (by rintro _ ⟨⟩; decide)
  · have hscan := Json.scanLexeme_string hletters .script pos (glyphs u)
    rwa [hunits] at hscan

/-! ### Lists -/

theorem intercalate_ne_nil {α : Type} {as : List α} {g : α → List Symbol} (hne : as ≠ []) (h : ∀ a ∈ as, g a ≠ []) :
    List.intercalate [Symbol.mark .comma] (as.map g) ≠ [] := by
  obtain ⟨a, as, rfl⟩ := List.exists_cons_of_ne_nil hne
  intro hnil
  refine h a List.mem_cons_self ?_
  cases as with
  | nil => simpa using hnil
  | cons b bs =>
      rw [List.map_cons, List.map_cons, List.intercalate_cons_cons, List.append_assoc] at hnil
      exact (List.append_eq_nil_iff.1 hnil).1

/-- Texts with commas between them. -/
theorem joinWith {α : Type} {as : List α} {f : α → Text} {g : α → List Symbol} (hne : as ≠ [])
    (h : ∀ a ∈ as, Spells p (f a) (g a) ∧ g a ≠ []) (hcomma : p 44 = true) :
    Spells p (Text.joinWith ", " (as.map f)) (List.intercalate [Symbol.mark .comma] (as.map g)) := by
  have hmark : Spells (· == 32) [44] [Symbol.mark .comma] :=
    apart (Piece.reads_mark (e := ([44], .comma)) (by decide) (by decide))
  have hsep : (", " : Text) = [44, 32] := by decide
  obtain ⟨a, as, rfl⟩ := List.exists_cons_of_ne_nil hne
  induction as generalizing a with
  | nil => simpa [Text.joinWith] using (h a List.mem_cons_self).1
  | cons a' as ih =>
      obtain ⟨⟨ha, -⟩, has⟩ := List.forall_mem_cons.1 h
      have hrest := (ih a' (by simp) has).blank_of_ne_nil (intercalate_ne_nil (by simp) fun b hb => (has b hb).2)
      have hall := ha.append (hmark.append hrest rfl) (by simp [begins, hcomma])
      rw [List.map_cons, List.map_cons, Text.joinWith, List.intercalate_cons_cons, List.map_cons, List.map_cons,
        List.intercalate_cons_cons, ← List.map_cons, ← List.map_cons, hsep]
      simpa [Text.joinWith, hsep] using hall

/-! ### Sources -/

/-- The tokens of a whole source. -/
theorem lexes {s : Source} (h : Spells p s.contents (x :: xs)) :
    ∃ ts, s.Lexes ts ∧ ts.map Token.symbol = x :: (xs ++ [Symbol.mark .endOfFile]) := by
  obtain ⟨lx', hfinds, hfaces⟩ := h.finds
    { source := s
      dialect := .script
      token := { kind := .endOfFile, start := 0, stop := 0, prevStop := 0, newlineBefore := true, raw := [] }
      cursor := ⟨0, glyphs s.contents⟩ } [] ⟨rfl, by simp, by rw [List.append_nil]⟩ (follows_nil p)
  have hcursor : lx'.cursor = ⟨lx'.cursor.pos, []⟩ := by rw [← show lx'.cursor.rest = [] from hfaces.rest]
  have hend := next_eq (l := { kind := .endOfFile, cursor := ⟨lx'.cursor.pos, []⟩ }) hfaces.valid
    (by rw [hcursor]; rfl) rfl
  cases hfinds with
  | next hnext hlast hfinds =>
      obtain ⟨ts, hts, hsymbols⟩ := hfinds.exists_yields hlast hend rfl
      exact ⟨ts, ⟨_, hnext, hts⟩, hsymbols⟩

end Spells

end Lexer

end ModuleSystem

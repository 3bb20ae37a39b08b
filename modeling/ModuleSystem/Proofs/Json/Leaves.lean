import ModuleSystem.Proofs.Json.Tokens

/-!
# JSON — what tokens are written with

The lexer does not keep the spelling of a string apart from its value, and a word is told by its kind.  Here
the spelling is found again: in a source of valid characters, what is read as a string of JSON is written
with the characters of the grammar (`exists_letters`), and what is read as a constant is one
(`constant_of_scanName`).
-/

namespace ModuleSystem

open Utf8 Lexer Cursor

namespace Json

variable {pos : Nat} {gs : List Glyph} {us : List UInt16}

/-- An ASCII character that is read from bytes is its byte. -/
theorem eq_asciiGlyph {g : Glyph} (h : g.Genuine) (hcode : g.code < 128) : g = asciiGlyph g.code.toUInt8 := by
  obtain ⟨code, bytes⟩ := g
  obtain rfl : bytes = [code.toUInt8] := h.bytes hcode
  have hcode' : code < 256 := Nat.lt_trans hcode (by decide)
  rw [asciiGlyph, toNat_toUInt8 hcode']

/-! ### Strings -/

/-- What stands between the quotes of a string, as far as its end is looked for. -/
inductive Body : List Glyph → Prop where
  | nil : Body []
  | plain {g : Glyph} {gs : List Glyph} (hcontrol : 0x20 ≤ g.code) (hquote : g.code ≠ 34) (hslash : g.code ≠ 92)
      (hgs : Body gs) : Body (g :: gs)
  | escape {g h : Glyph} {gs : List Glyph} (hslash : g.code = 92) (hgs : Body gs) : Body (g :: h :: gs)

/-- What follows a character of a string that is no backslash is the rest of a string. -/
theorem Body.tail {g : Glyph} (h : Body (g :: gs)) (hslash : g.code ≠ 92) : Body gs := by
  cases h with
  | plain _ _ _ hgs => exact hgs
  | escape hslash' _ => exact absurd hslash' hslash

/-- What follows hexadecimal digits is the rest of a string. -/
theorem Body.of_hex {ds : List Glyph} (h : Body (ds ++ gs)) (hds : ∀ g ∈ ds, CodePoint.isHex g.code = true) :
    Body gs := by
  induction ds with
  | nil => exact h
  | cons g ds ih =>
      obtain ⟨hg, hds⟩ := List.forall_mem_cons.1 hds
      refine ih (h.tail fun hslash => ?_) hds
      rw [hslash] at hg
      cases hg

/-- What stands before the closing quote is the body of a string. -/
theorem quotedEnd_body (hgs : ∀ g ∈ gs, g.Genuine) : Ensures (quotedEnd .json 34 pos gs) fun r =>
    r.1 = .quote ∧ ∃ body, Body body ∧ gs = body ++ asciiGlyph 34 :: r.2.rest ∧
      r.2.pos = pos + (bytesOf body).length + 1 := by
  fun_induction quotedEnd .json 34 pos gs with
  | case1 | case2 | case8 | case13 => exact .error
  | case6 pos g hslash h gs hreturn ih =>
      have hg := (hgs g List.mem_cons_self).width (by omega)
      refine (ih fun k hk => hgs k (List.mem_cons_of_mem _ (List.mem_cons_of_mem _ hk))).mono ?_
      rintro r ⟨hclosing, body, hbody, hrest, hpos⟩
      refine ⟨hclosing, g :: h :: body, hbody.escape hslash, by rw [hrest]; rfl, ?_⟩
      simp only [bytesOf_cons, List.length_append, Glyph.width] at hpos hg ⊢
      omega
  | case12 pos g gs _ _ _ hquote =>
      have hg := eq_asciiGlyph (hgs g List.mem_cons_self) (by omega)
      rw [hquote] at hg
      exact .ok ⟨rfl, [], .nil, by rw [hg]; rfl, rfl⟩
  | case14 pos g gs hslash _ _ hquote hcontrol ih =>
      refine (ih fun k hk => hgs k (List.mem_cons_of_mem _ hk)).mono ?_
      rintro r ⟨hclosing, body, hbody, hrest, hpos⟩
      have hcontrol' : 0x20 ≤ g.code := by simpa using hcontrol
      refine ⟨hclosing, g :: body, hbody.plain hcontrol' hquote hslash, by rw [hrest]; rfl, ?_⟩
      simp only [bytesOf_cons, List.length_append, Glyph.width] at hpos ⊢
      omega
  | case7 _ _ _ _ _ h => cases h
  | case3 _ _ _ _ h | case4 _ _ _ _ h | case5 _ _ _ _ h => simp at h
  | case9 _ _ _ _ h | case10 _ _ _ _ h | case11 _ _ _ _ h => simp at h

/-- What is read as hexadecimal digits. -/
theorem readFixed_hex {value count : Nat} : Ensures (readFixed pos value count gs) fun _ =>
    ∃ ds rest, gs = ds ++ rest ∧ ds.length = count ∧ ∀ g ∈ ds, CodePoint.isHex g.code = true := by
  fun_induction readFixed pos value count gs with
  | case1 pos value gs => exact .ok ⟨[], gs, rfl, rfl, by simp⟩
  | case2 | case4 => exact .error
  | case3 pos value count g gs v hv ih =>
      refine ih.mono ?_
      rintro _ ⟨ds, rest, rfl, rfl, hds⟩
      exact ⟨g :: ds, rest, rfl, rfl, List.forall_mem_cons.2 ⟨by simp [CodePoint.isHex, hv], hds⟩⟩

/-- Only scripts go on there. -/
theorem scriptOnly_json {α : Type} {f : Unit → Except Fault α} {Q : α → Prop} :
    Ensures (scriptOnly .json pos >>= f) Q := .error

/-- The escapes that JSON has, and the number of characters after the backslash. -/
theorem readEscape_json : Ensures (readEscape .json pos gs) fun r => ∀ g hs, gs = g :: hs →
    (r.2 = 1 ∧ g.code < 128 ∧ (Letter.short g.code.toUInt8).IsJson) ∨
      (r.2 = 5 ∧ g.code = 117 ∧
        ∃ ds rest, hs = ds ++ rest ∧ ds.length = 4 ∧ ∀ h ∈ ds, CodePoint.isHex h.code = true) := by
  fun_cases readEscape .json pos gs with
  | case1 => exact .ok fun _ _ h => by cases h
  | case2 g gs c u hu =>
      have hall : ∀ p ∈ [((98 : Nat), (8 : UInt16)), (102, 12), (110, 10), (114, 13), (116, 9)],
          p.1 < 128 ∧ (Letter.short p.1.toUInt8).IsJson := by
        decide
      obtain ⟨l₁, l₂, hl, -⟩ := List.lookup_eq_some_iff.1 hu
      refine .ok fun _ _ h => .inl ⟨rfl, ?_⟩
      obtain ⟨rfl, rfl⟩ := List.cons_eq_cons.1 h
      exact hall (c, u) (by rw [hl]; simp)
  | case7 g c _ _ _ _ h117 h hs _ =>
      refine readFixed_hex.bind fun value hdigits => .ok fun _ _ h => .inr ⟨rfl, ?_⟩
      obtain ⟨rfl, rfl⟩ := List.cons_eq_cons.1 h
      exact ⟨h117, hdigits⟩
  | case8 => exact .error
  | case11 g gs c _ _ _ _ _ _ _ _ hc =>
      have hall : ∀ c ∈ [34, 92, 47], c < 128 ∧ (Letter.short c.toUInt8).IsJson := by decide
      refine .ok fun _ _ h => .inl ⟨rfl, hall _ ?_⟩
      obtain ⟨rfl, rfl⟩ := List.cons_eq_cons.1 h
      simpa [or_assoc] using hc
  | _ => exact scriptOnly_json

/-- Digits are in ASCII. -/
theorem ascii_of_hex {ds : List Glyph} (hgs : ∀ g ∈ ds, g.Genuine)
    (h : ∀ g ∈ ds, CodePoint.isHex g.code = true) :
    ∃ digits : Text, ds = ascii digits ∧ ∀ b ∈ digits, CodePoint.isHex b.toNat = true := by
  induction ds with
  | nil => exact ⟨[], rfl, by simp⟩
  | cons g ds ih =>
      obtain ⟨hg, hds⟩ := List.forall_mem_cons.1 h
      obtain ⟨digits, rfl, hdigits⟩ := ih (fun k hk => hgs k (List.mem_cons_of_mem _ hk)) hds
      have hascii := (CodePoint.ascii_of_isHex hg).2
      refine ⟨g.code.toUInt8 :: digits, ?_, List.forall_mem_cons.2 ⟨?_, hdigits⟩⟩
      · rw [ascii_cons, ← eq_asciiGlyph (hgs g List.mem_cons_self) hascii]
      · rwa [toNat_toUInt8 (by omega)]

/-- The value of a string starts with that of its first character or escape. -/
theorem decodeFrom_cons {g : Glyph} (h : decodeFrom .json 0 pos (g :: gs) = .ok us) :
    ∃ r, readUnit .json pos g gs = .ok r ∧ ∃ more, decodeFrom .json r.2 (pos + g.width) gs = .ok more := by
  rw [decodeFrom] at h
  cases hr : readUnit .json pos g gs with
  | error f => rw [hr] at h; cases h
  | ok r =>
      rw [hr, ok_bind] at h
      dsimp only at h
      cases hmore : decodeFrom .json r.2 (pos + g.width) gs with
      | error f => rw [hmore] at h; cases h
      | ok more => exact ⟨r, rfl, more, hmore⟩

/-- What is decoded as the characters of a string is written with the characters of the grammar. -/
theorem letters_of_body (hbody : Body gs) (hvalid : ∀ g ∈ gs, g.Genuine ∧ isInvalid g = false)
    (h : decodeFrom .json 0 pos gs = .ok us) :
    ∃ ls : List Letter, (∀ l ∈ ls, l.IsJson) ∧ gs = ls.flatMap Letter.glyphs := by
  induction hn : gs.length using Nat.strong_induction_on generalizing gs pos us with
  | _ n ih =>
      subst hn
      cases hbody with
      | nil => exact ⟨[], by simp, rfl⟩
      | @plain g gs hcontrol hquote hslash hgs =>
          obtain ⟨hg, hvalid⟩ := List.forall_mem_cons.1 hvalid
          obtain ⟨hle, hsurrogate, hbytes⟩ := bytes_of_valid hg.1 hg.2
          have hreturn : ¬ g.code = 13 := by omega
          obtain ⟨r, hr, more, hmore⟩ := decodeFrom_cons h
          rw [readUnit, if_neg hslash, if_neg hreturn] at hr
          cases hr
          obtain ⟨ls, hls, rfl⟩ := ih gs.length (by simp) hgs hvalid hmore rfl
          refine ⟨.plain g.code :: ls, List.forall_mem_cons.2 ⟨⟨hcontrol, hle, hsurrogate, hquote, hslash⟩, hls⟩, ?_⟩
          rw [List.flatMap_cons, Letter.glyphs, ← hbytes]
          rfl
      | @escape g k gs hslash hgs =>
          obtain ⟨hg, hvalid⟩ := List.forall_mem_cons.1 hvalid
          obtain ⟨hk, hvalid⟩ := List.forall_mem_cons.1 hvalid
          have hg' : g = asciiGlyph 92 := by
            have hg' := eq_asciiGlyph hg.1 (by omega)
            rwa [hslash] at hg'
          obtain ⟨r, hr, more, hmore⟩ := decodeFrom_cons h
          rw [readUnit, if_pos hslash] at hr
          obtain ⟨htaken, hascii, hshort⟩ | ⟨htaken, hu, ds, rest, rfl, hfour, hdigits⟩ := readEscape_json r hr k gs rfl
          -- the escape is a backslash and one letter
          · rw [htaken] at hmore
            obtain ⟨ls, hls, rfl⟩ := ih gs.length (by simp only [List.length_cons]; omega) hgs hvalid hmore rfl
            have hk' := eq_asciiGlyph hk.1 hascii
            generalize k.code.toUInt8 = b at hshort hk'
            refine ⟨.short b :: ls, List.forall_mem_cons.2 ⟨hshort, hls⟩, ?_⟩
            rw [hg', hk', List.flatMap_cons]
            rfl
          -- the escape is a backslash, the letter u and four digits
          · rw [htaken, show 5 = (k :: ds).length by rw [List.length_cons, hfour], ← List.cons_append,
              Letter.decodeFrom_skip] at hmore
            obtain ⟨hds, hrest⟩ := List.forall_mem_append.1 hvalid
            obtain ⟨digits, rfl, hhex⟩ := ascii_of_hex (fun g hg => (hds g hg).1) hdigits
            obtain ⟨ls, hls, rfl⟩ := ih rest.length (by simp; omega) (hgs.of_hex hdigits) hrest hmore rfl
            have hk' : k = asciiGlyph 117 := by
              have hk' := eq_asciiGlyph hk.1 (by omega)
              rwa [hu] at hk'
            refine ⟨.long digits :: ls, List.forall_mem_cons.2 ⟨⟨by simpa [ascii] using hfour, hhex⟩, hls⟩, ?_⟩
            rw [hg', hk', List.flatMap_cons]
            rfl

/-- What is read as a string of JSON is written with the characters of the grammar. -/
theorem exists_letters {quote start : Nat} {resumed : Bool}
    (hvalid : ∀ g ∈ gs, g.Genuine ∧ isInvalid g = false) :
    Ensures (scanQuoted .json quote resumed start ⟨pos, gs⟩) fun r => quote = 34 ∧ ∃ ls : Letters,
      gs = ls.1.flatMap Letter.glyphs ++ asciiGlyph 34 :: r.2.2.rest := by
  rintro ⟨kind, units, stop⟩ hr
  obtain ⟨closing, closed, decoded, hquote, -⟩ := scanQuoted_ok _ hr
  obtain rfl := hquote rfl
  obtain ⟨hclosing, body, hbody, hrest, hpos⟩ := quotedEnd_body (fun g hg => (hvalid g hg).1) _ closed
  dsimp only at hclosing hrest hpos decoded ⊢
  subst hclosing hrest
  have hbytes : stop.pos - Closing.quote.width - pos = (bytesOf body).length := by
    simp only [Closing.width, hpos]
    omega
  obtain ⟨hbodyValid, -⟩ := List.forall_mem_append.1 hvalid
  rw [hbytes, Glyph.takeBytes_append fun g hg => (hbodyValid g hg).1] at decoded
  obtain ⟨ls, hls, rfl⟩ := letters_of_body hbody hbodyValid decoded
  exact ⟨rfl, ⟨ls, hls⟩, rfl⟩

end Json

namespace Lexer

open Json

variable {lx : Lexer} {before gap word : List Glyph}

/-- A string of a JSON source is written with the characters of the grammar. -/
theorem Fresh.string (h : lx.Fresh before gap word) (hjson : lx.dialect = .json)
    (hvalid : isValid lx.source.contents) (hkind : lx.token.kind = .string) :
    ∃ ls : Letters, lx.token.raw = ls.text := by
  obtain ⟨g, gs, hrest, -, scanned⟩ := h.origin.scanQuoted_of_kind hkind
  dsimp only at hrest scanned
  have hglyphs : ∀ k ∈ g :: gs, k.Genuine ∧ isInvalid k = false := fun k hk => by
    have hmem := h.mem_glyphs (hrest ▸ hk)
    exact ⟨Glyph.genuine_of_mem hmem, isValid_iff.1 hvalid k hmem⟩
  obtain ⟨hg, hgs⟩ := List.forall_mem_cons.1 hglyphs
  rw [hjson] at scanned
  obtain ⟨hcode, ls, rfl⟩ := exists_letters hgs _ scanned
  have hg' := eq_asciiGlyph hg.1 (by omega)
  rw [hcode] at hg'
  have hword : word = glyphs ls.text := by
    rw [Letters.text, glyphs_quoted ls.2]
    refine List.append_cancel_right (hrest.trans ?_)
    rw [hg']
    simp
  exact ⟨ls, by rw [h.raw, hword, bytesOf_glyphs]⟩

/-- The only names that are constants are the three of JSON. -/
theorem isConstant_of_nameKind {name : Text} (h : isConstantKind (nameKind name) = true) : IsConstant name := by
  have hall : ∀ p ∈ TokenKind.keywords, isConstantKind p.2 = true → IsConstant p.1 := by decide
  cases hlookup : TokenKind.keywords.lookup name with
  | none =>
      rw [nameKind, hlookup] at h
      cases h
  | some kind =>
      rw [nameKind, hlookup] at h
      obtain ⟨l₁, l₂, hl, -⟩ := List.lookup_eq_some_iff.1 hlookup
      exact hall (name, kind) (by rw [hl]; simp) h

/-- A name is read as one. -/
theorem scanName_of_isName {d : Dialect} {c : Cursor} {l : Lexeme} (h : l.Origin d c) (hname : l.kind.isName = true) :
    scanName d c = .ok (l.kind, l.name, l.cursor) := by
  have hnot : ∀ k, l.kind = k → k.isName = false → scanName d c = .ok (l.kind, l.name, l.cursor) := by
    rintro _ rfl hfalse
    rw [hname] at hfalse
    cases hfalse
  cases h with
  | name _ hscan => exact hscan
  | ended _ hkind | other hkind => exact hnot _ hkind rfl
  | sign hkind | number hkind => obtain hkind | hkind := hkind <;> exact hnot _ hkind rfl
  | mark hmark => exact hnot _ rfl (isName_of_mem_punctuators hmark)
  | quoted _ _ hkind _ =>
      refine hnot _ hkind ?_
      unfold quotedKind
      split
      · rfl
      · split <;> rfl

/-- A constant is written as it is: with escapes it would be no reserved word. -/
theorem Fresh.constant (h : lx.Fresh before gap word) (hkind : isConstantKind lx.token.kind = true) :
    IsConstant lx.token.raw := by
  have hall : ∀ k, isConstantKind k = true → k.isName = true := by
    intro k hk
    cases k <;> first | rfl | cases hk
  have hescaped : ∀ name, isConstantKind (escapedNameKind name) = false := by
    intro name
    unfold escapedNameKind
    split <;> rfl
  have hscan := scanName_of_isName h.origin (hall _ hkind)
  dsimp only at hscan
  unfold scanName at hscan
  extract_lets stop at hscan
  split at hscan
  · cases hname : scanEscapedName lx.dialect lx.token.start 0 (word ++ lx.cursor.rest) stop with
    | error f => rw [hname] at hscan; cases hscan
    | ok r =>
        rw [hname] at hscan
        have hkind' : escapedNameKind r.1 = lx.token.kind := congrArg Prod.fst (Except.ok.inj hscan)
        rw [← hkind', hescaped] at hkind
        cases hkind
  · rename_i name _
    have hkind' : nameKind name = lx.token.kind := congrArg Prod.fst (Except.ok.inj hscan)
    have hstop : stop = lx.cursor := congrArg (·.2.2) (Except.ok.inj hscan)
    have hgenuine : ∀ g ∈ word, g.Genuine := fun g hg =>
      Glyph.genuine_of_mem (h.mem_glyphs (List.mem_append_left _ hg))
    have hwidth : lx.cursor.pos - lx.token.start = (bytesOf word).length := by
      rw [h.pos, h.stop_eq_add, Nat.add_sub_cancel_left]
    have hname : name = lx.token.raw := by
      dsimp only [name]
      rw [hstop, hwidth, Glyph.takeBytes_append hgenuine, h.raw]
    rw [← hkind', hname] at hkind
    exact isConstant_of_nameKind hkind

end Lexer

end ModuleSystem

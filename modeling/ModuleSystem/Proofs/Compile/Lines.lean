import ModuleSystem.Proofs.Compile.Edits
import ModuleSystem.Proofs.Compile.Interfaces
import ModuleSystem.Proofs.Lexer.Ascii
import ModuleSystem.Proofs.Text.Lists
import ModuleSystem.Proofs.Text.Quoting

/-!
# Printing — the lines of a module

A prologue is one line whatever the names and specifiers of the module are, because names have no line
terminators and specifiers are quoted.  An edit keeps the line terminators of what it replaces and adds
none, so the code has those of the source, and every byte that is kept has the same ones before it.  It
stands on the same line too, unless the carriage return and the line feed of two different lines have
met, which a source with paired carriage returns rules out.

* `Edit.Carries`: what edits make of the part of a text from an offset on; `Edited.carries`.
* `Print.prologue_inline`: the prologue of every module that can be read is one line.
* `Print.lines_kept`: compiling keeps line terminators, bytes and lines.
* `Print.lines_met`: a source of which two lines become one.
-/

namespace ModuleSystem

open Utf8 (isValid glyphs)

namespace Text

variable {t u : Text}

theorem Inline.paired (h : Inline t) : paired t.codes := by
  have hends : t.codes.filter isLineEnd = [] := h.lineEnds
  revert hends
  generalize t.codes = cs
  intro hends
  induction cs with
  | nil => rfl
  | cons c cs ih =>
      simp only [List.filter_eq_nil_iff, List.forall_mem_cons] at hends ih
      have hc : c ≠ 13 := by
        rintro rfl
        exact hends.1 rfl
      simp [Text.paired, hc, ih hends.2]

/-- Two texts that end alike, after beginnings with the same line terminators. -/
structure Parallel (careful : Prop) (t u : Text) : Prop where
  exists_parts : ∃ p q v : Text, t = p ++ v ∧ u = q ++ v ∧ isValid p ∧ isValid q ∧
    p.lineEnds = q.lineEnds ∧ (careful → paired p.codes ∧ paired q.codes)

namespace Parallel

variable {careful : Prop}

theorem refl (t : Text) : Parallel careful t t :=
  ⟨[], [], t, rfl, rfl, rfl, rfl, rfl, fun _ => ⟨rfl, rfl⟩⟩

/-- Beginnings with the same line terminators can be put before texts that end alike. -/
theorem append {p q : Text} {careful' : Prop} (h : Parallel careful' t u) (hp : isValid p)
    (hq : isValid q) (hends : p.lineEnds = q.lineEnds)
    (hpaired : careful → careful' ∧ paired p.codes ∧ paired q.codes) :
    Parallel careful (p ++ t) (q ++ u) := by
  obtain ⟨p', q', v, rfl, rfl, hp', hq', hends', hpaired'⟩ := h
  refine ⟨p ++ p', q ++ q', v, by simp, by simp, Utf8.isValid_append hp hp', Utf8.isValid_append hq hq',
    by rw [lineEnds_append hp, lineEnds_append hq, hends, hends'], fun hcareful => ?_⟩
  obtain ⟨hcareful', hpp, hpq⟩ := hpaired hcareful
  obtain ⟨hpp', hpq'⟩ := hpaired' hcareful'
  rw [codes_append hp, codes_append hq]
  exact ⟨paired_append hpp hpp', paired_append hpq hpq'⟩

theorem lineEnds (h : Parallel careful t u) : t.lineEnds = u.lineEnds := by
  obtain ⟨p, q, v, rfl, rfl, hp, hq, hends, -⟩ := h
  rw [lineEnds_append hp, lineEnds_append hq, hends]

theorem ended (h : Parallel careful t u) (hcareful : careful) :
    Line.ended false t.codes = Line.ended false u.codes := by
  obtain ⟨p, q, v, rfl, rfl, hp, hq, hends, hpaired⟩ := h
  rw [codes_append hp, codes_append hq]
  exact Line.ended_append_congr (hpaired hcareful).1 (hpaired hcareful).2 hends

end Parallel

end Text

namespace Edit

open Text (Joint Inline Parallel paired)

/-! ### Edits and lines -/

/-- No edit replaces the byte at an offset. -/
def Kept (es : List Edit) (n : Nat) : Prop := ∀ e ∈ es, n < e.start ∨ e.stop ≤ n

instance (es : List Edit) (n : Nat) : Decidable (Kept es n) :=
  inferInstanceAs (Decidable (∀ e ∈ es, n < e.start ∨ e.stop ≤ n))

/-- The edits from the offset `pos` on turn `rest` into `out`: they keep its line terminators, and
`place` tells where each byte goes that they keep. -/
structure Carries (pos : Nat) (es : List Edit) (rest out : Text) (place : Nat → Nat) : Prop where
  valid : isValid out
  lineEnds : out.lineEnds = rest.lineEnds
  paired : paired rest.codes → paired out.codes
  lt : ∀ k < rest.length, Kept es (pos + k) → place k < out.length
  byte : ∀ k < rest.length, Kept es (pos + k) → out[place k]? = rest[k]?
  order : ∀ k < rest.length, Kept es (pos + k) → ∀ j < k, Kept es (pos + j) → place j < place k
  parallel : ∀ k < rest.length, Kept es (pos + k) →
    Parallel (Text.paired rest.codes) (rest.take k) (out.take (place k))

theorem Carries.nil {pos : Nat} {rest : Text} (h : isValid rest) : Carries pos [] rest rest id where
  valid := h
  lineEnds := rfl
  paired := id
  lt _ hk _ := hk
  byte _ _ _ := rfl
  order _ _ _ _ hj _ := hj
  parallel _ _ _ := .refl _

variable {pos : Nat} {es : List Edit} {rest out kept old text : Text} {rank : EditRank}
  {place : Nat → Nat}

/-- A kept byte is before what an edit replaces, or behind it. -/
theorem Kept.cons {k : Nat}
    (h : Kept (⟨pos + kept.length, pos + kept.length + old.length, text, rank⟩ :: es) (pos + k)) :
    k < kept.length ∨ ∃ j, k = kept.length + old.length + j ∧
      Kept es (pos + kept.length + old.length + j) := by
  obtain ⟨he, hes⟩ := List.forall_mem_cons.1 h
  obtain hlt | hle := he
  · exact .inl (by simpa using hlt)
  · refine .inr ⟨k - (kept.length + old.length), by dsimp only at hle; omega, ?_⟩
    rw [show pos + kept.length + old.length + (k - (kept.length + old.length)) = pos + k by
      dsimp only at hle; omega]
    exact hes

/-! What stands before the rest, in the source and in the result: a piece that is kept, and one that is
replaced by text on one line and its own line breaks. -/

/-- Where a well-formed range is replaced, the result is well-formed. -/
theorem isValid_replaced (hkept : isValid kept) (hinline : Inline text) (hold : isValid old) :
    isValid (kept ++ (text ++ lineBreaks old)) :=
  Utf8.isValid_append hkept (Utf8.isValid_append hinline.valid (Text.codes_lineBreaks hold).2)

/-- A replaced range keeps its line terminators. -/
theorem lineEnds_replaced (hkept : isValid kept) (hinline : Inline text) (hold : isValid old) :
    (kept ++ old).lineEnds = (kept ++ (text ++ lineBreaks old)).lineEnds := by
  have hbreaks : (lineBreaks old).lineEnds = old.lineEnds := by
    simp only [Text.lineEnds, (Text.codes_lineBreaks hold).1, List.filter_filter, Bool.and_self]
  rw [Text.lineEnds_append hkept, Text.lineEnds_append hkept, Text.lineEnds_append hinline.valid,
    hinline.lineEnds, hbreaks, List.nil_append]

/-- No carriage return loses its line feed where a range is replaced. -/
theorem paired_replaced (hinline : Inline text) (hkept : Joint kept (old ++ rest)) (hold : Joint old rest)
    (h : Text.paired (Text.codes (kept ++ (old ++ rest)))) :
    Text.paired rest.codes ∧ Text.paired (Text.codes (kept ++ old)) ∧
      Text.paired (Text.codes (kept ++ (text ++ lineBreaks old))) := by
  obtain ⟨hpkept, hprest⟩ := hkept.paired h
  obtain ⟨hpold, hprest⟩ := hold.paired hprest
  rw [Text.codes_append hkept.left, Text.codes_append hkept.left, Text.codes_append hinline.valid,
    (Text.codes_lineBreaks hold.left).1]
  exact ⟨hprest, Text.paired_append hpkept hpold,
    Text.paired_append hpkept (Text.paired_append hinline.paired (Text.paired_filter hpold))⟩

theorem Carries.cons (hinline : Inline text) (hkept : Joint kept (old ++ rest)) (hold : Joint old rest)
    (h : Carries (pos + kept.length + old.length) es rest out place) :
    Carries pos (⟨pos + kept.length, pos + kept.length + old.length, text, rank⟩ :: es)
      (kept ++ (old ++ rest)) (kept ++ (text ++ (lineBreaks old ++ out))) fun k =>
        if k < kept.length then k
        else kept.length + text.length + (lineBreaks old).length +
          place (k - (kept.length + old.length)) := by
  have hsource : isValid (kept ++ old) := Utf8.isValid_append hkept.left hold.left
  have hresult := isValid_replaced hkept.left hinline hold.left
  have hends := lineEnds_replaced hkept.left hinline hold.left
  have hpaired := paired_replaced hinline hkept hold
  have hresult_eq : kept ++ (text ++ (lineBreaks old ++ out)) =
      (kept ++ (text ++ lineBreaks old)) ++ out := by
    simp
  have hsource_eq : kept ++ (old ++ rest) = (kept ++ old) ++ rest := by simp
  have hlength : (kept ++ (text ++ lineBreaks old)).length =
      kept.length + text.length + (lineBreaks old).length := by
    simp [Nat.add_assoc]
  refine
    { valid := by rw [hresult_eq]; exact Utf8.isValid_append hresult h.valid
      lineEnds := by
        rw [hresult_eq, hsource_eq, Text.lineEnds_append hresult, Text.lineEnds_append hsource, hends,
          h.lineEnds]
      paired := fun hall => by
        rw [hresult_eq, Text.codes_append hresult]
        exact Text.paired_append (hpaired hall).2.2 (h.paired (hpaired hall).1)
      lt := fun k hk hnot => ?_
      byte := fun k hk hnot => ?_
      order := fun k hk hnot j hj hnot' => ?_
      parallel := fun k hk hnot => ?_ }
  -- a place that no edit covers lies in the piece that is kept or behind the edit
  all_goals obtain hlt | ⟨k, rfl, hk'⟩ := hnot.cons
  · simp only [hlt, if_true, List.length_append]
    omega
  · have := h.lt k (by simp only [List.length_append] at hk; omega) hk'
    rw [if_neg (by omega), Nat.add_sub_cancel_left]
    simp only [List.length_append]
    omega
  · rw [if_pos hlt, List.getElem?_append_left hlt, List.getElem?_append_left hlt]
  · rw [if_neg (by omega), Nat.add_sub_cancel_left, hresult_eq, ← hlength,
      List.getElem?_append_right (Nat.le_add_right _ _), Nat.add_sub_cancel_left, hsource_eq,
      ← List.length_append, List.getElem?_append_right (Nat.le_add_right _ _), Nat.add_sub_cancel_left]
    exact h.byte k (by simp only [List.length_append] at hk; omega) hk'
  · rw [if_pos (hj.trans hlt), if_pos hlt]
    exact hj
  · rw [if_neg (show ¬ kept.length + old.length + k < kept.length by omega), Nat.add_sub_cancel_left]
    obtain hlt | ⟨j, rfl, hj'⟩ := hnot'.cons
    · rw [if_pos hlt]
      omega
    · have := h.order k (by simp only [List.length_append] at hk; omega) hk' j (by omega) hj'
      rw [if_neg (by omega), Nat.add_sub_cancel_left]
      omega
  · rw [if_pos hlt, List.take_append_of_le_length hlt.le, List.take_append_of_le_length hlt.le]
    exact .refl _
  · rw [if_neg (by omega), Nat.add_sub_cancel_left, hresult_eq, ← hlength, hsource_eq,
      ← List.length_append, List.take_length_add_append, List.take_length_add_append]
    exact (h.parallel k (by simp only [List.length_append] at hk; omega) hk').append hsource hresult
      hends (hsource_eq ▸ hpaired)

/-- Edits whose texts are on one line, between places where the source can be cut, carry it over. -/
theorem Edited.carries (h : Edited pos es rest out) {done : Text} (hpos : done.length = pos)
    (hdone : isValid done) (hvalid : isValid (done ++ rest))
    (hes : ∀ e ∈ es, (done ++ rest).Seam e.start ∧ (done ++ rest).Seam e.stop ∧ Inline e.text) :
    ∃ place, Carries pos es rest out place := by
  induction h generalizing done with
  | nil rest => exact ⟨id, .nil (Text.isValid_right hvalid hdone)⟩
  | @cons pos es rest out kept old text rank tail ih =>
      subst hpos
      obtain ⟨⟨hstart, hstop, hinline⟩, hes⟩ := List.forall_mem_cons.1 hes
      dsimp only at hstart hstop
      have hkept : Joint (done ++ kept) (old ++ rest) :=
        Text.Seam.joint (by simpa using hstart) (by simpa using hvalid)
      have hold : Joint (done ++ kept ++ old) rest :=
        Text.Seam.joint (by simpa [Nat.add_assoc] using hstop) (by simpa using hvalid)
      obtain ⟨place, hplace⟩ := @ih (done ++ kept ++ old) (by simp [Nat.add_assoc]) hold.left
        (by simpa using hvalid) (by simpa using hes)
      exact ⟨_, hplace.cons hinline (hkept.of_append hdone) (hold.of_append hkept.left)⟩

end Edit

/-! ### Names and quoted texts -/

/-- An identifier holds no line terminator. -/
theorem inline_of_isIdentifier {t : Text} (h : isIdentifier t = true) : t.Inline := by
  have hparts : ∀ g ∈ glyphs t, CodePoint.isIdentifierPart g.code = true := by
    unfold isIdentifier at h
    split at h
    · cases h
    · rename_i g gs hglyphs
      rw [hglyphs]
      simp only [Bool.and_eq_true, List.all_eq_true] at h
      exact List.forall_mem_cons.2 ⟨CodePoint.isIdentifierPart_of_isIdentifierStart h.1, h.2⟩
  refine Text.inline_of_glyphs fun g hg => ?_
  obtain ⟨hend, hne⟩ := CodePoint.ne_of_isIdentifierPart (hparts g hg)
  exact ⟨by simp [Utf8.isInvalid, hne], hend⟩

/-- Numbers are written in decimal digits. -/
theorem Text.digit_of_mem_ofNat {n : Nat} {b : UInt8} (h : b ∈ Text.ofNat n) : 48 ≤ b.toNat ∧ b.toNat ≤ 57 := by
  obtain ⟨c, hc, hb⟩ := List.mem_flatMap.1 h
  have hdigit : 48 ≤ c.val ∧ c.val ≤ 57 := by
    rw [show toString n = String.ofList (Nat.toDigits 10 n) from rfl, String.toList_ofList] at hc
    simpa [Char.isDigit] using Nat.isDigit_of_mem_toDigits (by decide) (by decide) hc
  have hlow : 48 ≤ c.val.toNat := by simpa [Char.isDigit, UInt32.le_iff_toNat_le] using hdigit.1
  have hhigh : c.val.toNat ≤ 57 := by simpa [Char.isDigit, UInt32.le_iff_toNat_le] using hdigit.2
  rw [String.utf8EncodeChar, if_pos (by omega), List.mem_singleton] at hb
  subst hb
  simp only [UInt8.toNat_ofNat']
  omega

/-- An identifier with digits at its end is an identifier. -/
theorem isIdentifier_append_ofNat {t : Text} (h : isIdentifier t = true) (n : Nat) :
    isIdentifier (t ++ Text.ofNat n) = true := by
  have hascii : glyphs (Text.ofNat n) = Lexer.ascii (Text.ofNat n) := Lexer.glyphs_ascii fun b hb => by
    have := Text.digit_of_mem_ofNat hb
    omega
  have hparts : ∀ g ∈ Lexer.ascii (Text.ofNat n), CodePoint.isIdentifierPart g.code = true := by
    intro g hg
    obtain ⟨b, hb, rfl⟩ := List.mem_map.1 hg
    have hdigit : ∀ c < 58, 48 ≤ c → CodePoint.isIdentifierPart c = true := by decide
    have hb := Text.digit_of_mem_ofNat hb
    exact hdigit b.toNat (by omega) hb.1
  have hglyphs := @Utf8.glyphs_append _ (Text.ofNat n) (inline_of_isIdentifier h).valid
  unfold isIdentifier at h ⊢
  rw [hglyphs, hascii]
  cases hgs : glyphs t with
  | nil => rw [hgs] at h; cases h
  | cons g gs =>
      rw [hgs] at h
      dsimp only at h
      simp only [List.cons_append, Bool.and_eq_true, List.all_append, List.all_eq_true] at h ⊢
      exact ⟨h.1, h.2, hparts⟩

namespace GeneratedNames

/-- The names that printing introduces are identifiers. -/
structure Named (n : GeneratedNames) : Prop where
  runtime : isIdentifier n.runtime = true
  unnamed : isIdentifier n.unnamed = true
  value : isIdentifier n.value = true

/-- The names that printing introduces are on one line. -/
structure Inline (n : GeneratedNames) : Prop where
  runtime : n.runtime.Inline
  unnamed : n.unnamed.Inline
  value : n.value.Inline

theorem fresh_identifier (used : List Text) {base : Text} (h : isIdentifier base = true) :
    isIdentifier (fresh used base) = true := by
  unfold fresh
  cases hfind : ((List.range (used.length + 1)).map (candidate base)).find? fun n => !used.contains n with
  | none => exact h
  | some t =>
      obtain ⟨k, -, rfl⟩ := List.mem_map.1 (List.mem_of_find?_eq_some hfind)
      simp only [Option.getD_some]
      unfold candidate
      split
      · exact h
      · exact isIdentifier_append_ofNat h _

theorem ofOutline_named (o : Outline) : (ofOutline o).Named :=
  ⟨fresh_identifier _ (by decide), fresh_identifier _ (by decide), fresh_identifier _ (by decide)⟩

theorem ofOutline_inline (o : Outline) : (ofOutline o).Inline :=
  have h := ofOutline_named o
  ⟨inline_of_isIdentifier h.runtime, inline_of_isIdentifier h.unnamed, inline_of_isIdentifier h.value⟩

end GeneratedNames

namespace Interface

/-- All names in other modules and names of exports have one property, and all local names another one. -/
structure All (name localName : Text → Prop) (i : Interface) : Prop where
  exports : ∀ e ∈ i.localExports, name e.name ∧ localName e.localName
  imports : ∀ m ∈ i.namedImports, name m.importName ∧ localName m.localName
  records : ∀ r ∈ i.records, name r.path

theorem isIdentifier_defaultName : isIdentifier defaultName = true := by decide

section All

variable {s : Source} {gs : List Margin} {start stop : Nat → Prop} {name localName : Text → Prop}
  (hname : ∀ t, (layout s gs start stop).quoted t → name t) (hlocal : ∀ t, isIdentifier t = true → localName t)

include hname hlocal

theorem importsOf_all (hstar : name star) {st : Statement} (h : st.Meets (layout s gs start stop)) {m : NamedImport}
    (hm : m ∈ importsOf st) : name m.importName ∧ localName m.localName := by
  cases st with
  | imports range record byDefault nameSpace items =>
      obtain ⟨hdefault, hnameSpace, hitems⟩ := h
      simp only [importsOf, List.mem_append, List.mem_map, Option.mem_toList] at hm
      obtain (⟨b, hb, rfl⟩ | ⟨b, hb, rfl⟩) | ⟨item, hitem, rfl⟩ := hm
      · exact ⟨hname _ (.inl isIdentifier_defaultName), hlocal _ (hdefault b hb)⟩
      · exact ⟨hstar, hlocal _ (hnameSpace b hb)⟩
      · exact ⟨hname _ (hitems item hitem).1, hlocal _ (hitems item hitem).2⟩
  | _ => cases hm

omit hname hlocal in
theorem All.addClauseItem {i : Interface} (h : i.All name localName) (imports : List NamedImport)
    {item : ClauseItem} (hitem : name item.asName ∧ localName item.name) :
    (addClauseItem imports i item).All name localName := by
  unfold Interface.addClauseItem
  split
  · exact { h with }
  · exact { h with exports := forall_mem_append_singleton h.exports hitem }

theorem All.addExports {i : Interface} (h : i.All name localName) (imports : List NamedImport) {unnamed : Text}
    (hunnamed : localName unnamed) {st : Statement} (hst : st.Meets (layout s gs start stop)) :
    (addExports imports unnamed i st).All name localName := by
  cases st with
  | imports | exportFrom | exportStar | exportStarAs => exact { h with }
  | exportClause range items =>
      exact List.foldlRecOn (motive := All name localName) items _ h fun i hi item hitem =>
        hi.addClauseItem imports ⟨hname _ (hst item hitem).2, hlocal _ (hst item hitem).1⟩
  | exportDeclaration keyword names =>
      refine { h with exports := List.forall_mem_append.2 ⟨h.exports, fun e he => ?_⟩ }
      obtain ⟨b, hb, rfl⟩ := List.mem_map.1 he
      have hword : isIdentifier b.name = true := hst b hb
      exact ⟨hname _ (.inl hword), hlocal _ hword⟩
  | exportDefault keyword kind declared insertAt =>
      refine { h with exports := forall_mem_append_singleton h.exports ⟨hname _ (.inl isIdentifier_defaultName), ?_⟩ }
      cases declared with
      | none => exact hunnamed
      | some b => exact hlocal _ (hst.1 b rfl)

/-- What the names of a source have in common, the names of its interface have. -/
theorem ofOutline_all (hstar : name star) {o : Outline} (h : o.Meets (layout s gs start stop)) {unnamed : Text}
    (hunnamed : localName unnamed) : (ofOutline o unnamed).All name localName := by
  unfold ofOutline
  extract_lets namedImports
  refine List.foldlRecOn (motive := All name localName) o.statements _ ⟨by simp, fun m hm => ?_, fun r hr => ?_⟩
    fun i hi st hst => hi.addExports hname hlocal namedImports hunnamed (h.statements st hst)
  · obtain ⟨st, hst, hm⟩ := List.mem_flatMap.1 hm
    exact importsOf_all hname hlocal hstar (h.statements st hst) hm
  · exact hname _ (h.records r hr)

end All

/-- What is printed of an interface is on one line. -/
structure Inline (i : Interface) : Prop where
  exports : ∀ e ∈ i.localExports, (Quoted.literal e.name).Inline ∧ e.localName.Inline
  imports : ∀ m ∈ i.namedImports, (Quoted.literal m.importName).Inline ∧ m.localName.Inline
  records : ∀ r ∈ i.records, (Quoted.literal r.path).Inline

variable {s : Source} {gs : List Margin} {start stop : Nat → Prop}

theorem literal_inline_of_quoted {t : Text} (h : (layout s gs start stop).quoted t) :
    (Quoted.literal t).Inline := by
  obtain h | ⟨us, rfl⟩ := h
  · exact Quoted.literal_inline (inline_of_isIdentifier h).valid
  · exact Quoted.literal_toText_inline us

theorem ofOutline_inline {o : Outline} (h : o.Meets (layout s gs start stop)) {unnamed : Text}
    (hunnamed : unnamed.Inline) : (ofOutline o unnamed).Inline := by
  have hall : (ofOutline o unnamed).All (fun t => (Quoted.literal t).Inline) Text.Inline :=
    ofOutline_all (fun t => literal_inline_of_quoted) (fun t => inline_of_isIdentifier)
      (Quoted.literal_inline (by decide)) h hunnamed
  exact ⟨hall.exports, hall.imports, hall.records⟩

end Interface

namespace Print

variable {s : Source} {o : Outline} {i : Interface} {n : GeneratedNames} {gs : List Margin} {e : Edit}

/-! ### The texts of edits, and the prologue -/

/-- The text of an edit is on one line. -/
theorem text_inline (hn : n.Inline) (he : e ∈ listed o i n) : e.text.Inline := by
  cases callsFor_of_mem he with
  | hashbang | removed => exact .nil
  | constant => exact (Text.Inline.append (by decide) hn.unnamed).append (by decide)
  | named => exact Text.Inline.append (by decide) hn.unnamed
  | importMeta => exact hn.runtime
  | dynamicImport | opened => exact hn.runtime.append (by decide)
  | loop =>
      unfold loopEdit
      split
      · exact hn.runtime.append (by decide)
      · exact (Text.Inline.append (by decide) hn.runtime).append (by decide)
  | closed => exact show Text.Inline ")" by decide

/-- The call that registers the exports stands on one line. -/
theorem exportCall_inline (hi : i.Inline) (hn : n.Inline) : (exportCall i n).Inline := by
  unfold exportCall
  split
  · exact .nil
  · extract_lets entry
    refine Text.Inline.append (Text.Inline.append (hn.runtime.append (by decide))
      (.joinWith (by decide) fun t ht => ?_)) (by decide)
    obtain ⟨e, he, rfl⟩ := List.mem_map.1 ht
    obtain ⟨hname, hlocal⟩ := hi.exports e he
    exact Text.Inline.append (hname.append (by decide)) hlocal

/-- The declaration of the local names stands on one line. -/
theorem importDeclaration_inline (hi : i.Inline) : (importDeclaration i).Inline := by
  unfold importDeclaration
  split
  · exact .nil
  · refine Text.Inline.append (Text.Inline.append (by decide)
      (.joinWith (by decide) fun t ht => ?_)) (by decide)
    obtain ⟨m, hm, rfl⟩ := List.mem_map.1 (List.mem_eraseDups.1 ht)
    exact (hi.imports m hm).2

/-- The call that registers the imports of a record stands on one line. -/
theorem importCall_inline (hi : i.Inline) (hn : n.Inline) {path : Text}
    (hpath : (Quoted.literal path).Inline) (record : Nat) : (importCall i n path record).Inline := by
  have hentries : ∀ t ∈ importEntries i n record, t.Inline := by
    unfold importEntries
    extract_lets named assign
    intro t ht
    obtain ⟨name, hname, rfl⟩ := List.mem_map.1 ht
    obtain ⟨m, hm, rfl⟩ := List.mem_map.1 (List.mem_eraseDups.1 hname)
    have hliteral := (hi.imports m (List.mem_filter.1 hm).1).1
    refine Text.Inline.append (((hliteral.append (by decide)).append hn.value).append
      (by decide) |>.append (.flatMap fun m' hm' => ?_)) (by decide)
    have hlocal := (hi.imports m' (List.mem_filter.1 (List.mem_filter.1 hm').1).1).2
    exact Text.Inline.append (((Text.Inline.append (by decide) hlocal).append
      (by decide)).append hn.value) (by decide)
  unfold importCall
  extract_lets entries
  split
  · exact .nil
  · exact Text.Inline.append ((((hn.runtime.append (by decide)).append hpath).append
      (by decide)).append (.joinWith (by decide) hentries)) (by decide)

/-- The prologue of a module is one line. -/
theorem prologue_inline (hi : i.Inline) (hn : n.Inline) : (prologue i n).Inline := by
  refine Text.Inline.append (Text.Inline.append (Text.Inline.append (Text.Inline.append
    ((Text.Inline.append (by decide) hn.runtime).append (by decide))
    (exportCall_inline hi hn)) (importDeclaration_inline hi)) (.flatMap fun ⟨r, k⟩ hr => ?_))
    (by decide)
  exact importCall_inline hi hn (hi.records r (List.fst_mem_of_mem_zipIdx hr)) k

/-- Every edit starts and ends between two characters. -/
theorem edit_seams (h : o.LaidOut s gs) (he : e ∈ listed o i n) :
    s.contents.Seam e.start ∧ s.contents.Seam e.stop := by
  obtain ⟨k, hk, -, hspan⟩ | ⟨-, hspan, hstart⟩ | ⟨-, hspan, hstop⟩ := mem_listed h.meets he
  · obtain ⟨g, hg, rfl⟩ := List.mem_map.1 (h.cuts.subset hk)
    simp only [span, Prod.mk.injEq] at hspan
    rw [hspan.1, hspan.2]
    exact ⟨(h.drawn g hg).seam_start, (h.drawn g hg).seam_stop⟩
  · exact ⟨hstart.1.2, hspan ▸ hstart.1.2⟩
  · exact ⟨hstop.1.2, hspan ▸ hstop.1.2⟩

/-- Compiling a valid text keeps its lines. The prologue has no line terminator, and the code has those
of the source and one line feed more. Every byte that no edit replaces is in the code, in the same order,
with the same line terminators before it, and on the line with the same number if each carriage return of
the source is directly followed by a line feed. -/
theorem lines_kept (s : Source) (hvalid : isValid s.contents) (c : Compiled)
    (h : compile s (some .script) = .ok c) :
    ∃ o i n, Outline.read s = .ok o ∧ n = GeneratedNames.ofOutline o ∧
      i = Interface.ofOutline o n.unnamed ∧
      c.code = prologue i n ++ Edit.apply s.contents (edits o i n) ++ epilogue ∧
      (prologue i n).lineEnds = [] ∧ c.code.lineEnds = s.contents.lineEnds ++ [10] ∧
      ∃ place : Nat → Nat, ∀ k < s.contents.length, Edit.Kept (edits o i n) k →
        (prologue i n).length ≤ place k ∧ c.code[place k]? = s.contents[k]? ∧
        (∀ j < k, Edit.Kept (edits o i n) j → place j < place k) ∧
        Text.lineEnds (c.code.take (place k)) = Text.lineEnds (s.contents.take k) ∧
        (Text.paired s.contents.codes →
          (Line.containing c.code (place k)).number = (Line.containing s.contents k).number) := by
  obtain @⟨o, hread⟩ := compiles_of_eq h
  obtain ⟨gs, hgs⟩ := Outline.read_laidOut hread
  have hn := GeneratedNames.ofOutline_inline o
  generalize hndef : GeneratedNames.ofOutline o = n at hn
  have hi := Interface.ofOutline_inline hgs.meets hn.unnamed
  generalize hidef : Interface.ofOutline o n.unnamed = i at hi
  have hprologue := prologue_inline hi hn
  have hcode : (module s o).1 =
      prologue i n ++ Edit.apply s.contents (edits o i n) ++ epilogue := by
    simp only [module, hndef, hidef]
  have hedited : Edit.Edited 0 (edits o i n) s.contents (Edit.apply s.contents (edits o i n)) := edits_edited hgs
  obtain ⟨place, hplace⟩ := @Edit.Edited.carries _ _ _ _ hedited [] rfl rfl hvalid
    fun e he => ⟨(edit_seams hgs (edits_perm.subset he)).1, (edit_seams hgs (edits_perm.subset he)).2,
      text_inline hn (edits_perm.subset he)⟩
  refine ⟨o, i, n, hread, hndef.symm, hidef.symm, hcode, hprologue.lineEnds, ?_,
    fun k => (prologue i n).length + place k, fun k hk hkept => ?_⟩
  · dsimp only
    rw [hcode, List.append_assoc, Text.lineEnds_append hprologue.valid,
      Text.lineEnds_append hplace.valid, hprologue.lineEnds, hplace.lineEnds, List.nil_append]
    rfl
  · -- the prologue moves every place by its own length
    have hkept' : Edit.Kept (edits o i n) (0 + k) := by rwa [Nat.zero_add]
    have hlt := hplace.lt k hk hkept'
    have htake : (module s o).1.take ((prologue i n).length + place k) =
        prologue i n ++ (Edit.apply s.contents (edits o i n)).take (place k) := by
      rw [hcode, List.append_assoc, List.take_length_add_append,
        List.take_append_of_le_length hlt.le]
    have hparallel := (hplace.parallel k hk hkept').append (p := []) rfl hprologue.valid
      hprologue.lineEnds.symm fun hpaired => ⟨hpaired, rfl, hprologue.paired⟩
    rw [← htake, List.nil_append] at hparallel
    refine ⟨Nat.le_add_right _ _, ?_, fun j hj hj' => ?_, hparallel.lineEnds.symm,
      fun hpaired => ?_⟩
    · dsimp only
      rw [hcode, List.append_assoc, List.getElem?_append_right (Nat.le_add_right _ _),
        Nat.add_sub_cancel_left, List.getElem?_append_left hlt]
      exact hplace.byte k hk hkept'
    · exact Nat.add_lt_add_left (hplace.order k hk hkept' j hj (by rwa [Nat.zero_add])) _
    · rw [Line.containing_number, Line.containing_number]
      exact (hparallel.ended hpaired).symm

/-- A module with line terminators of all kinds in what is cut, and with escaped ones in a specifier. -/
def spread : Source :=
  { contents := "import \x7b\r\n a as b\n\x7d from '\\n\\u2028';\u2028export\u2029default\r\nb" }

theorem lines_kept_spread : isValid spread.contents ∧ Text.paired spread.contents.codes ∧
    ∃ c, compile spread (some .script) = .ok c ∧
      c.code.lineEnds = [13, 10, 10, 0x2028, 0x2029, 13, 10, 10] := by
  have hvalid : isValid spread.contents := by decide +kernel
  have hcompile : (compile spread (some .script)).toBool = true := by decide +kernel
  refine ⟨hvalid, by decide +kernel, ?_⟩
  cases h : compile spread (some .script) with
  | error fs => rw [h] at hcompile; cases hcompile
  | ok c =>
      obtain ⟨o, i, n, -, -, -, -, -, hends, -⟩ := lines_kept spread hvalid c h
      exact ⟨c, rfl, hends.trans (by decide +kernel)⟩

/-- A module with a carriage return and a line feed in what is cut, not next to each other. -/
def parted : Source := { contents := "import \x7b\r a\n\x7d from 'x'\nlet b" }

/-- The outline of `parted`. -/
def partedOutline : Outline :=
  { records := [⟨"x", ⟨19, 3⟩, false⟩]
    statements := [.imports ⟨0, 22⟩ 0 none none [⟨"a", "a", 10, 10⟩]]
    usedNames := ["b", "let", "a"] }

/-- Cutting the statement brings a carriage return and a line feed together that ended two lines, and
the rest of the code moves up by one line: the letter at offset 23 is on no line with its number. -/
theorem lines_met : isValid parted.contents ∧ ∃ o c, Outline.read parted = .ok o ∧
    compile parted (some .script) = .ok c ∧
    let n := GeneratedNames.ofOutline o
    Edit.Kept (edits o (Interface.ofOutline o n.unnamed) n) 23 ∧
      ∀ p, c.code[p]? = parted.contents[23]? →
        (Line.containing c.code p).number ≠ (Line.containing parted.contents 23).number := by
  have hread : Outline.read parted = .ok partedOutline := Outline.read_eq_ok (by decide +kernel)
  let n := GeneratedNames.ofOutline partedOutline
  let i := Interface.ofOutline partedOutline n.unnamed
  have hedits : edits partedOutline i n = [.remove ⟨0, 22⟩] := List.mergeSort_singleton _
  let code : Text := prologue i n ++ Edit.apply parted.contents [.remove ⟨0, 22⟩] ++ epilogue
  have hcompile : compile parted (some .script) = .ok ⟨parted, code, i, []⟩ := by
    simp only [compile, hread, Print.module]
    rw [hedits]
  refine ⟨by decide +kernel, partedOutline, _, hread, hcompile, ?_, fun p hp => ?_⟩
  · show Edit.Kept (edits partedOutline i n) 23
    rw [hedits]
    decide
  · have hlt : p < code.length := by
      by_contra hle
      rw [List.getElem?_eq_none (by simpa using hle)] at hp
      exact absurd hp (by decide +kernel)
    have hall : ∀ p < code.length, code[p]? = parted.contents[23]? →
        (Line.containing code p).number ≠ (Line.containing parted.contents 23).number := by
      decide +kernel
    exact hall p hlt hp

end Print

end ModuleSystem

import ModuleSystem.Json.Check
import ModuleSystem.Proofs.Json.Tokens
import ModuleSystem.Proofs.Lexer.Literals

/-!
# JSON — every text of the grammar is accepted

The check reads a JSON text along its tree.  `Tree.Checks`, `Items.Checks` and `Members.Checks` say what it
does on a value, on the elements of an array and on the members of an object, in any surroundings: it passes
exactly the text, and all that it reports are the keys that repeat an earlier one.  They hold of all trees by
an induction with one lemma for each constructor.

* `check_text`: of a text of the grammar, only repeated keys are reported.
-/

namespace ModuleSystem.Json

open Utf8 Lexer

/-! ### Steps of the reader -/

namespace Reader

variable {lx lx' : Lexer} {fs : List Fault} {fuel : Nat} {seen : List Text} {k : TokenKind}

theorem next_ok (h : lx.next = .ok lx') : Reader.next ⟨lx, fs⟩ = .ok ⟨lx', fs⟩ := by
  simp only [Reader.next, move, h]

theorem expect_eq (h : lx.token.kind = k) : Reader.expect k ⟨lx, fs⟩ = Reader.next ⟨lx, fs⟩ := by
  simp only [Reader.expect, Reader.next, move, Lexer.expect, if_pos h]

/-- A comma is passed over when an item follows it. -/
theorem comma_ok {close : TokenKind} (h : lx.token.kind = .comma) (hnext : lx.next = .ok lx')
    (hclose : lx'.token.kind ≠ close) : comma close ⟨lx, fs⟩ = .ok (true, ⟨lx', fs⟩) := by
  simp only [comma, expect_eq h, next_ok hnext, ok_bind]
  exact if_neg hclose

/-- A list of items is over at its bracket. -/
theorem elements_close {first : Bool} (h : lx.token.kind = .closeBracket) :
    elements (fuel + 1) first ⟨lx, fs⟩ = .ok ⟨lx, fs⟩ := by
  rw [elements]
  exact if_pos h

/-- The first item stands right behind the bracket. -/
theorem elements_first (h : lx.token.kind ≠ .closeBracket) :
    elements (fuel + 1) true ⟨lx, fs⟩ = value fuel ⟨lx, fs⟩ >>= elements fuel false := by
  rw [elements]
  exact if_neg h

/-- Each further item stands behind a comma. -/
theorem elements_comma (h : lx.token.kind = .comma) (hnext : lx.next = .ok lx')
    (hclose : lx'.token.kind ≠ .closeBracket) :
    elements (fuel + 1) false ⟨lx, fs⟩ = value fuel ⟨lx', fs⟩ >>= elements fuel false := by
  have hkind : Reader.kind ⟨lx, fs⟩ ≠ .closeBracket := by
    rw [Reader.kind, h]
    decide
  rw [elements, if_neg hkind]
  simp only [Bool.false_eq_true, reduceIte, comma_ok h hnext hclose, ok_bind]

/-- Reads one member and those after it. -/
def member (fuel : Nat) (seen : List Text) (r : Reader) : Except (List Fault) Reader := do
  let (key, r) ← r.key seen
  members fuel (key :: seen) (← value fuel r)

/-- A list of members is over at its brace. -/
theorem members_close (h : lx.token.kind = .closeBrace) :
    members (fuel + 1) seen ⟨lx, fs⟩ = .ok ⟨lx, fs⟩ := by
  rw [members]
  exact if_pos h

/-- The first member stands right behind the brace. -/
theorem members_first (h : lx.token.kind ≠ .closeBrace) :
    members (fuel + 1) [] ⟨lx, fs⟩ = member fuel [] ⟨lx, fs⟩ := by
  rw [members]
  exact if_neg h

/-- Each further member stands behind a comma. -/
theorem members_comma (h : lx.token.kind = .comma) (hnext : lx.next = .ok lx')
    (hclose : lx'.token.kind ≠ .closeBrace) (hseen : seen ≠ []) :
    members (fuel + 1) seen ⟨lx, fs⟩ = member fuel seen ⟨lx', fs⟩ := by
  have hkind : Reader.kind ⟨lx, fs⟩ ≠ .closeBrace := by
    rw [Reader.kind, h]
    decide
  have hempty : seen.isEmpty = false := by simpa using hseen
  rw [members, if_neg hkind]
  simp only [hempty, Bool.false_eq_true, reduceIte, comma_ok h hnext hclose, ok_bind]
  rfl

end Reader

/-! ### What is read -/

variable {Sign : Text → Prop}

/-- No value is empty. -/
theorem Tree.length_pos (tree : Tree Sign) : 0 < tree.text.length := by
  cases tree with
  | constant word => obtain ⟨word, rfl | rfl | rfl⟩ := word <;> simp only [Tree.text] <;> decide
  | number n =>
      have hpos := List.length_pos_iff.2 n.whole.2.1
      simp only [Tree.text, Numeral.text, List.length_append]
      omega
  | string letters => simp [Tree.text, Letters.text, quoted]
  | _ => simp

/-- A value can begin with a token of this kind. -/
def opens (k : TokenKind) : Bool := k != .closeBracket && k != .closeBrace

theorem ne_of_opens {k : TokenKind} (h : opens k = true) : k ≠ .closeBracket ∧ k ≠ .closeBrace := by
  simpa [opens] using h

/-- In any surroundings the value is passed, and its repeated keys are reported. -/
def Tree.Checks (tree : Tree Sign) : Prop :=
  ∀ {fuel pos : Nat} {lx : Lexer} {space rest : Text} (fs : List Fault), 2 * tree.text.length ≤ fuel →
    Ahead lx pos (space ++ (tree.text ++ rest)) → IsSpace space → Ends rest →
    ∃ lx₁, lx.next = .ok lx₁ ∧ opens lx₁.token.kind = true ∧
      ∃ lx₂, Ahead lx₂ (pos + space.length + tree.text.length) rest ∧
        Reader.value fuel ⟨lx₁, fs⟩ = Reader.next ⟨lx₂, fs ++ tree.repeats (pos + space.length)⟩

/-- In any array the elements are read up to its closing bracket. -/
def Items.Checks (items : Items Sign) : Prop :=
  ∀ {fuel pos : Nat} {lx : Lexer} {rest : Text} (fs : List Fault), 2 * items.text.length ≤ fuel →
    Ahead lx pos (items.text ++ 93 :: rest) →
    ∃ lx₁, lx.next = .ok lx₁ ∧ opens lx₁.token.kind = true ∧
      ∃ lx₂, lx₂.token.kind = .closeBracket ∧ Ahead lx₂ (pos + items.text.length + 1) rest ∧
        (Reader.value fuel ⟨lx₁, fs⟩ >>= Reader.elements fuel false) = .ok ⟨lx₂, fs ++ items.repeats pos⟩

/-- In any object the members are read up to its closing brace. -/
def Members.Checks (members : Members Sign) : Prop :=
  ∀ {fuel pos : Nat} {lx : Lexer} {rest : Text} (seen : List (List UInt16)) (fs : List Fault),
    2 * members.text.length ≤ fuel → Ahead lx pos (members.text ++ 125 :: rest) →
    ∃ lx₁, lx.next = .ok lx₁ ∧ lx₁.token.kind = .string ∧
      ∃ lx₂, lx₂.token.kind = .closeBrace ∧ Ahead lx₂ (pos + members.text.length + 1) rest ∧
        Reader.member fuel (seen.map Utf16.toText) ⟨lx₁, fs⟩ = .ok ⟨lx₂, fs ++ members.repeats seen pos⟩

/-! ### Values that are one token -/

/-- The kinds of tokens that are values. -/
def isAtom (k : TokenKind) : Bool := isConstantKind k || k == .string || k == .number

/-- A value of one token is passed over. -/
theorem value_atom {lx : Lexer} {fs : List Fault} {fuel : Nat} (h : isAtom lx.token.kind = true) :
    Reader.value (fuel + 1) ⟨lx, fs⟩ = Reader.next ⟨lx, fs⟩ := by
  simp only [isAtom, isConstantKind, Bool.or_eq_true, beq_iff_eq] at h
  obtain ((((h | h) | h) | h) | h) := h <;> simp only [Reader.value, Reader.kind, h]

/-- A value of one token is checked as that token, and repeats no key. -/
theorem checks_atom {tree : Tree Sign} (hnone : ∀ pos, tree.repeats pos = [])
    (h : ∀ {rest}, Ends rest → ∃ kind units, isAtom kind = true ∧ Reads kind units tree.text rest) :
    tree.Checks := by
  intro fuel pos lx space rest fs hfuel hlx hspace hrest
  obtain ⟨kind, units, hkind, hreads⟩ := h hrest
  obtain ⟨lx₁, hnext, hkind₁, -, -, hahead⟩ := hlx.next hspace hreads
  have hopens : ∀ k, isAtom k = true → opens k = true := by
    intro k hk
    cases k <;> first | rfl | cases hk
  have hpos := tree.length_pos
  obtain ⟨fuel, rfl⟩ : ∃ n, fuel = n + 1 := ⟨fuel - 1, by omega⟩
  refine ⟨lx₁, hnext, hopens _ (hkind₁ ▸ hkind), lx₁, hahead, ?_⟩
  rw [hnone, List.append_nil]
  exact value_atom (by rw [hkind₁]; exact hkind)

/-- A constant is accepted. -/
theorem checks_constant (word : { t : Text // IsConstant t }) : (Tree.constant word : Tree Sign).Checks := by
  refine checks_atom (fun _ => by simp only [Tree.repeats]) fun hrest => ?_
  obtain ⟨kind, hkind, hreads⟩ := reads_constant word.2 hrest
  refine ⟨kind, [], by simp [isAtom, hkind], ?_⟩
  simpa only [Tree.text] using hreads

/-- A number is accepted. -/
theorem checks_number (n : Numeral) : (Tree.number n : Tree Sign).Checks := by
  refine checks_atom (fun _ => by simp only [Tree.repeats]) fun hrest => ⟨.number, [], rfl, ?_⟩
  simpa only [Tree.text] using reads_numeral n hrest

/-- A string is accepted. -/
theorem checks_string (letters : Letters) : (Tree.string letters : Tree Sign).Checks := by
  refine checks_atom (fun _ => by simp only [Tree.repeats]) fun hrest => ⟨.string, letters.units, rfl, ?_⟩
  simpa only [Tree.text] using reads_string letters

/-! ### Numbers with a sign -/

/-- No longer punctuator begins where a minus sign stands before a number. -/
theorem minus_apart {sign : Text} (hsign : IsSpace sign) (n : Numeral) (rest : Text) :
    ∀ g ∈ (glyphs (sign ++ (n.text ++ rest))).head?, g.code ≠ 45 ∧ g.code ≠ 61 := by
  rw [glyphs_append_ascii hsign.ascii]
  cases sign with
  | nil =>
      obtain ⟨b, ds, hwhole, hdigit⟩ := n.whole.2.exists_cons
      rw [n.glyphs_append, Numeral.text, hwhole]
      rintro _ ⟨⟩
      have hne := ne_of_isDigit hdigit
      simp only [List.mem_cons, List.not_mem_nil, or_false, not_or] at hne
      exact ⟨hne.2.2.2.2.1, hne.2.2.2.2.2.2.1⟩
  | cons b sign =>
      rintro _ ⟨⟩
      obtain rfl | rfl | rfl | rfl := hsign b List.mem_cons_self <;> decide

/-- A minus sign has a number behind it. -/
theorem value_minus {lx : Lexer} {fs : List Fault} {fuel : Nat} (h : lx.token.kind = .minus) :
    Reader.value (fuel + 1) ⟨lx, fs⟩ = Reader.next ⟨lx, fs⟩ >>= Reader.expect .number := by
  simp only [Reader.value, Reader.kind, h]

/-- A number with a sign is accepted, with white space between them. -/
theorem checks_negative (hSign : ∀ t, Sign t → IsSpace t) (sign : { t : Text // Sign t }) (n : Numeral) :
    (Tree.negative sign n).Checks := by
  intro fuel pos lx space rest fs hfuel hlx hspace hrest
  obtain ⟨sign, hsign⟩ := sign
  have htext : (Tree.negative ⟨sign, hsign⟩ n : Tree Sign).text = [45] ++ (sign ++ n.text) := by simp
  rw [htext, List.append_assoc, List.append_assoc] at hlx
  obtain ⟨lx₁, hnext₁, hkind₁, -, -, hlx₁⟩ := hlx.next hspace (reads_minus (minus_apart (hSign sign hsign) n rest))
  obtain ⟨lx₂, hnext₂, hkind₂, -, -, hlx₂⟩ := hlx₁.next (hSign sign hsign) (reads_numeral n hrest)
  obtain ⟨fuel, rfl⟩ : ∃ m, fuel = m + 1 := ⟨fuel - 1, by rw [htext] at hfuel; simp at hfuel; omega⟩
  refine ⟨lx₁, hnext₁, by rw [hkind₁]; rfl, lx₂, ?_, ?_⟩
  · rw [htext, List.length_append, List.length_append, ← Nat.add_assoc, ← Nat.add_assoc]
    exact hlx₂
  · rw [value_minus hkind₁, Reader.next_ok hnext₂, ok_bind, Reader.expect_eq hkind₂, Tree.repeats, List.append_nil]
    all_goals simp

/-! ### Arrays -/

/-- An array is read as the items between its brackets. -/
theorem value_array {lx : Lexer} {fs : List Fault} {fuel : Nat} (h : lx.token.kind = .openBracket) :
    Reader.value (fuel + 1) ⟨lx, fs⟩ =
      Reader.next ⟨lx, fs⟩ >>= fun r => Reader.elements fuel true r >>= Reader.expect .closeBracket := by
  simp only [Reader.value, Reader.kind, h]

/-- An empty array is accepted. -/
theorem checks_emptyArray (space : Space) : (Tree.emptyArray space : Tree Sign).Checks := by
  intro fuel pos lx before rest fs hfuel hlx hbefore hrest
  have htext : (Tree.emptyArray space : Tree Sign).text = [91] ++ (space.1 ++ [93]) := by simp
  rw [htext, List.append_assoc, List.append_assoc] at hlx
  obtain ⟨lx₁, hnext₁, hkind₁, -, -, hlx₁⟩ := hlx.next hbefore reads_openBracket
  obtain ⟨lx₂, hnext₂, hkind₂, -, -, hlx₂⟩ := hlx₁.next space.2 reads_closeBracket
  obtain ⟨fuel, rfl⟩ : ∃ m, fuel = m + 2 := ⟨fuel - 2, by rw [htext] at hfuel; simp at hfuel; omega⟩
  refine ⟨lx₁, hnext₁, by rw [hkind₁]; rfl, lx₂, ?_, ?_⟩
  · rw [htext, List.length_append, List.length_append, ← Nat.add_assoc, ← Nat.add_assoc]
    exact hlx₂
  · rw [value_array hkind₁, Reader.next_ok hnext₂, ok_bind, Reader.elements_close hkind₂, ok_bind,
      Reader.expect_eq hkind₂, Tree.repeats, List.append_nil]
    all_goals simp

/-- An array is accepted when its items are. -/
theorem checks_array {items : Items Sign} (h : items.Checks) : (Tree.array items).Checks := by
  intro fuel pos lx before rest fs hfuel hlx hbefore hrest
  have htext : (Tree.array items).text = [91] ++ (items.text ++ [93]) := by simp
  rw [htext, List.append_assoc, List.append_assoc] at hlx
  obtain ⟨lx₁, hnext₁, hkind₁, -, -, hlx₁⟩ := hlx.next hbefore reads_openBracket
  obtain ⟨fuel, rfl, hfuel'⟩ : ∃ m, fuel = m + 2 ∧ 2 * items.text.length ≤ m :=
    ⟨fuel - 2, by rw [htext] at hfuel; simp at hfuel; omega⟩
  obtain ⟨lx₂, hnext₂, hopens, lx₃, hkind₃, hlx₃, hbody⟩ := h fs hfuel' hlx₁
  refine ⟨lx₁, hnext₁, by rw [hkind₁]; rfl, lx₃, ?_, ?_⟩
  · rw [htext, List.length_append, List.length_append, ← Nat.add_assoc, ← Nat.add_assoc]
    exact hlx₃
  · rw [value_array hkind₁, Reader.next_ok hnext₂, ok_bind, Reader.elements_first (ne_of_opens hopens).1, hbody, ok_bind,
      Reader.expect_eq hkind₃, Tree.repeats]
    rfl

/-- The last element of an array, and its closing bracket. -/
theorem checks_last (before : Space) {item : Tree Sign} (h : item.Checks) (after : Space) :
    (Items.last before item after).Checks := by
  intro fuel pos lx rest fs hfuel hlx
  have htext : (Items.last before item after).text = before.1 ++ (item.text ++ after.1) := by simp
  rw [htext] at hfuel
  simp only [List.length_append] at hfuel
  rw [htext, List.append_assoc, List.append_assoc] at hlx
  have hpos := item.length_pos
  obtain ⟨fuel, rfl⟩ : ∃ m, fuel = m + 1 := ⟨fuel - 1, by omega⟩
  have hitem : 2 * item.text.length ≤ fuel + 1 := by omega
  obtain ⟨lx₁, hnext₁, hopens, lx₂, hlx₂, hvalue⟩ :=
    h fs hitem hlx before.2 (ends_space (ends_cons (by decide) _) after.2)
  obtain ⟨lx₃, hnext₃, hkind₃, -, -, hlx₃⟩ := hlx₂.next after.2 (@reads_closeBracket rest)
  refine ⟨lx₁, hnext₁, hopens, lx₃, hkind₃, ?_, ?_⟩
  · rw [htext, List.length_append, List.length_append, ← Nat.add_assoc, ← Nat.add_assoc]
    exact hlx₃
  · rw [hvalue, Reader.next_ok hnext₃, ok_bind, Reader.elements_close hkind₃, Items.repeats]

/-- An element, the comma behind it, and the elements that follow. -/
theorem checks_more (before : Space) {item : Tree Sign} (h : item.Checks) (after : Space) {items : Items Sign}
    (hitems : items.Checks) : (Items.more before item after items).Checks := by
  intro fuel pos lx rest fs hfuel hlx
  have htext : (Items.more before item after items).text =
      before.1 ++ (item.text ++ (after.1 ++ ([44] ++ items.text))) := by simp
  rw [htext] at hfuel
  simp only [List.length_append, List.length_singleton] at hfuel
  rw [htext, List.append_assoc, List.append_assoc, List.append_assoc, List.append_assoc] at hlx
  obtain ⟨fuel, rfl⟩ : ∃ m, fuel = m + 1 := ⟨fuel - 1, by omega⟩
  have hitem : 2 * item.text.length ≤ fuel + 1 := by omega
  have hrest : 2 * items.text.length ≤ fuel := by omega
  obtain ⟨lx₁, hnext₁, hopens, lx₂, hlx₂, hvalue⟩ :=
    h fs hitem hlx before.2 (ends_space (ends_cons (by decide) _) after.2)
  obtain ⟨lx₃, hnext₃, hkind₃, -, -, hlx₃⟩ := hlx₂.next after.2 reads_comma
  obtain ⟨lx₄, hnext₄, hopens₄, lx₅, hkind₅, hlx₅, hbody⟩ :=
    hitems (fs ++ item.repeats (pos + before.1.length)) hrest hlx₃
  refine ⟨lx₁, hnext₁, hopens, lx₅, hkind₅, ?_, ?_⟩
  · rw [htext]
    simp only [List.length_append, List.length_singleton, ← Nat.add_assoc] at hlx₅ ⊢
    exact hlx₅
  · rw [hvalue, Reader.next_ok hnext₃, ok_bind, Reader.elements_comma hkind₃ hnext₄ (ne_of_opens hopens₄).1, hbody,
      Items.repeats, List.append_assoc]
    rfl

/-! ### Objects -/

/-- An object is read as the members between its braces. -/
theorem value_object {lx : Lexer} {fs : List Fault} {fuel : Nat} (h : lx.token.kind = .openBrace) :
    Reader.value (fuel + 1) ⟨lx, fs⟩ =
      Reader.next ⟨lx, fs⟩ >>= fun r => Reader.members fuel [] r >>= Reader.expect .closeBrace := by
  simp only [Reader.value, Reader.kind, h]

/-- An empty object is accepted. -/
theorem checks_emptyObject (space : Space) : (Tree.emptyObject space : Tree Sign).Checks := by
  intro fuel pos lx before rest fs hfuel hlx hbefore hrest
  have htext : (Tree.emptyObject space : Tree Sign).text = [123] ++ (space.1 ++ [125]) := by simp
  rw [htext, List.append_assoc, List.append_assoc] at hlx
  obtain ⟨lx₁, hnext₁, hkind₁, -, -, hlx₁⟩ := hlx.next hbefore reads_openBrace
  obtain ⟨lx₂, hnext₂, hkind₂, -, -, hlx₂⟩ := hlx₁.next space.2 reads_closeBrace
  obtain ⟨fuel, rfl⟩ : ∃ m, fuel = m + 2 := ⟨fuel - 2, by rw [htext] at hfuel; simp at hfuel; omega⟩
  refine ⟨lx₁, hnext₁, by rw [hkind₁]; rfl, lx₂, ?_, ?_⟩
  · rw [htext, List.length_append, List.length_append, ← Nat.add_assoc, ← Nat.add_assoc]
    exact hlx₂
  · rw [value_object hkind₁, Reader.next_ok hnext₂, ok_bind, Reader.members_close hkind₂, ok_bind,
      Reader.expect_eq hkind₂, Tree.repeats, List.append_nil]
    all_goals simp

/-- An object is accepted when its members are. -/
theorem checks_object {members : Members Sign} (h : members.Checks) : (Tree.object members).Checks := by
  intro fuel pos lx before rest fs hfuel hlx hbefore hrest
  have htext : (Tree.object members).text = [123] ++ (members.text ++ [125]) := by simp
  rw [htext, List.append_assoc, List.append_assoc] at hlx
  obtain ⟨lx₁, hnext₁, hkind₁, -, -, hlx₁⟩ := hlx.next hbefore reads_openBrace
  obtain ⟨fuel, rfl, hfuel'⟩ : ∃ m, fuel = m + 2 ∧ 2 * members.text.length ≤ m :=
    ⟨fuel - 2, by rw [htext] at hfuel; simp at hfuel; omega⟩
  obtain ⟨lx₂, hnext₂, hstring, lx₃, hkind₃, hlx₃, hbody⟩ := h [] fs hfuel' hlx₁
  have hclose : lx₂.token.kind ≠ .closeBrace := by rw [hstring]; decide
  refine ⟨lx₁, hnext₁, by rw [hkind₁]; rfl, lx₃, ?_, ?_⟩
  · rw [htext, List.length_append, List.length_append, ← Nat.add_assoc, ← Nat.add_assoc]
    exact hlx₃
  · rw [value_object hkind₁, Reader.next_ok hnext₂, ok_bind, Reader.members_first hclose]
    rw [List.map_nil] at hbody
    rw [hbody, ok_bind, Reader.expect_eq hkind₃, Tree.repeats]
    rfl

/-- A key is reported exactly if its code units are those of an earlier one. -/
theorem contains_toText (seen : List (List UInt16)) (units : List UInt16) :
    (seen.map Utf16.toText).contains (Utf16.toText units) = decide (units ∈ seen) := by
  simp [List.contains_eq_mem, List.mem_map_of_injective Utf16.toText_injective]

/-- A key and its colon. The reader moves on to what follows. -/
theorem key_checks (key : Key) {pos : Nat} {lx : Lexer} {rest : Text} (hlx : Ahead lx pos (key.text ++ rest)) :
    ∃ lx₁, lx.next = .ok lx₁ ∧ lx₁.token.kind = .string ∧
      ∃ lx₂, Ahead lx₂ (pos + key.before.1.length + key.name.text.length + key.between.1.length + 1)
          (key.after.1 ++ rest) ∧
        ∀ seen fs lx₃, lx₂.next = .ok lx₃ → Reader.key (seen.map Utf16.toText) ⟨lx₁, fs⟩ =
          .ok (Utf16.toText key.name.units, ⟨lx₃, fs ++ key.repeats seen pos⟩) := by
  have htext : key.text ++ rest =
      key.before.1 ++ (key.name.text ++ (key.between.1 ++ ([58] ++ (key.after.1 ++ rest)))) := by simp [Key.text]
  rw [htext] at hlx
  obtain ⟨lx₁, hnext₁, hkind₁, hunits, hrange, hlx₁⟩ := hlx.next key.before.2 (reads_string key.name)
  obtain ⟨lx₂, hnext₂, hkind₂, -, -, hlx₂⟩ := hlx₁.next key.between.2 reads_colon
  refine ⟨lx₁, hnext₁, hkind₁, lx₂, hlx₂, fun seen fs lx₃ hnext₃ => ?_⟩
  have hcolon : ∀ fs, Reader.expect .colon ⟨lx₂, fs⟩ = .ok ⟨lx₃, fs⟩ := fun fs => by
    rw [Reader.expect_eq hkind₂, Reader.next_ok hnext₃]
  simp only [Reader.key, hunits, hrange, Reader.expect_eq hkind₁, Reader.next_ok hnext₂, ok_bind, contains_toText,
    decide_eq_true_eq, Key.repeats]
  split
  · exact congrArg (· >>= fun r => pure (Utf16.toText key.name.units, r)) (hcolon _)
  · rw [hcolon, List.append_nil]
    rfl

/-- A key and its value. -/
theorem member_checks (key : Key) {item : Tree Sign} (h : item.Checks) {fuel pos : Nat} {lx : Lexer} {rest : Text}
    (seen : List (List UInt16)) (fs : List Fault) (hfuel : 2 * item.text.length ≤ fuel)
    (hlx : Ahead lx pos (key.text ++ (item.text ++ rest))) (hrest : Ends rest) :
    ∃ lx₁, lx.next = .ok lx₁ ∧ lx₁.token.kind = .string ∧
      ∃ lx₂, Ahead lx₂ (pos + key.text.length + item.text.length) rest ∧
        Reader.member fuel (seen.map Utf16.toText) ⟨lx₁, fs⟩ =
          Reader.next ⟨lx₂, fs ++ (key.repeats seen pos ++ item.repeats (pos + key.text.length))⟩ >>=
            Reader.members fuel ((key.name.units :: seen).map Utf16.toText) := by
  obtain ⟨lx₁, hnext₁, hstring, lx₂, hlx₂, hkey⟩ := key_checks key hlx
  obtain ⟨lx₃, hnext₃, -, lx₄, hlx₄, hvalue⟩ := h (fs ++ key.repeats seen pos) hfuel hlx₂ key.after.2 hrest
  have hlength : pos + key.before.1.length + key.name.text.length + key.between.1.length + 1 + key.after.1.length =
      pos + key.text.length := by
    simp only [Key.text, List.length_append, List.length_cons]
    omega
  rw [hlength] at hlx₄ hvalue
  refine ⟨lx₁, hnext₁, hstring, lx₄, hlx₄, ?_⟩
  rw [Reader.member, hkey seen fs lx₃ hnext₃, ok_bind]
  dsimp only
  rw [hvalue, List.append_assoc]
  rfl

/-- The last member of an object, and its closing brace. -/
theorem checks_lastMember (key : Key) {item : Tree Sign} (h : item.Checks) (after : Space) :
    (Members.last key item after).Checks := by
  intro fuel pos lx rest seen fs hfuel hlx
  have htext : (Members.last key item after).text = key.text ++ (item.text ++ after.1) := by simp
  rw [htext] at hfuel
  simp only [List.length_append] at hfuel
  rw [htext, List.append_assoc, List.append_assoc] at hlx
  have hpos := item.length_pos
  obtain ⟨fuel, rfl⟩ : ∃ m, fuel = m + 1 := ⟨fuel - 1, by omega⟩
  have hitem : 2 * item.text.length ≤ fuel + 1 := by omega
  obtain ⟨lx₁, hnext₁, hstring, lx₂, hlx₂, hmember⟩ :=
    member_checks key h seen fs hitem hlx (ends_space (ends_cons (by decide) _) after.2)
  obtain ⟨lx₃, hnext₃, hkind₃, -, -, hlx₃⟩ := hlx₂.next after.2 (@reads_closeBrace rest)
  refine ⟨lx₁, hnext₁, hstring, lx₃, hkind₃, ?_, ?_⟩
  · rw [htext, List.length_append, List.length_append, ← Nat.add_assoc, ← Nat.add_assoc]
    exact hlx₃
  · rw [hmember, Reader.next_ok hnext₃, ok_bind, Reader.members_close hkind₃, Members.repeats]

/-- A member, the comma behind it, and the members that follow. -/
theorem checks_moreMembers (key : Key) {item : Tree Sign} (h : item.Checks) (after : Space) {members : Members Sign}
    (hmembers : members.Checks) : (Members.more key item after members).Checks := by
  intro fuel pos lx rest seen fs hfuel hlx
  have htext : (Members.more key item after members).text =
      key.text ++ (item.text ++ (after.1 ++ ([44] ++ members.text))) := by simp
  rw [htext] at hfuel
  simp only [List.length_append, List.length_singleton] at hfuel
  rw [htext, List.append_assoc, List.append_assoc, List.append_assoc, List.append_assoc] at hlx
  obtain ⟨fuel, rfl⟩ : ∃ m, fuel = m + 1 := ⟨fuel - 1, by omega⟩
  have hitem : 2 * item.text.length ≤ fuel + 1 := by omega
  have hrest : 2 * members.text.length ≤ fuel := by omega
  obtain ⟨lx₁, hnext₁, hstring, lx₂, hlx₂, hmember⟩ :=
    member_checks key h seen fs hitem hlx (ends_space (ends_cons (by decide) _) after.2)
  obtain ⟨lx₃, hnext₃, hkind₃, -, -, hlx₃⟩ := hlx₂.next after.2 reads_comma
  obtain ⟨lx₄, hnext₄, hstring₄, lx₅, hkind₅, hlx₅, hbody⟩ := hmembers (key.name.units :: seen)
    (fs ++ (key.repeats seen pos ++ item.repeats (pos + key.text.length))) hrest hlx₃
  have hclose : lx₄.token.kind ≠ .closeBrace := by rw [hstring₄]; decide
  refine ⟨lx₁, hnext₁, hstring, lx₅, hkind₅, ?_, ?_⟩
  · rw [htext]
    simp only [List.length_append, List.length_singleton, ← Nat.add_assoc] at hlx₅ ⊢
    exact hlx₅
  · rw [hmember, Reader.next_ok hnext₃, ok_bind, Reader.members_comma hkind₃ hnext₄ hclose (by simp), hbody,
      Members.repeats, List.append_assoc]
    rfl

/-! ### All trees -/

mutual

theorem Tree.checks (hSign : ∀ t, Sign t → IsSpace t) : (tree : Tree Sign) → tree.Checks
  | .constant word => checks_constant word
  | .number n => checks_number n
  | .negative sign n => checks_negative hSign sign n
  | .string letters => checks_string letters
  | .emptyArray space => checks_emptyArray space
  | .array items => checks_array (items.checks hSign)
  | .emptyObject space => checks_emptyObject space
  | .object members => checks_object (members.checks hSign)

theorem Items.checks (hSign : ∀ t, Sign t → IsSpace t) : (items : Items Sign) → items.Checks
  | .last before item after => checks_last before (item.checks hSign) after
  | .more before item after items => checks_more before (item.checks hSign) after (items.checks hSign)

theorem Members.checks (hSign : ∀ t, Sign t → IsSpace t) : (members : Members Sign) → members.Checks
  | .last key item after => checks_lastMember key (item.checks hSign) after
  | .more key item after members => checks_moreMembers key (item.checks hSign) after (members.checks hSign)

end

/-! ### Whole texts -/

/-- A key that is repeated is only warned of. -/
theorem Key.severity_of_repeats {key : Key} {seen : List (List UInt16)} {pos : Nat} :
    ∀ f ∈ key.repeats seen pos, f.severity = .warning := by
  unfold Key.repeats
  split
  · exact List.forall_mem_singleton.2 rfl
  · simp

mutual

/-- Repeated keys are not errors. -/
theorem Tree.severity_of_repeats {pos : Nat} : (tree : Tree Sign) → ∀ f ∈ tree.repeats pos, f.severity = .warning
  | .array items => by simpa only [Tree.repeats] using items.severity_of_repeats
  | .object members => by simpa only [Tree.repeats] using members.severity_of_repeats
  | .constant _ | .number _ | .negative _ _ | .string _ | .emptyArray _ | .emptyObject _ => by simp

theorem Items.severity_of_repeats {pos : Nat} : (items : Items Sign) → ∀ f ∈ items.repeats pos, f.severity = .warning
  | .last _ item _ => by simpa only [Items.repeats] using item.severity_of_repeats
  | .more _ item _ items => by
      simp only [Items.repeats, List.forall_mem_append]
      exact ⟨item.severity_of_repeats, items.severity_of_repeats⟩

theorem Members.severity_of_repeats {seen : List (List UInt16)} {pos : Nat} :
    (members : Members Sign) → ∀ f ∈ members.repeats seen pos, f.severity = .warning
  | .last _ item _ => by
      simp only [Members.repeats, List.forall_mem_append]
      exact ⟨Key.severity_of_repeats, item.severity_of_repeats⟩
  | .more _ item _ members => by
      simp only [Members.repeats, List.forall_mem_append]
      exact ⟨⟨Key.severity_of_repeats, item.severity_of_repeats⟩, members.severity_of_repeats⟩

end

theorem start_ahead (s : Source) : ∃ lx, start s .json = lx.next ∧ Ahead lx 0 s.contents :=
  ⟨_, rfl, rfl, by simp, rfl, rfl⟩

/-- What is objected to in a text of the grammar. -/
theorem check_document (hSign : ∀ t, Sign t → IsSpace t) {s : Source} {doc : Document Sign}
    (hs : s.contents = doc.text) : check s = doc.repeats ∧ accepts s = true := by
  obtain ⟨lx, hstart, hlx⟩ := start_ahead s
  rw [hs, Document.text, List.append_assoc] at hlx
  have hends : Ends doc.after.1 := by simpa using ends_space ends_nil doc.after.2
  have hfuel : 2 * doc.item.text.length ≤ 2 * s.contents.length + 2 := by
    simp only [hs, Document.text, List.length_append]
    omega
  obtain ⟨lx₁, hnext₁, -, lx₂, hlx₂, hvalue⟩ := doc.item.checks hSign [] hfuel hlx doc.before.2 hends
  -- the end is read, and read again
  obtain ⟨lx₃, hnext₃, hkind₃, -, -, hlx₃⟩ := @Ahead.next lx₂ _ _ _ _ [] [] (by simpa using hlx₂) doc.after.2 reads_end
  obtain ⟨lx₄, hnext₄, -⟩ := @Ahead.next lx₃ _ _ _ [] [] [] hlx₃ (by simp [IsSpace]) reads_end
  have hcheck : check s = doc.repeats := by
    unfold check
    rw [hstart, hnext₁]
    dsimp only
    rw [hvalue, Reader.next_ok hnext₃, ok_bind, Reader.expect_eq hkind₃, Reader.next_ok hnext₄, Nat.zero_add]
    rfl
  refine ⟨hcheck, ?_⟩
  rw [accepts, hcheck, List.all_eq_true]
  exact fun f hf => by simpa using doc.item.severity_of_repeats f hf

/-- A JSON text is accepted, and all that is reported are the keys that repeat an earlier key of their
object. -/
theorem check_text (s : Source) (doc : Document Joined) :
    check { s with contents := doc.text } = doc.repeats ∧ accepts { s with contents := doc.text } = true :=
  check_document (fun t (ht : t = []) => by simp [ht, IsSpace]) rfl

end ModuleSystem.Json

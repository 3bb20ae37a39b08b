import ModuleSystem.Text

/-!
# Statement trees

A small language of statements: calls, blocks, conditionals and loops, together with the two forms in
which a loop notifies importers.  Its texts are ambiguous, because an `else` may follow several
`if`s, and `Tree.program` reads them by the rule that an `else` belongs to the nearest `if` that has
none.

* Every text of statements is read (`program_text`): the trees read are the `normal` form of the
  trees that were written, which moves each `else` to the nearest `if`.
* The normal form has the same text (`text_normal`) and keeps the rule (`nearest_normal`); trees that
  keep the rule are their own normal form (`normal_of_nearest`).
-/

namespace ModuleSystem.Loops

/-- The condition of an `if`. -/
inductive Test where
  /-- A variable. -/
  | variable
  /-- A notice to importers, which always holds. -/
  | notice
deriving DecidableEq, Repr

/-- A statement. -/
inductive Tree where
  | call
  /-- A notice to importers. -/
  | notice
  | block (body : List Tree)
  | ifThen (c : Test) (s : Tree)
  | ifElse (c : Test) (s e : Tree)
  | forOf (s : Tree)
deriving Repr

/-! ### Texts -/

/-- How a statement begins. -/
inductive Head where
  | call
  | notice
  | brace
  | test (c : Test)
  | loop
deriving DecidableEq, Repr

namespace Head

/-- The text of a beginning. -/
def text : Head → Text
  | .call => "f();"
  | .notice => "__esm.update();"
  | .brace => "\x7b"
  | .test .variable => "if (a) "
  | .test .notice => "if (__esm.update(), true) "
  | .loop => "for (x of xs) "

/-- All beginnings. -/
def all : List Head := [.call, .notice, .brace, .test .variable, .test .notice, .loop]

/-- The beginning of a text, and what follows it. -/
def read (text : Text) : Option (Head × Text) :=
  all.findSome? fun h => (Text.dropStart? h.text text).map (h, ·)

/-- A text that starts with another leaves the rest. -/
theorem dropStart?_append (p t : Text) : Text.dropStart? p (p ++ t) = some t := by
  simp [Text.dropStart?, Text.startsWith]

/-- A head is read from its text, whatever comes behind it. -/
theorem read_text (h : Head) (rest : Text) : read (h.text ++ rest) = some (h, rest) := by
  cases h with
  | test c => cases c <;> rfl
  | _ => rfl

theorem text_pos (h : Head) : 0 < h.text.length := by
  cases h with
  | test c => cases c <;> decide
  | _ => decide

end Head

/-- The end of a block. -/
def closing : Text := "\x7d"

/-- What separates the branches of a conditional. -/
def otherwise : Text := " else "

namespace Tree

mutual

/-- The text of a statement. -/
def text : Tree → Text
  | .call => Head.call.text
  | .notice => Head.notice.text
  | .block ts => Head.brace.text ++ (textAll ts ++ closing)
  | .ifThen c s => (Head.test c).text ++ s.text
  | .ifElse c s e => (Head.test c).text ++ (s.text ++ (otherwise ++ e.text))
  | .forOf s => Head.loop.text ++ s.text

/-- The text of a list of statements. -/
def textAll : List Tree → Text
  | [] => []
  | t :: ts => t.text ++ textAll ts

end

/-! ### Reading -/

mutual

/-- The statement at the start of a text, and what follows it. -/
def read : Nat → Text → Option (Tree × Text)
  | 0, _ => none
  | fuel + 1, text =>
    match Head.read text with
    | none => none
    | some (.call, text) => some (.call, text)
    | some (.notice, text) => some (.notice, text)
    | some (.brace, text) => do
      let (ts, text) ← readAll fuel text
      let text ← Text.dropStart? closing text
      return (.block ts, text)
    | some (.test c, text) => do
      let (s, text) ← read fuel text
      -- The innermost call that sees an `else` takes it: it belongs to the nearest `if`.
      match Text.dropStart? otherwise text with
      | none => return (.ifThen c s, text)
      | some text =>
        let (e, text) ← read fuel text
        return (.ifElse c s e, text)
    | some (.loop, text) => do
      let (s, text) ← read fuel text
      return (.forOf s, text)

/-- The statements of a text up to its end or the end of a block, and what follows them. -/
def readAll : Nat → Text → Option (List Tree × Text)
  | 0, _ => none
  | fuel + 1, text =>
    if text.isEmpty || text.startsWith closing then some ([], text)
    else do
      let (t, text) ← read fuel text
      let (ts, text) ← readAll fuel text
      return (t :: ts, text)

end

/-- The statements of a text. -/
def program (text : Text) : Option (List Tree) :=
  match readAll (text.length + 1) text with
  | some (ts, []) => some ts
  | _ => none

/-! ### The nearest `if` -/

/-- An `else` after the statement would belong to it. -/
def isOpen : Tree → Bool
  | .ifThen .. => true
  | .ifElse _ _ e => e.isOpen
  | .forOf s => s.isOpen
  | _ => false

mutual

/-- Each `else` belongs to the nearest `if`. -/
def nearest : Tree → Bool
  | .call | .notice => true
  | .block ts => nearestAll ts
  | .ifThen _ s | .forOf s => s.nearest
  | .ifElse _ s e => !s.isOpen && s.nearest && e.nearest

/-- Each `else` in the statements belongs to the nearest `if`. -/
def nearestAll : List Tree → Bool
  | [] => true
  | t :: ts => t.nearest && nearestAll ts

end

/-- No `else` follows. -/
def Ended (rest : Text) : Prop := Text.dropStart? otherwise rest = none

/-- The text of a statement starts with a head. -/
theorem exists_head (t : Tree) : ∃ (h : Head) (rest : Text), t.text = h.text ++ rest := by
  cases t with
  | call => exact ⟨.call, [], (List.append_nil _).symm⟩
  | notice => exact ⟨.notice, [], (List.append_nil _).symm⟩
  | block ts => exact ⟨.brace, _, rfl⟩
  | ifThen c s => exact ⟨.test c, _, rfl⟩
  | ifElse c s e => exact ⟨.test c, _, rfl⟩
  | forOf s => exact ⟨.loop, _, rfl⟩

/-- What starts with a head goes on with no `else`. -/
theorem ended_head (h : Head) (rest : Text) : Ended (h.text ++ rest) := by
  cases h with
  | test c => cases c <;> rfl
  | _ => rfl

/-- A text that ends, or closes a block. -/
def Bounded (rest : Text) : Prop := rest = [] ∨ ∃ rest', rest = closing ++ rest'

/-- Nor does a list of statements before the end of a block. -/
theorem Bounded.ended {rest : Text} (h : Bounded rest) (ts : List Tree) : Ended (textAll ts ++ rest) := by
  cases ts with
  | nil =>
    obtain rfl | ⟨rest', rfl⟩ := h
    · rfl
    · rfl
  | cons t ts =>
    obtain ⟨hd, rest', heq⟩ := exists_head t
    rw [textAll, heq, List.append_assoc, List.append_assoc]
    exact ended_head hd _

/-- A head does not close a block. -/
theorem Head.not_closing (h : Head) (rest : Text) :
    ((h.text ++ rest).isEmpty || (h.text ++ rest).startsWith closing) = false := by
  cases h with
  | test c => cases c <;> rfl
  | _ => rfl

theorem text_pos (t : Tree) : 0 < t.text.length := by
  obtain ⟨h, rest, heq⟩ := exists_head t
  have hpos := h.text_pos
  rw [heq, List.length_append]
  omega

mutual

/-- A statement that keeps the rule is read back. -/
theorem read_text (t : Tree) (ht : t.nearest = true) (fuel : Nat) (hfuel : t.text.length ≤ fuel) (rest : Text)
    (hrest : t.isOpen = true → Ended rest) : read fuel (t.text ++ rest) = some (t, rest) := by
  obtain _ | fuel := fuel
  · exact absurd t.text_pos (by omega)
  match t with
  | .call => rw [text, read, Head.read_text]
  | .notice => rw [text, read, Head.read_text]
  | .block ts =>
    have hpos := Head.brace.text_pos
    simp only [text, List.length_append] at hfuel
    have hbody := readAll_text ts ht fuel (by have : closing.length = 1 := rfl; omega) (closing ++ rest)
      (.inr ⟨rest, rfl⟩)
    rw [text, List.append_assoc, List.append_assoc, read, Head.read_text]
    simp only [hbody, Head.dropStart?_append, Option.bind_eq_bind, Option.bind_some]
    rfl
  | .ifThen c s =>
    have hpos := (Head.test c).text_pos
    simp only [text, List.length_append] at hfuel
    have hended : Ended rest := hrest rfl
    have hs := read_text s ht fuel (by omega) rest fun _ => hended
    rw [text, List.append_assoc, read, Head.read_text]
    simp only [hs, Option.bind_eq_bind, Option.bind_some]
    rw [hended]
    rfl
  | .ifElse c s e =>
    have hpos := (Head.test c).text_pos
    simp only [text, List.length_append] at hfuel
    simp only [nearest, Bool.and_eq_true, Bool.not_eq_true'] at ht
    -- the first branch is not open, so it does not take the `else` that follows
    have hs := read_text s ht.1.2 fuel (by omega) (otherwise ++ (e.text ++ rest)) fun h =>
      absurd (ht.1.1.symm.trans h) Bool.false_ne_true
    have he := read_text e ht.2 fuel (by omega) rest hrest
    simp only [text, List.append_assoc]
    rw [read, Head.read_text]
    simp only [hs, he, Head.dropStart?_append, Option.bind_eq_bind, Option.bind_some]
    rfl
  | .forOf s =>
    have hpos := Head.loop.text_pos
    simp only [text, List.length_append] at hfuel
    have hs := read_text s ht fuel (by omega) rest hrest
    rw [text, List.append_assoc, read, Head.read_text]
    simp only [hs, Option.bind_eq_bind, Option.bind_some]
    rfl

/-- Statements that keep the rule are read back. -/
theorem readAll_text (ts : List Tree) (hts : nearestAll ts = true) (fuel : Nat)
    (hfuel : (textAll ts).length < fuel) (rest : Text) (hrest : Bounded rest) :
    readAll fuel (textAll ts ++ rest) = some (ts, rest) := by
  obtain _ | fuel := fuel
  · omega
  match ts with
  | [] =>
    obtain rfl | ⟨rest', rfl⟩ := hrest
    · rfl
    · rfl
  | t :: ts =>
    have hpos := t.text_pos
    simp only [textAll, List.length_append] at hfuel
    simp only [nearestAll, Bool.and_eq_true] at hts
    have ht := read_text t hts.1 fuel (by omega) (textAll ts ++ rest) fun _ => hrest.ended ts
    have hts := readAll_text ts hts.2 fuel (by omega) rest hrest
    obtain ⟨hd, rest', heq⟩ := exists_head t
    have hhead : ((t.text ++ (textAll ts ++ rest)).isEmpty ||
        (t.text ++ (textAll ts ++ rest)).startsWith closing) = false := by
      rw [heq, List.append_assoc]
      exact Head.not_closing hd _
    rw [textAll, List.append_assoc, readAll, if_neg (by simp [hhead])]
    simp only [ht, hts, Option.bind_eq_bind, Option.bind_some]
    rfl

end

/-! ### Normal forms -/

/-- The statement with a branch for the nearest `if` before its end that has none. -/
def attach : Tree → Tree → Tree
  | .ifThen c s, e => if s.isOpen then .ifThen c (s.attach e) else .ifElse c s e
  | .ifElse c s s', e => .ifElse c s (s'.attach e)
  | .forOf s, e => .forOf (s.attach e)
  | t, _ => t

mutual

/-- The statement that is read for the text of a statement. -/
def normal : Tree → Tree
  | .call => .call
  | .notice => .notice
  | .block ts => .block (normalAll ts)
  | .ifThen c s => .ifThen c s.normal
  | .ifElse c s e =>
    if s.normal.isOpen then .ifThen c (s.normal.attach e.normal) else .ifElse c s.normal e.normal
  | .forOf s => .forOf s.normal

/-- The statements that are read for the text of statements. -/
def normalAll : List Tree → List Tree
  | [] => []
  | t :: ts => t.normal :: normalAll ts

end

theorem text_attach {t : Tree} (h : t.isOpen = true) (e : Tree) :
    (t.attach e).text = t.text ++ (otherwise ++ e.text) := by
  match t with
  | .ifThen c s =>
    rw [attach]
    split
    · rename_i hs
      rw [text, text, text_attach hs, List.append_assoc]
    · rw [text, text, List.append_assoc]
  | .ifElse c s s' =>
    rw [attach, text, text, text_attach (t := s') h]
    simp only [List.append_assoc]
  | .forOf s => rw [attach, text, text, text_attach (t := s) h, List.append_assoc]

theorem nearest_attach {t e : Tree} (hopen : t.isOpen = true) (ht : t.nearest = true)
    (he : e.nearest = true) : (t.attach e).nearest = true := by
  match t with
  | .ifThen c s =>
    rw [attach]
    split
    · rename_i hs
      exact nearest_attach (t := s) hs ht he
    · rename_i hs
      simp only [nearest, Bool.and_eq_true, Bool.not_eq_true']
      exact ⟨⟨Bool.eq_false_iff.2 hs, ht⟩, he⟩
  | .ifElse c s s' =>
    simp only [nearest, Bool.and_eq_true] at ht
    simp only [attach, nearest, Bool.and_eq_true]
    exact ⟨ht.1, nearest_attach (t := s') hopen ht.2 he⟩
  | .forOf s => exact nearest_attach (t := s) hopen ht he

mutual

theorem text_normal (t : Tree) : t.normal.text = t.text := by
  match t with
  | .call | .notice => rfl
  | .block ts => rw [normal, text, text, textAll_normal ts]
  | .ifThen c s => rw [normal, text, text, text_normal s]
  | .ifElse c s e =>
    rw [normal]
    split
    · rename_i hs
      rw [text, text, text_attach hs, text_normal s, text_normal e]
    · rw [text, text, text_normal s, text_normal e]
  | .forOf s => rw [normal, text, text, text_normal s]

theorem textAll_normal (ts : List Tree) : textAll (normalAll ts) = textAll ts := by
  match ts with
  | [] => rfl
  | t :: ts => rw [normalAll, textAll, textAll, text_normal t, textAll_normal ts]

end

mutual

theorem nearest_normal (t : Tree) : t.normal.nearest = true := by
  match t with
  | .call | .notice => rfl
  | .block ts => exact nearestAll_normal ts
  | .ifThen c s => exact nearest_normal s
  | .ifElse c s e =>
    rw [normal]
    split
    · rename_i hs
      exact nearest_attach hs (nearest_normal s) (nearest_normal e)
    · rename_i hs
      simp only [nearest, Bool.and_eq_true, Bool.not_eq_true']
      exact ⟨⟨Bool.eq_false_iff.2 hs, nearest_normal s⟩, nearest_normal e⟩
  | .forOf s => exact nearest_normal s

theorem nearestAll_normal (ts : List Tree) : nearestAll (normalAll ts) = true := by
  match ts with
  | [] => rfl
  | t :: ts =>
    simp only [normalAll, nearestAll, Bool.and_eq_true]
    exact ⟨nearest_normal t, nearestAll_normal ts⟩

end

mutual

theorem normal_of_nearest (t : Tree) (h : t.nearest = true) : t.normal = t := by
  match t with
  | .call | .notice => rfl
  | .block ts => rw [normal, normalAll_of_nearest ts h]
  | .ifThen c s => rw [normal, normal_of_nearest s h]
  | .ifElse c s e =>
    simp only [nearest, Bool.and_eq_true, Bool.not_eq_true'] at h
    rw [normal, normal_of_nearest s h.1.2, normal_of_nearest e h.2, if_neg (by simp [h.1.1])]
  | .forOf s => rw [normal, normal_of_nearest s h]

theorem normalAll_of_nearest (ts : List Tree) (h : nearestAll ts = true) : normalAll ts = ts := by
  match ts with
  | [] => rfl
  | t :: ts =>
    simp only [nearestAll, Bool.and_eq_true] at h
    rw [normalAll, normal_of_nearest t h.1, normalAll_of_nearest ts h.2]

end

/-- **Every text of statements is read**, as the normal form of the statements. -/
theorem program_text (ts : List Tree) : program (textAll ts) = some (normalAll ts) := by
  have hread := readAll_text (normalAll ts) (nearestAll_normal ts) ((textAll ts).length + 1)
    (by rw [textAll_normal]; omega) [] (.inl rfl)
  rw [textAll_normal, List.append_nil] at hread
  rw [program, hread]

example : program "if (a) if (a) f(); else f();" =
    some [.ifThen .variable (.ifElse .variable .call .call)] := by
  rfl

end Tree

end ModuleSystem.Loops

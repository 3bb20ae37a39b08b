import ModuleSystem.Proofs.Loops.Trees

/-!
# Loops that notify importers

A loop that assigns an exported variable gets a notice at the start of each turn: as the first
statement of its block, or as an `if` around a body without braces (`Tree.marked`).  Read again, the
text of marked statements need not have the structure of the statements, because the `if` that was
put in may take an `else` of the statement around the loop.

* Marked statements, read again and without their notices, are the statements themselves exactly if
  no branch before an `else` ends in a loop whose body has no braces (`erased_marked_iff`).
-/

namespace ModuleSystem.Loops.Tree

/-! ### Notices -/

mutual

/-- A statement without notices. -/
def plain : Tree → Bool
  | .call => true
  | .notice => false
  | .block ts => plainAll ts
  | .ifThen c s => c = .variable && s.plain
  | .ifElse c s e => c = .variable && s.plain && e.plain
  | .forOf s => s.plain

/-- Statements without notices. -/
def plainAll : List Tree → Bool
  | [] => true
  | t :: ts => t.plain && plainAll ts

end

/-- The body of a loop is a block. -/
def isBlock : Tree → Bool
  | .block _ => true
  | _ => false

/-- The body of a loop, with a notice at its start. -/
def noticed : Tree → Tree
  | .block ts => .block (.notice :: ts)
  | t => .ifThen .notice t

mutual

/-- A statement whose loops notify importers on each turn. -/
def marked : Tree → Tree
  | .call => .call
  | .notice => .notice
  | .block ts => .block (markedAll ts)
  | .ifThen c s => .ifThen c s.marked
  | .ifElse c s e => .ifElse c s.marked e.marked
  | .forOf s => .forOf s.marked.noticed

/-- Statements whose loops notify importers on each turn. -/
def markedAll : List Tree → List Tree
  | [] => []
  | t :: ts => t.marked :: markedAll ts

end

mutual

/-- A statement without its notices: `if` around a statement is read as the statement. -/
def erased : Tree → Tree
  | .call => .call
  | .notice => .notice
  | .block ts => .block (erasedAll ts)
  | .ifThen .notice s => s.erased
  | .ifThen .variable s => .ifThen .variable s.erased
  | .ifElse c s e => .ifElse c s.erased e.erased
  | .forOf s => .forOf s.erased

/-- Statements without their notices. -/
def erasedAll : List Tree → List Tree
  | [] => []
  | .notice :: ts => erasedAll ts
  | t :: ts => t.erased :: erasedAll ts

end

/-- The statement ends in a loop whose body has no braces. -/
def endsLoop : Tree → Bool
  | .ifThen _ s => s.endsLoop
  | .ifElse _ _ e => e.endsLoop
  | .forOf s => !s.isBlock
  | _ => false

mutual

/-- No branch before an `else` ends in a loop whose body has no braces. -/
def keepsElse : Tree → Bool
  | .call | .notice => true
  | .block ts => keepsElseAll ts
  | .ifThen _ s | .forOf s => s.keepsElse
  | .ifElse _ s e => !s.endsLoop && s.keepsElse && e.keepsElse

/-- No branch before an `else` in the statements ends in a loop whose body has no braces. -/
def keepsElseAll : List Tree → Bool
  | [] => true
  | t :: ts => t.keepsElse && keepsElseAll ts

end

mutual

/-- An `else` belongs to a notice. -/
def takesElse : Tree → Bool
  | .call | .notice => false
  | .block ts => takesElseAll ts
  | .ifThen _ s | .forOf s => s.takesElse
  | .ifElse c s e => c = .notice || s.takesElse || e.takesElse

/-- An `else` in the statements belongs to a notice. -/
def takesElseAll : List Tree → Bool
  | [] => false
  | t :: ts => t.takesElse || takesElseAll ts

end

/-! ### Normal forms of plain statements -/

/-- A plain statement stays plain when a plain one becomes its `else`. -/
theorem plain_attach {t e : Tree} (ht : t.plain = true) (he : e.plain = true) :
    (t.attach e).plain = true := by
  match t with
  | .call | .notice | .block _ => exact ht
  | .ifThen c s =>
    simp only [plain, Bool.and_eq_true] at ht
    rw [attach]
    split <;> simp only [plain, Bool.and_eq_true]
    · exact ⟨ht.1, plain_attach ht.2 he⟩
    · exact ⟨ht, he⟩
  | .ifElse c s s' =>
    simp only [plain, Bool.and_eq_true] at ht
    simp only [attach, plain, Bool.and_eq_true]
    exact ⟨ht.1, plain_attach ht.2 he⟩
  | .forOf s => exact plain_attach (t := s) ht he

mutual

/-- The normal form of a plain statement is plain. -/
theorem plain_normal (t : Tree) (h : t.plain = true) : t.normal.plain = true := by
  match t with
  | .call => rfl
  | .notice => exact h
  | .block ts => exact plainAll_normal ts h
  | .ifThen c s =>
    simp only [plain, Bool.and_eq_true] at h
    simp only [normal, plain, Bool.and_eq_true]
    exact ⟨h.1, plain_normal s h.2⟩
  | .ifElse c s e =>
    simp only [plain, Bool.and_eq_true] at h
    rw [normal]
    split <;> simp only [plain, Bool.and_eq_true]
    · exact ⟨h.1.1, plain_attach (plain_normal s h.1.2) (plain_normal e h.2)⟩
    · exact ⟨⟨h.1.1, plain_normal s h.1.2⟩, plain_normal e h.2⟩
  | .forOf s => exact plain_normal s h

theorem plainAll_normal (ts : List Tree) (h : plainAll ts = true) : plainAll (normalAll ts) = true := by
  match ts with
  | [] => rfl
  | t :: ts =>
    simp only [plainAll, Bool.and_eq_true] at h
    simp only [normalAll, plainAll, Bool.and_eq_true]
    exact ⟨plain_normal t h.1, plainAll_normal ts h.2⟩

end

/-! ### Statements that keep their `else` -/

theorem isBlock_marked (t : Tree) : t.marked.isBlock = t.isBlock := by
  cases t <;> rfl

theorem isOpen_noticed (t : Tree) : t.noticed.isOpen = !t.isBlock := by
  cases t <;> rfl

/-- A block takes no `else`. -/
theorem isOpen_of_isBlock {t : Tree} (h : t.isBlock = true) : t.isOpen = false := by
  cases t with
  | block ts => rfl
  | _ => cases h

/-- A notice makes the loops open that have a body without braces. -/
theorem isOpen_marked (t : Tree) : t.marked.isOpen = (t.isOpen || t.endsLoop) := by
  match t with
  | .forOf s =>
    rw [marked, isOpen, isOpen_noticed, isBlock_marked, isOpen, endsLoop]
    cases hs : s.isBlock with
    | true => rw [isOpen_of_isBlock hs]; rfl
    | false => simp
  | .ifElse c s e => exact isOpen_marked e
  | .call | .notice | .block _ | .ifThen _ _ => rfl

theorem nearest_noticed (t : Tree) : t.noticed.nearest = t.nearest := by
  cases t <;> rfl

mutual

/-- A statement whose `else`s keep their place has them at the nearest `if` also with its notices. -/
theorem nearest_marked (t : Tree) (hn : t.nearest = true) (hk : t.keepsElse = true) :
    t.marked.nearest = true := by
  match t with
  | .call | .notice => rfl
  | .block ts => exact nearestAll_marked ts hn hk
  | .ifThen c s => exact nearest_marked s hn hk
  | .ifElse c s e =>
    simp only [nearest, keepsElse, Bool.and_eq_true, Bool.not_eq_true'] at hn hk
    simp only [marked, nearest, Bool.and_eq_true, Bool.not_eq_true', isOpen_marked, hn.1.1, hk.1.1,
      Bool.or_self, true_and]
    exact ⟨nearest_marked s hn.1.2 hk.1.2, nearest_marked e hn.2 hk.2⟩
  | .forOf s =>
    rw [marked, nearest, nearest_noticed]
    exact nearest_marked s hn hk

/-- So do statements one after the other. -/
theorem nearestAll_marked (ts : List Tree) (hn : nearestAll ts = true) (hk : keepsElseAll ts = true) :
    nearestAll (markedAll ts) = true := by
  match ts with
  | [] => rfl
  | t :: ts =>
    simp only [nearestAll, keepsElseAll, Bool.and_eq_true] at hn hk
    simp only [markedAll, nearestAll, Bool.and_eq_true]
    exact ⟨nearest_marked t hn.1 hk.1, nearestAll_marked ts hn.2 hk.2⟩

end

/-- A notice that is erased leaves the statement. -/
theorem erased_noticed {t : Tree} (h : t ≠ .notice) : t.noticed.erased = t.erased := by
  cases t with
  | notice => exact absurd rfl h
  | _ => rfl

/-- A plain statement with its notices is no notice. -/
theorem marked_ne_notice {t : Tree} (h : t.plain = true) : t.marked ≠ .notice := by
  cases t with
  | notice => cases h
  | _ => exact Tree.noConfusion

/-- A statement that is no notice stays when notices are erased. -/
theorem erasedAll_cons {t : Tree} (h : t ≠ .notice) (ts : List Tree) :
    erasedAll (t :: ts) = t.erased :: erasedAll ts := by
  cases t with
  | notice => exact absurd rfl h
  | _ => rfl

mutual

/-- Erasing the notices of a plain statement leaves the statement. -/
theorem erased_marked (t : Tree) (h : t.plain = true) : t.marked.erased = t := by
  match t with
  | .call => rfl
  | .notice => cases h
  | .block ts => rw [marked, erased, erasedAll_marked ts h]
  | .ifThen c s =>
    simp only [plain, Bool.and_eq_true, decide_eq_true_eq] at h
    rw [h.1, marked, erased, erased_marked s h.2]
  | .ifElse c s e =>
    simp only [plain, Bool.and_eq_true] at h
    rw [marked, erased, erased_marked s h.1.2, erased_marked e h.2]
  | .forOf s => rw [marked, erased, erased_noticed (marked_ne_notice (t := s) h), erased_marked s h]

theorem erasedAll_marked (ts : List Tree) (h : plainAll ts = true) : erasedAll (markedAll ts) = ts := by
  match ts with
  | [] => rfl
  | t :: ts =>
    simp only [plainAll, Bool.and_eq_true] at h
    rw [markedAll, erasedAll_cons (marked_ne_notice h.1), erased_marked t h.1, erasedAll_marked ts h.2]

end

/-! ### Statements that lose an `else` -/

mutual

/-- Erasing notices inside does not change whether a notice takes an `else`. -/
theorem takesElse_erased (t : Tree) : t.erased.takesElse = t.takesElse := by
  match t with
  | .call | .notice => rfl
  | .block ts => exact takesElseAll_erased ts
  | .ifThen .notice s => exact takesElse_erased s
  | .ifThen .variable s => exact takesElse_erased s
  | .ifElse c s e => rw [erased, takesElse, takesElse, takesElse_erased s, takesElse_erased e]
  | .forOf s => exact takesElse_erased s

theorem takesElseAll_erased (ts : List Tree) : takesElseAll (erasedAll ts) = takesElseAll ts := by
  match ts with
  | [] => rfl
  | .notice :: ts => exact takesElseAll_erased ts
  | .call :: ts | .block _ :: ts | .ifThen _ _ :: ts | .ifElse _ _ _ :: ts | .forOf _ :: ts =>
    rw [erasedAll_cons (by simp), takesElseAll, takesElseAll, takesElse_erased, takesElseAll_erased ts]

end

mutual

/-- Without a notice no notice takes an `else`. -/
theorem takesElse_of_plain (t : Tree) (h : t.plain = true) : t.takesElse = false := by
  match t with
  | .call | .notice => rfl
  | .block ts => exact takesElseAll_of_plain ts h
  | .ifThen c s =>
    simp only [plain, Bool.and_eq_true] at h
    exact takesElse_of_plain s h.2
  | .ifElse c s e =>
    simp only [plain, Bool.and_eq_true, decide_eq_true_eq] at h
    rw [h.1.1, takesElse, takesElse_of_plain s h.1.2, takesElse_of_plain e h.2]
    rfl
  | .forOf s => exact takesElse_of_plain s h

theorem takesElseAll_of_plain (ts : List Tree) (h : plainAll ts = true) : takesElseAll ts = false := by
  match ts with
  | [] => rfl
  | t :: ts =>
    simp only [plainAll, Bool.and_eq_true] at h
    rw [takesElseAll, takesElse_of_plain t h.1, takesElseAll_of_plain ts h.2]
    rfl

end

/-- An `else` that belongs to a notice stays when a branch is attached. -/
theorem takesElse_attach {t e : Tree} (hopen : t.isOpen = true)
    (h : t.takesElse = true ∨ e.takesElse = true) : (t.attach e).takesElse = true := by
  match t with
  | .ifThen c s =>
    rw [attach]
    split
    · rename_i hs
      exact takesElse_attach (t := s) hs h
    · simp only [takesElse, Bool.or_eq_true]
      exact h.imp .inr id
  | .ifElse c s s' =>
    simp only [takesElse, Bool.or_eq_true, attach] at h ⊢
    obtain (h | h) | h := h
    · exact .inl h
    · exact .inr (takesElse_attach (t := s') hopen (.inl h))
    · exact .inr (takesElse_attach (t := s') hopen (.inr h))
  | .forOf s => exact takesElse_attach (t := s) hopen h

/-- An `else` after a statement that ends in a loop without braces belongs to a notice. -/
theorem takesElse_attach_marked {t : Tree} (hopen : t.isOpen = false) (hends : t.endsLoop = true)
    (e : Tree) : (t.marked.attach e).takesElse = true := by
  match t with
  | .ifElse c s s' =>
    simp only [marked, attach, takesElse, Bool.or_eq_true]
    exact .inr (takesElse_attach_marked (t := s') hopen hends e)
  | .forOf s =>
    have hnoticed : s.marked.noticed = .ifThen .notice s.marked := by
      cases s with
      | block ts => cases hends
      | _ => rfl
    rw [marked, hnoticed, attach, attach, isOpen_marked, show s.isOpen = false from hopen]
    cases hs : s.endsLoop with
    | true => exact takesElse_attach_marked (t := s) hopen hs e
    | false => rfl

theorem takesElse_normal_noticed (t : Tree) : t.noticed.normal.takesElse = t.normal.takesElse := by
  cases t <;> rfl

mutual

/-- A statement whose `else`s do not keep their place has one that a notice takes. -/
theorem takesElse_marked (t : Tree) (hn : t.nearest = true) (hk : t.keepsElse = false) :
    t.marked.normal.takesElse = true := by
  match t with
  | .block ts => exact takesElseAll_marked ts hn hk
  | .ifThen c s => exact takesElse_marked s hn hk
  | .ifElse c s e =>
    simp only [nearest, Bool.and_eq_true, Bool.not_eq_true'] at hn
    by_cases hkeep : s.keepsElse = true ∧ e.keepsElse = true
    · -- The `else` itself is taken: it comes after a loop without braces.
      have hends : s.endsLoop = true := by
        simpa [keepsElse, hkeep.1, hkeep.2] using hk
      have hs : s.marked.normal = s.marked :=
        normal_of_nearest _ (nearest_marked s hn.1.2 hkeep.1)
      rw [marked, normal, hs, if_pos (by rw [isOpen_marked, hends, Bool.or_true])]
      exact takesElse_attach_marked hn.1.1 hends _
    · -- An `else` within a branch is taken, and stays so.
      have hbranch : s.marked.normal.takesElse = true ∨ e.marked.normal.takesElse = true := by
        rw [← Bool.and_eq_true, Bool.not_eq_true, Bool.and_eq_false_iff] at hkeep
        exact hkeep.imp (takesElse_marked s hn.1.2) (takesElse_marked e hn.2)
      rw [marked, normal]
      split
      · rename_i hs
        exact takesElse_attach hs hbranch
      · simp only [takesElse, Bool.or_eq_true, or_assoc]
        exact .inr hbranch
  | .forOf s =>
    rw [marked, normal, takesElse, takesElse_normal_noticed]
    exact takesElse_marked s hn hk

/-- So have statements one of which is such. -/
theorem takesElseAll_marked (ts : List Tree) (hn : nearestAll ts = true) (hk : keepsElseAll ts = false) :
    takesElseAll (normalAll (markedAll ts)) = true := by
  match ts with
  | t :: ts =>
    simp only [nearestAll, keepsElseAll, Bool.and_eq_true, Bool.and_eq_false_iff] at hn hk
    simp only [markedAll, normalAll, takesElseAll, Bool.or_eq_true]
    exact hk.imp (takesElse_marked t hn.1) (takesElseAll_marked ts hn.2)

end

/-- **Where notices keep the structure.** Marked statements, read again and without their notices, are
the statements themselves exactly if no branch before an `else` ends in a loop without braces. -/
theorem erased_marked_iff {ts : List Tree} (hplain : plainAll ts = true) (hn : nearestAll ts = true) :
    erasedAll (normalAll (markedAll ts)) = ts ↔ keepsElseAll ts = true := by
  constructor
  · intro heq
    cases hk : keepsElseAll ts with
    | true => rfl
    | false =>
      have htakes := takesElseAll_marked ts hn hk
      rw [← takesElseAll_erased, heq, takesElseAll_of_plain ts hplain] at htakes
      cases htakes
  · intro hk
    rw [normalAll_of_nearest _ (nearestAll_marked ts hn hk), erasedAll_marked ts hplain]

end ModuleSystem.Loops.Tree

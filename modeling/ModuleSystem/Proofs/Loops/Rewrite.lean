import ModuleSystem.Proofs.Compile.Edits
import ModuleSystem.Proofs.Loops.Preface

/-!
# Compiling a program of loops

A program that declares and exports `x` compiles to code in which each loop over `x` notifies importers
(`compile_program`).  Read again, the code has the structure of the source exactly if no branch before an
`else` ends in a loop without braces (`loops_reread`): the `if` that is put around the body of such a
loop takes the `else` (`else_taken`).
-/

namespace ModuleSystem.Loops

open Edit (Edited)

/-! ### The edits of loops -/

section

variable {n : GeneratedNames} {pos : Nat} {es : List Edit} {t out : Text}

/-- A notice around the body of a loop. -/
theorem edited_guard (hn : n.runtime = Text.ofString "__esm") (targets : List Binding) (inFunction : Bool)
    (h : Edited pos es t out) :
    Edited pos (Print.loopEdit n ⟨targets, pos, false, inFunction⟩ :: es) t ((Head.test .notice).text ++ out) := by
  have hedit : Print.loopEdit n ⟨targets, pos, false, inFunction⟩ =
      ⟨pos, pos, (Head.test .notice).text, .insert⟩ := by
    have htext : "if (" ++ Text.ofString "__esm" ++ ".update(), true) " = (Head.test .notice).text := by
      decide
    rw [← htext, ← hn]
    rfl
  rw [hedit]
  exact Edited.cons [] [] (Head.test .notice).text .insert h

/-- A notice at the start of the block that is the body of a loop. -/
theorem edited_notice (hn : n.runtime = Text.ofString "__esm") (targets : List Binding) (inFunction : Bool)
    (h : Edited (pos + 1) es t out) :
    Edited pos (Print.loopEdit n ⟨targets, pos, true, inFunction⟩ :: es) (Head.brace.text ++ t)
      (Head.brace.text ++ (Head.notice.text ++ out)) := by
  have hedit : Print.loopEdit n ⟨targets, pos, true, inFunction⟩ =
      ⟨pos + 1, pos + 1, Head.notice.text, .insert⟩ := by
    have htext : Text.ofString "__esm" ++ ".update();" = Head.notice.text := by
      decide
    rw [← htext, ← hn]
    rfl
  rw [hedit]
  exact Edited.cons Head.brace.text [] Head.notice.text .insert h

mutual

theorem edited_tree (hn : n.runtime = Text.ofString "__esm") (t : Tree) (pos : Nat) :
    Edited pos ((t.loops pos).map (Print.loopEdit n)) t.text t.marked.text := by
  match t with
  | .call | .notice => exact .nil _
  | .block ts =>
    have h := (edited_trees hn ts (pos + 1)).append (.nil closing)
    rw [List.append_nil] at h
    exact Edited.keep (t := Head.brace.text) h
  | .ifThen c s => exact (edited_tree hn s _).keep
  | .ifElse c s e =>
    have h := (edited_tree hn s (pos + (Head.test c).text.length)).append
      (Edited.keep (t := otherwise) (edited_tree hn e _))
    rw [Tree.loops, List.map_append]
    exact Edited.keep h
  | .forOf s =>
    refine Edited.keep (t := Head.loop.text) ?_
    match s with
    | .block ts =>
      have h := (edited_trees hn ts (pos + Head.loop.text.length + 1)).append (.nil closing)
      rw [List.append_nil] at h
      simp only [Tree.marked, Tree.noticed, Tree.text, Tree.textAll, List.append_assoc]
      exact edited_notice hn _ false h
    | .call | .notice | .ifThen .. | .ifElse .. | .forOf .. =>
      exact edited_guard hn _ false (edited_tree hn _ _)

/-- The edits of the loops put the notices into statements one after the other. -/
theorem edited_trees (hn : n.runtime = Text.ofString "__esm") (ts : List Tree) (pos : Nat) :
    Edited pos ((Tree.loopsAll pos ts).map (Print.loopEdit n)) (Tree.textAll ts)
      (Tree.textAll (Tree.markedAll ts)) := by
  match ts with
  | [] => exact .nil _
  | t :: ts =>
    rw [Tree.loopsAll, List.map_append]
    exact (edited_tree hn t pos).append (edited_trees hn ts _)

end

end

/-! ### The interface of a program -/

/-- The interface of a program that exports `x`. -/
def programInterface : Interface := { localExports := [⟨[120], [120], 14⟩] }

/-- The generated beginning of the code of a program that exports `x`. -/
def opening : Text :=
  "(function* (__esm) \x7b\"use strict\";__esm.export(\x7b\"x\": () => x\x7d);yield;"

/-- A name that is not used is taken as it is. -/
theorem fresh_of_not_mem {used : List Text} {base : Text} (h : base ∉ used) :
    GeneratedNames.fresh used base = base := by
  rw [GeneratedNames.fresh, List.range_succ_eq_map, List.map_cons, List.find?_cons]
  simp [GeneratedNames.candidate, h]

/-- The text before a program in the fragment. -/
theorem prologue_program {n : GeneratedNames} (hn : n.runtime = Text.ofString "__esm") :
    Print.prologue programInterface n = opening := by
  have hopening : Print.prologue programInterface ⟨"__esm", [], []⟩ = opening := by decide
  rw [← hopening]
  simp only [Print.prologue, Print.exportCall, hn]
  rfl

/-- Names of declarations and statements are none of the generated names. -/
theorem runtime_not_mem {names words : List Text} (hnames : ∀ n ∈ names, n ∈ Scanner.declarators)
    (hwords : ∀ n ∈ words, n ∈ Scanner.lexicon.map Prod.fst) :
    Text.ofString "__esm" ∉ words ++ [120] :: [120] :: names := by
  have hdeclarators : Text.ofString "__esm" ∉ Scanner.declarators := by decide
  have hlexicon : Text.ofString "__esm" ∉ Scanner.lexicon.map Prod.fst := by decide
  have hx : Text.ofString "__esm" ≠ [120] := by decide
  simp only [List.mem_append, List.mem_cons, not_or]
  exact ⟨fun h => hlexicon (hwords _ h), hx, hx, fun h => hdeclarators (hnames _ h)⟩

mutual

/-- All loops of a statement assign `x`. -/
theorem isExported_loops (t : Tree) (pos : Nat) :
    ∀ l ∈ t.loops pos, Print.isExported programInterface l.targets = true := by
  match t with
  | .call | .notice => simp [Tree.loops]
  | .block ts => exact isExported_loopsAll ts _
  | .ifThen c s => exact isExported_loops s _
  | .ifElse c s e => exact List.forall_mem_append.2 ⟨isExported_loops s _, isExported_loops e _⟩
  | .forOf s => exact List.forall_mem_cons.2 ⟨rfl, isExported_loops s _⟩

/-- All loops of the fragment assign the exported variable. -/
theorem isExported_loopsAll (ts : List Tree) (pos : Nat) :
    ∀ l ∈ Tree.loopsAll pos ts, Print.isExported programInterface l.targets = true := by
  match ts with
  | [] => simp [Tree.loopsAll]
  | t :: ts => exact List.forall_mem_append.2 ⟨isExported_loops t _, isExported_loopsAll ts _⟩

end

/-- A program of loops can be read: it exports `x`, and its edits are those of the export clause and
the loops. -/
theorem read_program {w : Text} (hw : w ∈ Scanner.declarators) (ts : List Tree) (hts : Tree.plainAll ts = true)
    (s : Source) (hs : s.contents = preface w ++ Tree.textAll ts) :
    ∃ o, Outline.read s = .ok o ∧ (GeneratedNames.ofOutline o).runtime = Text.ofString "__esm" ∧
      (∀ unnamed, Interface.ofOutline o unnamed = programInterface) ∧
      ∀ n, Print.listed o programInterface n =
        .remove ⟨6, 11⟩ :: (Tree.loopsAll 17 ts).map (Print.loopEdit n) := by
  obtain ⟨names, o, hnames, hscan, words, hwords, ho⟩ := scan_program hw ts hts s hs
  have hstatements : o.statements = [.exportClause ⟨6, 11⟩ [⟨[120], [120], 14, 14⟩]] := by rw [ho]; rfl
  have hwrites : o.writes = [] := by rw [ho]; rfl
  have hloops : o.loopWrites = Tree.loopsAll 17 ts := by rw [ho]; rfl
  have hused : o.usedNames = words ++ [120] :: [120] :: names := by rw [ho]; rfl
  refine ⟨o, ?read, ?runtime, fun unnamed => ?interface, fun n => ?edits⟩
  case read =>
    have hcheck : o.check s = [] := by
      simp [Outline.check, Outline.assignedImports, Outline.importedNames, hstatements,
        Outline.importedBy, Outline.exportsOf, Outline.repeated]
    unfold Outline.read
    rw [hscan]
    simp only [hcheck, List.isEmpty_nil, reduceIte]
  case runtime =>
    exact fresh_of_not_mem (hused ▸ runtime_not_mem hnames hwords)
  case interface =>
    have hrecords : o.records = [] := by rw [ho]; rfl
    rw [Interface.ofOutline, hstatements, hrecords]
    rfl
  case edits =>
    have hfilter := List.filter_eq_self.2 (isExported_loopsAll ts 17)
    have hhashbang : o.hashbang = {} := by rw [ho]; rfl
    have hdynamic : o.dynamicImports = [] := by rw [ho]; rfl
    have hmetas : o.importMetas = [] := by rw [ho]; rfl
    rw [Print.listed, hstatements, hwrites, hloops, hfilter, hhashbang, hdynamic, hmetas]
    simp [Print.statementEdits]

/-- The edits of a program are listed in the order in which they are applied. -/
theorem listed_sorted {n : GeneratedNames} {ts : List Tree} {out : Text}
    (h : Edited 17 ((Tree.loopsAll 17 ts).map (Print.loopEdit n)) (Tree.textAll ts) out) :
    (Edit.remove ⟨6, 11⟩ :: (Tree.loopsAll 17 ts).map (Print.loopEdit n)).Pairwise
      fun a b => Edit.le a b = true := by
  have hinsert : ∀ e ∈ (Tree.loopsAll 17 ts).map (Print.loopEdit n), e.rank = .insert ∧ e.start = e.stop := by
    intro e he
    obtain ⟨l, -, rfl⟩ := List.mem_map.1 he
    unfold Print.loopEdit
    split <;> exact ⟨rfl, rfl⟩
  refine List.pairwise_cons.2 ⟨fun e he => ?_, h.pairwise.imp_of_mem fun {a b} ha hb hab => ?_⟩
  · have hstart := h.starts e he
    have hlt : 6 < e.start := by omega
    simp [Edit.le, Edit.remove, Edit.replace, hlt]
  · have ha := hinsert a ha
    have hb := hinsert b hb
    simp only [Edit.le, ha.1, hb.1, le_refl, decide_true, Bool.and_true, Bool.or_eq_true, decide_eq_true_eq]
    omega

/-- **The code of a program of loops**: the declaration is kept, the export clause is removed, and each
loop notifies importers. -/
theorem compile_program {w : Text} (hw : w ∈ Scanner.declarators) (ts : List Tree)
    (hts : Tree.plainAll ts = true) (s : Source) (hs : s.contents = preface w ++ Tree.textAll ts) :
    ∃ c, compile s (some .script) = .ok c ∧
      c.code = opening ++ (w ++ " x;" ++ Tree.textAll (Tree.markedAll ts)) ++ Print.epilogue := by
  obtain ⟨o, hread, hruntime, hinterface, hlisted⟩ := read_program hw ts hts s hs
  obtain ⟨n, hn⟩ : ∃ n, GeneratedNames.ofOutline o = n := ⟨_, rfl⟩
  rw [hn] at hruntime
  have hloops := edited_trees hruntime ts 17
  have hedits : Print.edits o programInterface n = Edit.remove ⟨6, 11⟩ :: (Tree.loopsAll 17 ts).map (Print.loopEdit n) := by
    rw [Print.edits_of_sorted (hlisted n ▸ listed_sorted hloops), hlisted n]
  have hsplit : s.contents = w ++ " x;" ++ ("export \x7bx\x7d;" ++ Tree.textAll ts) := by
    have hpreface : Text.ofString " x;export \x7bx\x7d;" = " x;" ++ Text.ofString "export \x7bx\x7d;" := by
      decide
    rw [hs, preface, hpreface]
    simp only [List.append_assoc]
  have hlength : (w ++ Text.ofString " x;").length = 6 := by
    have hx : (Text.ofString " x;").length = 3 := by decide
    rw [List.length_append, (Scanner.isWord_of_declarator hw).2, hx]
  have hclause : (Text.ofString "export \x7bx\x7d;").length = 11 := by decide
  have hremoved := @Edited.cons 0 ((Tree.loopsAll 17 ts).map (Print.loopEdit n)) (Tree.textAll ts)
    (Tree.textAll (Tree.markedAll ts)) (w ++ " x;") "export \x7bx\x7d;" [] .replace (by rw [hlength, hclause]; exact hloops)
  rw [hlength, hclause] at hremoved
  have hbreaks : Edit.lineBreaks (Text.ofString "export \x7bx\x7d;") = [] := by decide
  have happly := @Edited.applyFrom_eq _ _ _ _ hremoved [] rfl
  refine ⟨_, Print.compile_eq hread hn (hinterface _), ?_⟩
  rw [prologue_program hruntime, hedits, hsplit, Edit.apply]
  rw [hbreaks] at happly
  simp only [List.nil_append] at happly
  exact congrArg (opening ++ · ++ Print.epilogue) happly

/-- **Reading the code of a program of loops again.** Without its notices, the code has the statements of
the source exactly if in these no branch before an `else` ends in a loop without braces. -/
theorem loops_reread (w : Text) (hw : w ∈ Scanner.declarators) (ts : List Tree)
    (hts : Tree.plainAll ts = true) (s : Source) (hs : s.contents = preface w ++ Tree.textAll ts) :
    ∃ c body written reread, compile s (some .script) = .ok c ∧
      c.code = opening ++ (w ++ " x;" ++ body) ++ Print.epilogue ∧
      Tree.program (Tree.textAll ts) = some written ∧ Tree.program body = some reread ∧
      (Tree.erasedAll reread = written ↔ Tree.keepsElseAll written = true) := by
  -- The text is that of the statements that are read, so these may take the place of those written.
  have hplain := Tree.plainAll_normal ts hts
  obtain ⟨c, hc, hcode⟩ := compile_program hw (Tree.normalAll ts) hplain s (by rw [Tree.textAll_normal, hs])
  exact ⟨c, _, _, _, hc, hcode, Tree.program_text ts, Tree.program_text _,
    Tree.erased_marked_iff hplain (Tree.nearestAll_normal ts)⟩

/-- A loop without braces in a block, before an `else`: all statements are kept. -/
theorem loops_reread_kept : ∃ c body written reread,
    compile { contents := "let x;export \x7bx\x7d;if (a) \x7bfor (x of xs) f();\x7d else for (x of xs) \x7bf();\x7d" }
        (some .script) = .ok c ∧
      c.code = opening ++ ("let" ++ " x;" ++ body) ++ Print.epilogue ∧
      Tree.program "if (a) \x7bfor (x of xs) f();\x7d else for (x of xs) \x7bf();\x7d" = some written ∧
      Tree.program body = some reread ∧ Tree.erasedAll reread = written := by
  let ts : List Tree := [.ifElse .variable (.block [.forOf .call]) (.forOf (.block [.call]))]
  obtain ⟨c, body, written, reread, hc, hcode, hwritten, hreread, hiff⟩ := loops_reread "let" (by decide)
    ts (by decide)
    { contents := "let x;export \x7bx\x7d;if (a) \x7bfor (x of xs) f();\x7d else for (x of xs) \x7bf();\x7d" }
    (by decide)
  have hts : written = ts := by
    rw [Tree.program_text] at hwritten
    cases hwritten
    rfl
  exact ⟨c, body, written, reread, hc, hcode, hwritten, hreread, hiff.2 (by rw [hts]; decide)⟩

/-- **An `else` is taken.** In `if (a) for (x of xs) f(); else f();` the `else` belongs to `if (a)`; in the
code it belongs to the notice, so the second call is part of the loop, where it is never made. -/
theorem else_taken : ∃ c body written reread,
    compile { contents := "let x;export \x7bx\x7d;if (a) for (x of xs) f(); else f();" } (some .script) = .ok c ∧
      c.code = opening ++ ("let" ++ " x;" ++ body) ++ Print.epilogue ∧
      Tree.program "if (a) for (x of xs) f(); else f();" = some written ∧
      Tree.program body = some reread ∧ Tree.erasedAll reread ≠ written ∧
      written = [.ifElse .variable (.forOf .call) .call] ∧
      reread = [.ifThen .variable (.forOf (.ifElse .notice .call .call))] := by
  obtain ⟨c, hc, hcode⟩ := compile_program (w := "let") (by decide) [.ifElse .variable (.forOf .call) .call]
    (by decide) { contents := "let x;export \x7bx\x7d;if (a) for (x of xs) f(); else f();" }
    (by decide)
  exact ⟨c, _, _, _, hc, hcode, by rfl, by rfl, by simp [Tree.erasedAll, Tree.erased], rfl, rfl⟩

end ModuleSystem.Loops

import Mathlib.Data.List.Nodup
import ModuleSystem.Compile.Print
import ModuleSystem.Proofs.Outline.Handles

/-!
# Generated names

Printing makes up three names.  Each is the first of its candidates that does not occur in the source
and was not made up before; the candidates of a base differ from each other, so one of them is free
(`GeneratedNames.fresh_spec`).  Every name of a variable occurs in the outline, so no made-up name
captures a variable (`GeneratedNames.captures_nothing`).
-/

namespace ModuleSystem

theorem Text.ofString_injective : Function.Injective Text.ofString := by
  intro s t h
  refine String.toByteArray_inj.1 ?_
  rw [← String.utf8Encode_toList, ← String.utf8Encode_toList]
  exact congrArg List.toByteArray h

theorem Text.ofNat_injective : Function.Injective Text.ofNat := by
  intro m n h
  have hdigits := String.toList_inj.2 (Text.ofString_injective h)
  rw [Nat.toString_eq_ofList_toDigits, Nat.toString_eq_ofList_toDigits, String.toList_ofList,
    String.toList_ofList] at hdigits
  rw [← @Nat.ofDigitChars_ten_toDigits m, hdigits, Nat.ofDigitChars_ten_toDigits]

namespace GeneratedNames

/-- No two numbers make the same name. -/
theorem candidate_injective (base : Text) : Function.Injective (candidate base) := by
  have hne : ∀ n, base ≠ base ++ Text.ofNat (n + 1) := by
    intro n h
    have hnil : Text.ofString "" = Text.ofNat (n + 1) := (List.self_eq_append_right.1 h).symm
    exact Nat.repr_ne_empty (Text.ofString_injective hnil).symm
  intro m n h
  unfold candidate at h
  by_cases hm : m = 0
  · by_cases hn : n = 0
    · rw [hm, hn]
    · rw [if_pos hm, if_neg hn] at h
      exact absurd h (hne n)
  · by_cases hn : n = 0
    · rw [if_neg hm, if_pos hn] at h
      exact absurd h.symm (hne m)
    · rw [if_neg hm, if_neg hn] at h
      exact Nat.succ_injective (Text.ofNat_injective (List.append_cancel_left h))

/-- There are more candidates than names in use. -/
theorem exists_candidate (used : List Text) (base : Text) :
    ∃ k ∈ List.range (used.length + 1), candidate base k ∉ used := by
  by_contra hall
  push Not at hall
  have hsub : (List.range (used.length + 1)).map (candidate base) ⊆ used := by
    intro t ht
    obtain ⟨k, hk, rfl⟩ := List.mem_map.1 ht
    exact hall k hk
  have hle := (List.nodup_range.map (candidate_injective base)).length_le_of_subset hsub
  rw [List.length_map, List.length_range] at hle
  omega

/-- A fresh name is the first candidate that is not in use, and there is one among the first
candidates. -/
theorem fresh_spec (used : List Text) (base : Text) :
    ∃ k ≤ used.length, fresh used base = candidate base k ∧ candidate base k ∉ used ∧
      ∀ j < k, candidate base j ∈ used := by
  unfold fresh
  rw [List.find?_map]
  cases hfind : (List.range (used.length + 1)).find? ((fun n => !used.contains n) ∘ candidate base) with
  | none =>
      obtain ⟨k, hk, hfree⟩ := exists_candidate used base
      have := List.find?_eq_none.1 hfind k hk
      simp [hfree] at this
  | some k =>
      obtain ⟨hfree, hk, hfirst⟩ := List.find?_range_eq_some.1 hfind
      refine ⟨k, Nat.lt_succ_iff.1 (List.mem_range.1 hk), rfl, by simpa using hfree, fun j hj => ?_⟩
      simpa using hfirst j hj

/-- A generated name is not among the used ones. -/
theorem fresh_notMem (used : List Text) (base : Text) : fresh used base ∉ used := by
  obtain ⟨k, -, heq, hfree, -⟩ := fresh_spec used base
  rwa [heq]

/-- The names that printing makes up. -/
def all (n : GeneratedNames) : List Text := [n.runtime, n.unnamed, n.value]

theorem notMem_all {o : Outline} {t : Text} (h : t ∈ o.usedNames) : t ∉ (ofOutline o).all := by
  have hruntime := fresh_notMem o.usedNames "__esm"
  have hunnamed := fresh_notMem (fresh o.usedNames "__esm" :: o.usedNames) "_default"
  have hvalue := fresh_notMem (fresh (fresh o.usedNames "__esm" :: o.usedNames) "_default" ::
    fresh o.usedNames "__esm" :: o.usedNames) "_value"
  simp only [List.mem_cons, not_or] at hunnamed hvalue
  simp only [all, ofOutline, List.mem_cons, List.not_mem_nil, or_false]
  rintro (rfl | rfl | rfl)
  · exact hruntime h
  · exact hunnamed.2 h
  · exact hvalue.2.2 h

/-- No two generated names are the same. -/
theorem all_nodup (o : Outline) : (ofOutline o).all.Nodup := by
  have hunnamed := fresh_notMem (fresh o.usedNames "__esm" :: o.usedNames) "_default"
  have hvalue := fresh_notMem (fresh (fresh o.usedNames "__esm" :: o.usedNames) "_default" ::
    fresh o.usedNames "__esm" :: o.usedNames) "_value"
  simp only [List.mem_cons, not_or] at hunnamed hvalue
  simp only [all, ofOutline, List.nodup_cons, List.mem_cons, List.not_mem_nil, or_false, not_or,
    not_false_eq_true, List.nodup_nil, and_true]
  exact ⟨⟨Ne.symm hunnamed.1, Ne.symm hvalue.2.1⟩, Ne.symm hvalue.1⟩

/-- The names that printing makes up for a source that can be read differ from each other, from the
name of every identifier that is handled and does not follow a dot, and from every local name that a
module statement binds, declares or exports; and some candidate for a name is always free. -/
theorem captures_nothing (s : Source) (o : Outline) (h : Outline.read s = .ok o) :
    (ofOutline o).all.Nodup ∧
      (∀ p, Outline.Handles s p → p.token.kind = .identifier ∨ p.token.kind = .escapedKeyword →
        ¬ Outline.DotAt s p.token.prevStop → p.token.name ∉ (ofOutline o).all) ∧
      (∀ st ∈ o.statements, ∀ t ∈ st.localNames, t ∉ (ofOutline o).all) ∧
      ∀ used base, ∃ k ≤ used.length, fresh used base = candidate base k ∧ candidate base k ∉ used ∧
        ∀ j < k, candidate base j ∈ used := by
  have hscan := (Outline.read_scan h).1
  refine ⟨all_nodup o, fun p hp hkind hdot => ?_, fun st hst t ht => ?_, fresh_spec⟩
  · exact notMem_all (Outline.mem_usedNames hp hkind hdot hscan)
  · exact notMem_all (((Outline.scan_tallies o hscan).statements st hst).1.names t ht)

/-- A module that uses a name that printing would make up. -/
def busy : Source := { contents := "__esm.a" }

theorem captures_nothing_busy :
    ∃ o, Outline.read busy = .ok o ∧ (ofOutline o).runtime = "__esm2" ∧
      (ofOutline o).all.Nodup ∧
      (∀ p, Outline.Handles busy p → p.token.kind = .identifier ∨ p.token.kind = .escapedKeyword →
        ¬ Outline.DotAt busy p.token.prevStop → p.token.name ∉ (ofOutline o).all) := by
  have hread : (Outline.read busy).toOption.map (fun o => (ofOutline o).runtime) =
      some (Text.ofString "__esm2") := by
    decide +kernel
  cases h : Outline.read busy with
  | error fs => rw [h] at hread; cases hread
  | ok o =>
      rw [h] at hread
      obtain ⟨hnodup, hhandled, -⟩ := captures_nothing busy o h
      exact ⟨o, rfl, Option.some.inj hread, hnodup, hhandled⟩

end GeneratedNames

end ModuleSystem

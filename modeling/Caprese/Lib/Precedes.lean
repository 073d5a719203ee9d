import Caprese.Lib.Chains
import Mathlib.Data.List.Nodup

/-!
# `Caprese.Lib.Precedes`: the order on disjoint lists

In a family of disjoint lists `Precedes C x y` says that `x` and `y` are on one list, `x` in front
of `y`. The second half of the module says what becomes of this order when a node is put behind
another one, takes the place of another one, or is taken off its list.
-/

set_option autoImplicit false

namespace Lib

namespace Chains

open scoped List

variable {ν : Type} {C : Set (List ν)} {x y z s s' : ν} {a b l new : List ν}

/-! ### Pairs on a list -/

theorem ahead_cons : [s, s'] <+ x :: l ↔ [s, s'] <+ l ∨ s = x ∧ s' ∈ l := by
  rw [List.sublist_cons_iff]
  constructor
  · rintro (h | ⟨r, hr, h⟩)
    · exact Or.inl h
    · obtain ⟨rfl, rfl⟩ := List.cons.inj hr
      exact Or.inr ⟨rfl, List.singleton_sublist.mp h⟩
  · rintro (h | ⟨rfl, h⟩)
    · exact Or.inl h
    · exact Or.inr ⟨[s'], rfl, List.singleton_sublist.mpr h⟩

theorem ahead_append : [s, s'] <+ a ++ b ↔ [s, s'] <+ a ∨ [s, s'] <+ b ∨ s ∈ a ∧ s' ∈ b := by
  induction a with
  | nil => simp
  | cons x a ih =>
    rw [List.cons_append, ahead_cons, ih, ahead_cons, List.mem_append, List.mem_cons]
    tauto

theorem ahead_split : [s, s'] <+ a ++ x :: b ↔
    [s, s'] <+ a ∨ [s, s'] <+ b ∨ s ∈ a ∧ s' ∈ b ∨ s = x ∧ s' ∈ b ∨ s ∈ a ∧ s' = x := by
  rw [ahead_append, ahead_cons, List.mem_cons]
  tauto

theorem mem_of_ahead (h : [s, s'] <+ l) : s ∈ l ∧ s' ∈ l :=
  ⟨h.subset (by simp), h.subset (by simp)⟩

/-- What is in front of a node that is on the list once, and what is behind it. -/
theorem ahead_node (ha : x ∉ a) (hb : x ∉ b) :
    ([s, x] <+ a ++ x :: b ↔ s ∈ a) ∧ ([x, s] <+ a ++ x :: b ↔ s ∈ b) := by
  rw [ahead_split, ahead_split]
  have hla : ∀ {s s'}, [s, s'] <+ a → s ≠ x ∧ s' ≠ x := fun h =>
    ⟨fun heq => ha (heq ▸ (mem_of_ahead h).1), fun heq => ha (heq ▸ (mem_of_ahead h).2)⟩
  have hlb : ∀ {s s'}, [s, s'] <+ b → s ≠ x ∧ s' ≠ x := fun h =>
    ⟨fun heq => hb (heq ▸ (mem_of_ahead h).1), fun heq => hb (heq ▸ (mem_of_ahead h).2)⟩
  constructor
  · constructor
    · rintro (h | h | ⟨-, h⟩ | ⟨-, h⟩ | ⟨h, -⟩)
      · exact absurd rfl (hla h).2
      · exact absurd rfl (hlb h).2
      · exact absurd h hb
      · exact absurd h hb
      · exact h
    · exact fun h => Or.inr (Or.inr (Or.inr (Or.inr ⟨h, rfl⟩)))
  · constructor
    · rintro (h | h | ⟨h, -⟩ | ⟨-, h⟩ | ⟨h, -⟩)
      · exact absurd rfl (hla h).1
      · exact absurd rfl (hlb h).1
      · exact absurd h ha
      · exact h
      · exact absurd h ha
    · exact fun h => Or.inr (Or.inr (Or.inr (Or.inl ⟨rfl, h⟩)))

/-- What a list and a part of it have in common. -/
theorem ahead_of_sublist (hnd : l.Nodup) (hnew : new <+ l) (hs : s ∈ new) (hs' : s' ∈ new) :
    [s, s'] <+ new ↔ [s, s'] <+ l := by
  refine ⟨fun h => h.trans hnew, fun h => ?_⟩
  induction hnew with
  | slnil => exact absurd hs List.not_mem_nil
  | @cons new l z hnew ih =>
    obtain ⟨hz, hnd⟩ := List.nodup_cons.mp hnd
    rcases ahead_cons.mp h with h | ⟨rfl, -⟩
    · exact ih hnd hs hs' h
    · exact absurd (hnew.subset hs) hz
  | @cons_cons new l z hnew ih =>
    obtain ⟨hz, hnd⟩ := List.nodup_cons.mp hnd
    rw [ahead_cons]
    rcases ahead_cons.mp h with h | ⟨rfl, hl⟩
    · have hsz : s ≠ z := fun heq => hz (heq ▸ (mem_of_ahead h).1)
      have hsz' : s' ≠ z := fun heq => hz (heq ▸ (mem_of_ahead h).2)
      exact Or.inl (ih hnd ((List.mem_cons.mp hs).resolve_left hsz)
        ((List.mem_cons.mp hs').resolve_left hsz') h)
    · have hsz' : s' ≠ s := fun heq => hz (heq ▸ hl)
      exact Or.inr ⟨rfl, (List.mem_cons.mp hs').resolve_left hsz'⟩

/-! ### The order -/

/-- Both nodes are on one list, the first one in front of the second. -/
def Precedes (C : Set (List ν)) (x y : ν) : Prop := ∃ l ∈ C, [x, y] <+ l

theorem not_precedes_fresh (hy : Fresh C y) : ¬ Precedes C s y ∧ ¬ Precedes C y s :=
  ⟨fun ⟨l, hl, h⟩ => hy l hl (mem_of_ahead h).2, fun ⟨l, hl, h⟩ => hy l hl (mem_of_ahead h).1⟩

theorem precedes_iff (hC : Valid C) (hl : l ∈ C) :
    Precedes C s s' ↔ (s ∉ l ∧ Precedes C s s') ∨ [s, s'] <+ l := by
  constructor
  · rintro ⟨l', hl', h⟩
    by_cases hs : s ∈ l
    · obtain rfl := hC.unique _ hl' _ hl s (mem_of_ahead h).1 hs
      exact Or.inr h
    · exact Or.inl ⟨hs, l', hl', h⟩
  · rintro (⟨-, h⟩ | h)
    · exact h
    · exact ⟨l, hl, h⟩

/-- What is behind a node of another list is on that list. -/
theorem not_mem_of_precedes (hC : Valid C) (hl : l ∈ C) (hs : s ∉ l) (h : Precedes C s s') :
    s' ∉ l := by
  obtain ⟨l', hl', h⟩ := h
  intro hs'
  rw [hC.unique _ hl _ hl' s' hs' (mem_of_ahead h).2] at hs
  exact hs (mem_of_ahead h).1

/-- What is in front of a node, and what is behind it. -/
theorem precedes_node (hC : Valid C) (hl : a ++ x :: b ∈ C) :
    (Precedes C s x ↔ s ∈ a) ∧ (Precedes C x s ↔ s ∈ b) := by
  have hnd := hC.nodup _ hl
  rw [List.nodup_middle, List.nodup_cons, List.mem_append, not_or] at hnd
  obtain ⟨hfront, hback⟩ := ahead_node (s := s) hnd.1.1 hnd.1.2
  rw [← hfront, ← hback]
  refine ⟨⟨fun h => ?_, fun h => ⟨_, hl, h⟩⟩, ⟨fun h => ?_, fun h => ⟨_, hl, h⟩⟩⟩
  · rcases (precedes_iff hC hl).mp h with ⟨hs, -⟩ | h'
    · exact absurd (by simp) (not_mem_of_precedes hC hl hs h)
    · exact h'
  · rcases (precedes_iff hC hl).mp h with ⟨hx, -⟩ | h'
    · exact absurd (by simp) hx
    · exact h'

/-! ### Changes -/

/-- The order after the list `l` was exchanged for `new`. -/
theorem precedes_rewrite (hC : Valid C) (hl : l ∈ C) (hx : x ∈ l)
    (hnew : ∀ z ∈ new, z ∈ l ∨ Fresh C z) :
    Precedes (rewrite C x new) s s' ↔ (s ∉ l ∧ Precedes C s s') ∨ [s, s'] <+ new := by
  constructor
  · rintro ⟨l', ⟨hl', hxl, -⟩ | ⟨rfl, -⟩, h⟩
    · refine Or.inl ⟨fun hs => hxl ?_, l', hl', h⟩
      rwa [hC.unique _ hl' _ hl s (mem_of_ahead h).1 hs]
    · exact Or.inr h
  · rintro (⟨hs, l', hl', h⟩ | h)
    · refine ⟨l', Or.inl ⟨hl', fun hxl => hs ?_, fun z hz hzl => ?_⟩, h⟩
      · rw [← hC.unique _ hl' _ hl x hxl hx]
        exact (mem_of_ahead h).1
      · rcases hnew z hz with hin | hfresh
        · refine hs ?_
          rw [← hC.unique _ hl' _ hl z hzl hin]
          exact (mem_of_ahead h).1
        · exact hfresh _ hl' hzl
    · refine ⟨new, Or.inr ⟨rfl, ?_⟩, h⟩
      rintro rfl
      simp at h

/-- Nodes are taken off a list. The others keep their order. -/
theorem precedes_shrink (hC : Valid C) (hl : l ∈ C) (hx : x ∈ l) (hnew : new <+ l)
    (hs : s ∈ l → s ∈ new) (hs' : s' ∈ l → s' ∈ new) :
    Precedes (rewrite C x new) s s' ↔ Precedes C s s' := by
  rw [precedes_rewrite hC hl hx fun z hz => Or.inl (hnew.subset hz), precedes_iff hC hl]
  by_cases hsl : s ∈ l
  · by_cases hsl' : s' ∈ l
    · rw [ahead_of_sublist (hC.nodup _ hl) hnew (hs hsl) (hs' hsl')]
      simp only [hsl, not_true_eq_false, false_and, false_or]
    · have hnot : ¬ [s, s'] <+ l := fun h => hsl' (mem_of_ahead h).2
      have hnot' : ¬ [s, s'] <+ new := fun h => hnot (h.trans hnew)
      simp only [hsl, not_true_eq_false, false_and, hnot, hnot']
  · have hnot : ¬ [s, s'] <+ l := fun h => hsl (mem_of_ahead h).1
    have hnot' : ¬ [s, s'] <+ new := fun h => hnot (h.trans hnew)
    simp only [hsl, not_false_eq_true, true_and, hnot, hnot', or_false]

section New

variable [DecidableEq ν]

/-- The fresh node `y` comes right behind `x`. -/
theorem precedes_insert (hC : Valid C) (hl : a ++ x :: b ∈ C) (hy : Fresh C y) :
    Precedes (rewrite C x (a ++ x :: y :: b)) s s' ↔
      if s = y then Precedes C x s' else if s' = y then s = x ∨ Precedes C s x
      else Precedes C s s' := by
  have hyl := hy _ hl
  simp only [List.mem_append, List.mem_cons, not_or] at hyl
  have hlist : a ++ x :: y :: b = (a ++ [x]) ++ y :: b := by simp
  have hya : y ∉ a ++ [x] := by simp [hyl.1, hyl.2.1]
  rw [precedes_rewrite hC hl (by simp) fun z hz => ?_]
  · split
    · rename_i heq
      subst heq
      rw [hlist, (ahead_node hya hyl.2.2).2, (precedes_node hC hl).2]
      simp only [(not_precedes_fresh hy).2, and_false, false_or]
    · rename_i hsy
      split
      · rename_i heq
        subst heq
        rw [hlist, (ahead_node hya hyl.2.2).1, (precedes_node hC hl).1]
        simp only [(not_precedes_fresh hy).1, and_false, false_or, List.mem_append,
          List.mem_singleton]
        exact or_comm
      · rename_i hsy'
        rw [precedes_iff hC hl, ahead_split, ahead_split, ahead_cons, List.mem_cons]
        simp only [hsy, hsy', false_and, or_false, false_or]
        tauto
  · simp only [List.mem_append, List.mem_cons] at hz ⊢
    rcases hz with hz | rfl | rfl | hz
    · exact Or.inl (Or.inl hz)
    · exact Or.inl (Or.inr (Or.inl rfl))
    · exact Or.inr hy
    · exact Or.inl (Or.inr (Or.inr hz))

/-- The fresh node `y` takes the place of `x`. -/
theorem precedes_replace (hC : Valid C) (hl : a ++ x :: b ∈ C) (hy : Fresh C y) (hs : s ≠ x)
    (hs' : s' ≠ x) : Precedes (rewrite C x (a ++ y :: b)) s s' ↔
      if s = y then Precedes C x s' else if s' = y then Precedes C s x else Precedes C s s' := by
  have hyl := hy _ hl
  simp only [List.mem_append, List.mem_cons, not_or] at hyl
  rw [precedes_rewrite hC hl (by simp) fun z hz => ?_]
  · split
    · rename_i heq
      subst heq
      rw [(ahead_node hyl.1 hyl.2.2).2, (precedes_node hC hl).2]
      simp only [(not_precedes_fresh hy).2, and_false, false_or]
    · rename_i hsy
      split
      · rename_i heq
        subst heq
        rw [(ahead_node hyl.1 hyl.2.2).1, (precedes_node hC hl).1]
        simp only [(not_precedes_fresh hy).1, and_false, false_or]
      · rename_i hsy'
        rw [precedes_iff hC hl, ahead_split, ahead_split]
        simp only [hsy, hsy', hs, hs', false_and, and_false, or_false]
        tauto
  · simp only [List.mem_append, List.mem_cons] at hz ⊢
    rcases hz with hz | rfl | hz
    · exact Or.inl (Or.inl hz)
    · exact Or.inr hy
    · exact Or.inl (Or.inr (Or.inr hz))

end New

/-- The fresh node `y` gets a list of its own. -/
theorem precedes_single (hy : Fresh C y) :
    Precedes (rewrite C y [y]) s s' ↔ Precedes C s s' := by
  constructor
  · rintro ⟨l, ⟨hl, -, -⟩ | ⟨rfl, -⟩, h⟩
    · exact ⟨l, hl, h⟩
    · rw [ahead_cons] at h
      simp at h
  · rintro ⟨l, hl, h⟩
    exact ⟨l, Or.inl ⟨hl, hy l hl, fun z hz => List.mem_singleton.mp hz ▸ hy l hl⟩, h⟩

end Chains

end Lib

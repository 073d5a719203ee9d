import Caprese.Lib.Chains
import Mathlib.Data.List.Infix
import Mathlib.Logic.Relation

/-!
# `Caprese.Lib.Successor`: who comes next on a list

`Next C s t`: on one of the lists the node `t` comes right behind `s`. `next_rewrite` tells who
comes next after a list was exchanged. The other lemmas are about paths of a relation, which is
changed by one edge, by one name, or by leaving out edges.
-/

set_option autoImplicit false

namespace Lib

namespace Chains

open Relation

variable {ν : Type} {C : Set (List ν)} {x y z s t : ν} {a b l l' new : List ν}

/-! ### Neighbours on a list -/

theorem pair_cons : [s, t] <:+: x :: b ↔ (x = s ∧ b.head? = some t) ∨ [s, t] <:+: b := by
  rw [List.infix_cons_iff, List.cons_prefix_cons]
  cases b with
  | nil => simp
  | cons u b => simp [List.cons_prefix_cons, eq_comm]

theorem pair_append : [s, t] <:+: a ++ b ↔
    [s, t] <:+: a ∨ (a.getLast? = some s ∧ b.head? = some t) ∨ [s, t] <:+: b := by
  induction a with
  | nil => simp
  | cons u a ih =>
    rw [List.cons_append, pair_cons, pair_cons, ih]
    cases a with
    | nil => simp
    | cons v a => simp [List.getLast?_cons_cons]; tauto

theorem mem_of_pair (h : [s, t] <:+: l) : s ∈ l ∧ t ∈ l :=
  ⟨h.subset (by simp), h.subset (by simp)⟩

/-- What comes behind a node that is on the list once. -/
theorem pair_here (ha : s ∉ a) (hb : s ∉ b) : [s, t] <:+: a ++ s :: b ↔ b.head? = some t := by
  rw [pair_append, pair_cons]
  constructor
  · rintro (h | ⟨h, -⟩ | ⟨-, h⟩ | h)
    · exact absurd (mem_of_pair h).1 ha
    · exact absurd (List.mem_of_getLast? h) ha
    · exact h
    · exact absurd (mem_of_pair h).1 hb
  · exact fun h => Or.inr (Or.inr (Or.inl ⟨rfl, h⟩))

/-- What comes behind the other nodes of the list. -/
theorem pair_around (hs : s ≠ x) : [s, t] <:+: a ++ x :: b ↔
    [s, t] <:+: a ∨ (a.getLast? = some s ∧ x = t) ∨ [s, t] <:+: b := by
  rw [pair_append, pair_cons, List.head?_cons, Option.some.injEq]
  simp only [Ne.symm hs, false_and, false_or]

/-! ### Neighbours on the lists of a family -/

/-- The node `t` comes right behind `s`. -/
def Next (C : Set (List ν)) (s t : ν) : Prop := ∃ l ∈ C, [s, t] <:+: l

theorem next_iff (hC : Valid C) (hl : l ∈ C) :
    Next C s t ↔ (s ∉ l ∧ Next C s t) ∨ [s, t] <:+: l := by
  constructor
  · rintro ⟨l', hl', h⟩
    by_cases hs : s ∈ l
    · obtain rfl := hC.unique _ hl' _ hl s (mem_of_pair h).1 hs
      exact Or.inr h
    · exact Or.inl ⟨hs, l', hl', h⟩
  · rintro (⟨-, h⟩ | h)
    · exact h
    · exact ⟨l, hl, h⟩

/-- Who comes next after the list `l` was exchanged for `new`. -/
theorem next_rewrite (hC : Valid C) (hl : l ∈ C) (hx : x ∈ l)
    (hnew : ∀ z ∈ new, z ∈ l ∨ Fresh C z) :
    Next (rewrite C x new) s t ↔ (s ∉ l ∧ Next C s t) ∨ [s, t] <:+: new := by
  constructor
  · rintro ⟨l', ⟨hl', hxl, -⟩ | ⟨rfl, -⟩, h⟩
    · refine Or.inl ⟨fun hs => hxl ?_, l', hl', h⟩
      rwa [hC.unique _ hl' _ hl s (mem_of_pair h).1 hs]
    · exact Or.inr h
  · rintro (⟨hs, l', hl', h⟩ | h)
    · refine ⟨l', Or.inl ⟨hl', fun hxl => hs ?_, fun z hz hzl => ?_⟩, h⟩
      · rw [← hC.unique _ hl' _ hl x hxl hx]
        exact (mem_of_pair h).1
      · rcases hnew z hz with hin | hfresh
        · refine hs ?_
          rw [← hC.unique _ hl' _ hl z hzl hin]
          exact (mem_of_pair h).1
        · exact hfresh _ hl' hzl
    · refine ⟨new, Or.inr ⟨rfl, ?_⟩, h⟩
      rintro rfl
      simp at h

/-- A list of one node. -/
theorem next_single (hy : Fresh C y) : Next (rewrite C y [y]) s t ↔ Next C s t := by
  constructor
  · rintro ⟨l, ⟨hl, -, -⟩ | ⟨rfl, -⟩, h⟩
    · exact ⟨l, hl, h⟩
    · rw [pair_cons] at h
      simp at h
  · rintro ⟨l, hl, h⟩
    exact ⟨l, Or.inl ⟨hl, hy l hl, fun z hz => List.mem_singleton.mp hz ▸ hy l hl⟩, h⟩

/-! ### Paths -/

section Paths

variable {R R' : ν → ν → Prop}

/-- One more edge, to a node that had none. -/
theorem transGen_edge (hR : ∀ s t, R' s t ↔ R s t ∨ s = x ∧ t = y) (hxy : x ≠ y)
    (hout : ∀ t, ¬ R y t) :
    TransGen R' s t ↔ TransGen R s t ∨ t = y ∧ (s = x ∨ TransGen R s x) := by
  constructor
  · intro h
    induction h with
    | single h =>
      rcases (hR _ _).mp h with h | ⟨rfl, rfl⟩
      · exact Or.inl (.single h)
      · exact Or.inr ⟨rfl, Or.inl rfl⟩
    | tail _ h ih =>
      rcases (hR _ _).mp h with h | ⟨rfl, rfl⟩
      · rcases ih with ih | ⟨rfl, -⟩
        · exact Or.inl (.tail ih h)
        · exact absurd h (hout _)
      · rcases ih with ih | ⟨heq, -⟩
        · exact Or.inr ⟨rfl, Or.inr ih⟩
        · exact absurd heq hxy
  · have hmono : ∀ {s t}, TransGen R s t → TransGen R' s t := fun h =>
      TransGen.mono (fun s t h => (hR s t).mpr (Or.inl h)) _ _ h
    have hedge : R' x y := (hR x y).mpr (Or.inr ⟨rfl, rfl⟩)
    rintro (h | ⟨rfl, rfl | h⟩)
    · exact hmono h
    · exact .single hedge
    · exact .tail (hmono h) hedge

/-- The end `x` of edges is renamed to `y`. -/
theorem transGen_rename (hR : ∀ s t, R' s t ↔ (t = y ∧ R s x) ∨ (t ≠ y ∧ t ≠ x ∧ R s t))
    (hx : ∀ t, ¬ R x t) (hy : ∀ t, ¬ R y t) :
    TransGen R' s t ↔ (t = y ∧ TransGen R s x) ∨ (t ≠ y ∧ t ≠ x ∧ TransGen R s t) := by
  constructor
  · intro h
    -- On the way no edge leaves `y`, so only the last edge can be a renamed one.
    induction h with
    | single h =>
      rcases (hR _ _).mp h with ⟨rfl, h⟩ | ⟨hty, htx, h⟩
      · exact Or.inl ⟨rfl, .single h⟩
      · exact Or.inr ⟨hty, htx, .single h⟩
    | @tail u t _ h ih =>
      have hu : TransGen R s u := by
        rcases ih with ⟨rfl, -⟩ | ⟨-, -, ih⟩
        · rcases (hR _ _).mp h with ⟨-, h⟩ | ⟨-, -, h⟩
          · exact absurd h (hy _)
          · exact absurd h (hy _)
        · exact ih
      rcases (hR _ _).mp h with ⟨rfl, h⟩ | ⟨hty, htx, h⟩
      · exact Or.inl ⟨rfl, .tail hu h⟩
      · exact Or.inr ⟨hty, htx, .tail hu h⟩
  · -- Neither `x` nor `y` is in the middle of a path.
    have hpath : ∀ {u}, TransGen R s u → u ≠ x → u ≠ y → TransGen R' s u := by
      intro u h
      induction h with
      | single h => exact fun hux huy => .single ((hR _ _).mpr (Or.inr ⟨huy, hux, h⟩))
      | @tail v u _ h ih =>
        intro hux huy
        have hvx : v ≠ x := fun heq => hx _ (heq ▸ h)
        have hvy : v ≠ y := fun heq => hy _ (heq ▸ h)
        exact .tail (ih hvx hvy) ((hR _ _).mpr (Or.inr ⟨huy, hux, h⟩))
    rintro (⟨rfl, h⟩ | ⟨hty, htx, h⟩)
    · cases h with
      | single h => exact .single ((hR _ _).mpr (Or.inl ⟨rfl, h⟩))
      | @tail v _ hv h =>
        have hvx : v ≠ x := fun heq => hx _ (heq ▸ h)
        have hvy : v ≠ t := fun heq => hy _ (heq ▸ h)
        exact .tail (hpath hv hvx hvy) ((hR _ _).mpr (Or.inl ⟨rfl, h⟩))
    · exact hpath h htx hty

/-- The edges of `D` are left out. They lead to nodes of `G`, and so do no others. -/
theorem transGen_cut {D G : ν → Prop} (hR : ∀ s t, R' s t ↔ R s t ∧ ¬ D s)
    (hD : ∀ s t, R s t → D s → G t) (hG : ∀ s t, R s t → G s → D s) (ht : ¬ G t) :
    TransGen R' s t ↔ TransGen R s t := by
  constructor
  · exact fun h => TransGen.mono (fun s t h => ((hR s t).mp h).1) _ _ h
  · intro h
    induction h with
    | single h => exact .single ((hR _ _).mpr ⟨h, fun hs => ht (hD _ _ h hs)⟩)
    | @tail u t _ h ih =>
      have hu : ¬ D u := fun hu => ht (hD _ _ h hu)
      exact .tail (ih fun hgone => hu (hG _ _ h hgone)) ((hR _ _).mpr ⟨h, hu⟩)

end Paths

end Chains

end Lib

import Caprese.Lib.Links
import Mathlib.Data.List.Basic
import Mathlib.Data.Set.Basic

/-!
# `Caprese.Lib.Chains`: families of disjoint lists

A `Set (List ν)` that is `Chains.Valid` is a family of nonempty lists without repetition, no
two of which share a node. The lists of a doubly linked structure are one. All changes of
such a family are one operation: `rewrite C x new` takes out the list of `x`, and every list
that shares a node with `new`, and puts `new` in their place.
-/

set_option autoImplicit false

namespace Lib

namespace Chains

variable {ν : Type} {C : Set (List ν)} {x y z : ν} {a b l l' new : List ν}

/-- Disjoint nonempty lists without repetition. -/
structure Valid (C : Set (List ν)) : Prop where
  ne_nil : ∀ l ∈ C, l ≠ []
  nodup : ∀ l ∈ C, l.Nodup
  unique : ∀ l ∈ C, ∀ l' ∈ C, ∀ z, z ∈ l → z ∈ l' → l = l'

/-- `x` is on no list. -/
def Fresh (C : Set (List ν)) (x : ν) : Prop := ∀ l ∈ C, x ∉ l

/-- Puts `new` in the place of the list of `x`. -/
def rewrite (C : Set (List ν)) (x : ν) (new : List ν) : Set (List ν) :=
  {l | (l ∈ C ∧ x ∉ l ∧ ∀ z ∈ new, z ∉ l) ∨ (l = new ∧ new ≠ [])}

theorem mem_rewrite :
    l ∈ rewrite C x new ↔ (l ∈ C ∧ x ∉ l ∧ ∀ z ∈ new, z ∉ l) ∨ (l = new ∧ new ≠ []) := Iff.rfl

theorem new_mem_rewrite (h : new ≠ []) : new ∈ rewrite C x new := Or.inr ⟨rfl, h⟩

theorem Valid.rewrite (h : Valid C) (hnew : new.Nodup) : Valid (rewrite C x new) where
  ne_nil l hl := by
    rcases hl with ⟨hl, -, -⟩ | ⟨rfl, hl⟩
    · exact h.ne_nil l hl
    · exact hl
  nodup l hl := by
    rcases hl with ⟨hl, -, -⟩ | ⟨rfl, -⟩
    · exact h.nodup l hl
    · exact hnew
  unique l hl l' hl' z hz hz' := by
    rcases hl with ⟨hl, -, hn⟩ | ⟨rfl, -⟩
    · rcases hl' with ⟨hl', -, -⟩ | ⟨rfl, -⟩
      · exact h.unique l hl l' hl' z hz hz'
      · exact absurd hz (hn z hz')
    · rcases hl' with ⟨-, -, hn⟩ | ⟨rfl, -⟩
      · exact absurd hz' (hn z hz)
      · rfl

/-- The first of two rewrites leaves no trace if its list goes into the second one. -/
theorem rewrite_rewrite {new' : List ν} (hy : y = x ∨ y ∈ new')
    (hnew : ∀ z ∈ new, z = x ∨ z ∈ new') :
    rewrite (rewrite C y new) x new' = rewrite C x new' := by
  ext l
  rw [mem_rewrite, mem_rewrite, mem_rewrite]
  constructor
  · rintro (⟨⟨hl, -, -⟩ | ⟨rfl, hne⟩, hx, hn⟩ | h)
    · exact Or.inl ⟨hl, hx, hn⟩
    · obtain ⟨z, hz⟩ := List.exists_mem_of_ne_nil _ hne
      rcases hnew z hz with rfl | hz'
      · exact absurd hz hx
      · exact absurd hz (hn z hz')
    · exact Or.inr h
  · rintro (⟨hl, hx, hn⟩ | h)
    · refine Or.inl ⟨Or.inl ⟨hl, ?_, ?_⟩, hx, hn⟩
      · rcases hy with rfl | hy
        · exact hx
        · exact hn y hy
      · intro z hz
        rcases hnew z hz with rfl | hz'
        · exact hx
        · exact hn z hz'
    · exact Or.inr h

/-- Nothing is taken out for a node that is on no list. -/
theorem rewrite_nil (h : Fresh C x) : rewrite C x [] = C := by
  ext l
  rw [mem_rewrite]
  constructor
  · rintro (⟨hl, -, -⟩ | ⟨-, hne⟩)
    · exact hl
    · exact absurd rfl hne
  · intro hl
    exact Or.inl ⟨hl, h l hl, by simp⟩

/-- A list is exchanged for one of some of its nodes. -/
theorem Valid.mem_rewrite_of_subset (h : Valid C) (hl' : l' ∈ C) (hx : x ∈ l')
    (hnew : ∀ z ∈ new, z ∈ l') :
    l ∈ Chains.rewrite C x new ↔ (l ∈ C ∧ l ≠ l') ∨ (l = new ∧ new ≠ []) := by
  rw [mem_rewrite]
  have hiff : l ∈ C ∧ x ∉ l ∧ (∀ z ∈ new, z ∉ l) ↔ l ∈ C ∧ l ≠ l' := by
    constructor
    · rintro ⟨hl, hxl, -⟩
      exact ⟨hl, fun heq => hxl (heq ▸ hx)⟩
    · rintro ⟨hl, hne⟩
      refine ⟨hl, fun hxl => hne (h.unique _ hl _ hl' x hxl hx), fun z hz hzl => ?_⟩
      exact hne (h.unique _ hl _ hl' z hzl (hnew z hz))
  rw [hiff]

/-- The neighbours of a node are determined by the family. -/
theorem Valid.split_unique {a' b' : List ν} (h : Valid C) (hl : a ++ x :: b ∈ C)
    (hl' : a' ++ x :: b' ∈ C) : a = a' ∧ b = b' := by
  have heq := h.unique _ hl _ hl' x (by simp) (by simp)
  have hxa : ∀ {a b : List ν}, a ++ x :: b ∈ C → x ∉ a := fun hl hx =>
    (List.nodup_append.mp (h.nodup _ hl)).2.2 x hx x (by simp) rfl
  have hxb : ∀ {a b : List ν}, a ++ x :: b ∈ C → x ∉ b := fun hl =>
    (List.nodup_cons.mp (List.nodup_append.mp (h.nodup _ hl)).2.1).1
  obtain ⟨ha, -, hb⟩ :=
    (List.append_cons_inj_of_notMem (hxa hl) (hxb hl)).mp heq
  exact ⟨ha, hb⟩

end Chains

end Lib

import Caprese.Lib.Steps
import Mathlib.Data.List.Nodup
import Mathlib.Data.List.Basic

/-!
# `Caprese.Lib.Fifo`: lists that are joined at their end

`Fifo l l'` says that `l'` comes from `l` as a queue changes: elements leave in any place, and new
ones join at the end. `Ahead x l a` says that the elements in front of `x` in `l` are `a`. Whoever
stays in the queue only ever has fewer elements in front, and one less whenever the first element
departs (`Fifo.ahead`, `Fifo.departs`, and for runs `Steps.ahead`).
-/

set_option autoImplicit false

namespace Lib

variable {α : Type} [DecidableEq α] {l l' : List α} {x : α} {a : List α}

/-- Elements of `l` leave, and others join at the end. -/
def Fifo (l l' : List α) : Prop :=
  ∃ kept new, l' = kept ++ new ∧ kept.Sublist l ∧ ∀ x ∈ new, x ∉ l

/-- The elements in front of `x`. -/
def Ahead (x : α) (l a : List α) : Prop := ∃ b, l = a ++ x :: b

namespace Fifo

omit [DecidableEq α] in
theorem refl (l : List α) : Fifo l l := ⟨l, [], by simp, .refl l, by simp⟩

omit [DecidableEq α] in
theorem push (h : Fifo l l') (hx : x ∉ l) : Fifo l (l' ++ [x]) := by
  obtain ⟨kept, new, rfl, hkept, hnew⟩ := h
  refine ⟨kept, new ++ [x], by simp, hkept, fun y hy => ?_⟩
  rcases List.mem_append.mp hy with hy | hy
  · exact hnew y hy
  · rwa [List.mem_singleton.mp hy]

theorem erase (h : Fifo l l') (x : α) : Fifo l (l'.erase x) := by
  obtain ⟨kept, new, rfl, hkept, hnew⟩ := h
  by_cases hx : x ∈ kept
  · exact ⟨kept.erase x, new, List.erase_append_left new hx,
      (List.erase_sublist).trans hkept, hnew⟩
  · exact ⟨kept, new.erase x, List.erase_append_right new hx, hkept,
      fun y hy => hnew y (List.mem_of_mem_erase hy)⟩

omit [DecidableEq α] in
/-- Who stays only has fewer elements in front. -/
theorem ahead (h : Fifo l l') (hl : l.Nodup) (hx : Ahead x l a) (hmem : x ∈ l') :
    ∃ a', Ahead x l' a' ∧ a'.Sublist a := by
  obtain ⟨b, rfl⟩ := hx
  obtain ⟨kept, new, rfl, hkept, hnew⟩ := h
  have hxkept : x ∈ kept :=
    (List.mem_append.mp hmem).resolve_right fun hin => hnew x hin (by simp)
  obtain ⟨hxa, hxb⟩ : x ∉ a ∧ x ∉ b := by
    have hnodup := List.nodup_middle.mp hl
    have hnot := (List.nodup_cons.mp hnodup).1
    exact ⟨fun hin => hnot (List.mem_append_left b hin),
      fun hin => hnot (List.mem_append_right a hin)⟩
  obtain ⟨front, rest, rfl, hfront, hrest⟩ := List.sublist_append_iff.mp hkept
  have hxrest : x ∈ rest :=
    (List.mem_append.mp hxkept).resolve_left fun hin => hxa (hfront.subset hin)
  rcases List.sublist_cons_iff.mp hrest with hrest | ⟨rest', rfl, -⟩
  · exact absurd (hrest.subset hxrest) hxb
  · exact ⟨front, ⟨rest' ++ new, by simp⟩, hfront⟩

end Fifo

/-- The first element of `l` is gone. -/
def Departs (l l' : List α) : Prop := ∃ y, l.head? = some y ∧ y ∉ l'

omit [DecidableEq α]

/-- With the first element, one of those in front of `x` is gone. -/
theorem Fifo.departs (h : Fifo l l') (hl : l.Nodup) (hx : Ahead x l a) (hmem : x ∈ l')
    (hd : Departs l l') : ∃ a', Ahead x l' a' ∧ a'.Sublist a ∧ a'.length < a.length := by
  obtain ⟨a', hx', hsub⟩ := h.ahead hl hx hmem
  refine ⟨a', hx', hsub, Nat.lt_of_le_of_ne hsub.length_le fun hlength => ?_⟩
  obtain rfl : a' = a := hsub.eq_of_length hlength
  obtain ⟨y, hhead, hy⟩ := hd
  obtain ⟨b, rfl⟩ := hx
  obtain ⟨b', rfl⟩ := hx'
  cases a' with
  | nil =>
    obtain rfl : x = y := Option.some.inj hhead
    exact hy hmem
  | cons z a' =>
    obtain rfl : z = y := Option.some.inj hhead
    exact hy (by simp)

/-- The run rule: of those in front of an element that stays, each departure of the first takes one
away, and nobody comes in between. The label tells the steps in which the first element departs. -/
theorem Steps.ahead {σ : Type} {T : σ → Bool → σ → Prop} {Q : σ → List α → Prop} {s s' : σ}
    {labels : List Bool} (hnodup : ∀ s l, Q s l → l.Nodup)
    (hstep : ∀ s departs s' l, Q s l → T s departs s' →
      ∃ l', Q s' l' ∧ Fifo l l' ∧ x ∈ l' ∧ (departs = true → Departs l l'))
    (h : Steps T s labels s') (hs : Q s l) (hx : Ahead x l a) :
    ∃ l' a', Q s' l' ∧ Ahead x l' a' ∧ a'.Sublist a ∧
      a'.length + labels.count true ≤ a.length := by
  induction h with
  | nil => exact ⟨l, a, hs, hx, .refl a, by simp⟩
  | @snoc labels departs s₁ s₂ _ ht ih =>
    obtain ⟨l₁, a₁, hs₁, hx₁, hsub₁, hcount₁⟩ := ih
    obtain ⟨l₂, hs₂, hfifo, hmem, hdeparts⟩ := hstep _ _ _ _ hs₁ ht
    rw [List.count_append]
    cases departs with
    | false =>
      obtain ⟨a₂, hx₂, hsub₂⟩ := hfifo.ahead (hnodup _ _ hs₁) hx₁ hmem
      have hlength := hsub₂.length_le
      exact ⟨l₂, a₂, hs₂, hx₂, hsub₂.trans hsub₁, by simp; omega⟩
    | true =>
      obtain ⟨a₂, hx₂, hsub₂, hlength⟩ :=
        hfifo.departs (hnodup _ _ hs₁) hx₁ hmem (hdeparts rfl)
      exact ⟨l₂, a₂, hs₂, hx₂, hsub₂.trans hsub₁, by simp; omega⟩

end Lib

import Mathlib.Data.List.Pairwise
import Mathlib.Data.List.Flatten

/-!
# `Caprese.Lib.Spans`: sets of numbers cut into spans

`Cuts l P`: the spans of `l` lie apart, and together they make up the set `P`. Cuts of sets that
have nothing in common go together to a cut of their union (`Cuts.append`), and a list of cuts lies
apart as a whole if, and only if, the sets do (`pairwise_flatMap_iff`).
-/

set_option autoImplicit false

namespace Lib

/-- The numbers from `start` up to `stop`. -/
structure Span where
  start : Nat
  stop : Nat
deriving DecidableEq, Repr

namespace Span

variable {s s' : Span} {p : Nat}

instance : Membership Nat Span := ⟨fun s p => s.start ≤ p ∧ p < s.stop⟩

theorem mem_iff : p ∈ s ↔ s.start ≤ p ∧ p < s.stop := Iff.rfl

instance : Decidable (p ∈ s) := inferInstanceAs (Decidable (s.start ≤ p ∧ p < s.stop))

/-- The spans have no number in common. -/
def Apart (s s' : Span) : Prop := ∀ p ∈ s, p ∉ s'

theorem apart_iff : s.Apart s' ↔
    s.stop ≤ s.start ∨ s'.stop ≤ s'.start ∨ s.stop ≤ s'.start ∨ s'.stop ≤ s.start := by
  constructor
  · intro h
    have hmax := h (max s.start s'.start)
    rw [mem_iff, mem_iff] at hmax
    omega
  · intro h p hp hp'
    rw [mem_iff] at hp hp'
    omega

instance : Decidable (s.Apart s') := decidable_of_iff _ apart_iff.symm

theorem start_mem (h : s.start < s.stop) : s.start ∈ s := ⟨Nat.le_refl _, h⟩

end Span

/-- The spans lie apart, and make up the set. -/
structure Cuts (l : List Span) (P : Nat → Prop) : Prop where
  apart : l.Pairwise Span.Apart
  exact : ∀ p, P p ↔ ∃ s ∈ l, p ∈ s

namespace Cuts

variable {l l' : List Span} {P P' : Nat → Prop} {s : Span} {p : Nat}

theorem nil (h : ∀ p, ¬ P p) : Cuts [] P := by
  refine ⟨List.Pairwise.nil, fun p => ⟨fun hp => absurd hp (h p), ?_⟩⟩
  rintro ⟨s, hs, -⟩
  exact nomatch hs

theorem congr (h : Cuts l P) (hP : ∀ p, P' p ↔ P p) : Cuts l P' :=
  ⟨h.apart, fun p => (hP p).trans (h.exact p)⟩

theorem sound (h : Cuts l P) (hs : s ∈ l) (hp : p ∈ s) : P p := (h.exact p).mpr ⟨s, hs, hp⟩

theorem append (h : Cuts l P) (h' : Cuts l' P') (hdisjoint : ∀ p, P p → ¬ P' p) :
    Cuts (l ++ l') fun p => P p ∨ P' p := by
  refine ⟨List.pairwise_append.mpr ⟨h.apart, h'.apart, fun s hs s' hs' p hp hp' => ?_⟩, fun p => ?_⟩
  · exact hdisjoint p (h.sound hs hp) (h'.sound hs' hp')
  · rw [h.exact, h'.exact]
    constructor
    · rintro (⟨s, hs, hp⟩ | ⟨s, hs, hp⟩)
      · exact ⟨s, List.mem_append_left _ hs, hp⟩
      · exact ⟨s, List.mem_append_right _ hs, hp⟩
    · rintro ⟨s, hs, hp⟩
      rcases List.mem_append.mp hs with hs | hs
      · exact Or.inl ⟨s, hs, hp⟩
      · exact Or.inr ⟨s, hs, hp⟩

/-- A span in front of a cut of the rest. -/
theorem cons {rest : Span} (h : Cuts l fun p => p ∈ rest) (hstart : s.start ≤ s.stop)
    (hstop : s.stop = rest.start) (hrest : rest.start ≤ rest.stop) :
    Cuts (s :: l) fun p => p ∈ (⟨s.start, rest.stop⟩ : Span) := by
  refine ⟨List.pairwise_cons.mpr ⟨fun s' hs' p hp hp' => ?_, h.apart⟩, fun p => ?_⟩
  · have hin := h.sound hs' hp'
    rw [Span.mem_iff] at hp hin
    omega
  · have hcons : (∃ s' ∈ s :: l, p ∈ s') ↔ p ∈ s ∨ p ∈ rest := by
      rw [h.exact p]
      simp only [List.mem_cons, exists_eq_or_imp]
    rw [hcons, Span.mem_iff, Span.mem_iff, Span.mem_iff]
    dsimp only
    omega

end Cuts

/-- The spans of two cuts lie apart if the sets do. -/
theorem Cuts.apart_iff {l l' : List Span} {P P' : Nat → Prop} (h : Cuts l P) (h' : Cuts l' P') :
    (∀ s ∈ l, ∀ s' ∈ l', s.Apart s') ↔ ∀ p, P p → ¬ P' p := by
  constructor
  · intro hapart p hp hp'
    obtain ⟨s, hs, hps⟩ := (h.exact p).mp hp
    obtain ⟨s', hs', hps'⟩ := (h'.exact p).mp hp'
    exact hapart s hs s' hs' p hps hps'
  · exact fun hdisjoint s hs s' hs' p hp hp' => hdisjoint p (h.sound hs hp) (h'.sound hs' hp')

/-- Many cuts lie apart together if what they make up does. -/
theorem pairwise_flatMap_iff {α : Type} {xs : List α} {cut : α → List Span} {P : α → Nat → Prop}
    (h : ∀ x ∈ xs, Cuts (cut x) (P x)) :
    (xs.flatMap cut).Pairwise Span.Apart ↔ xs.Pairwise fun x y => ∀ p, P x p → ¬ P y p := by
  rw [List.pairwise_flatMap]
  constructor
  · rintro ⟨-, hcross⟩
    exact hcross.imp_of_mem fun hx hy hxy => ((h _ hx).apart_iff (h _ hy)).mp hxy
  · intro hpairwise
    refine ⟨fun x hx => (h x hx).apart, ?_⟩
    exact hpairwise.imp_of_mem fun hx hy hxy => ((h _ hx).apart_iff (h _ hy)).mpr hxy

end Lib

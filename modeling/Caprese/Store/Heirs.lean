import Caprese.Lib.Successor
import Caprese.Store.Lending

/-!
# `Caprese.Store.Heirs`: who has what a zombie delegated

A delegation makes the new slot the heir of the old one, and of all whose heir the old one was.
A transfer hands this on to the new slot. Copies inherit nothing. `Act.passOn` keeps this
record beside the moves of the machine, by their names only.

On the lists the heirs of a zombie are the zombies behind it and the holder behind these
(`Inherits`). Each move keeps this (`Trans.inherits`).
-/

set_option autoImplicit false

namespace Caprese

open Lib Prog Chains Relation

variable {S S' : CapStore} {act : Act} {x y z s t e : SlotPtr} {a b l m new : List SlotPtr}
  {c c' : Capability} {heir : SlotPtr → SlotPtr → Prop}

/-- The zombie `s` leads to `t`, the next slot on its list. -/
def CapStore.Passes (S : CapStore) (s t : SlotPtr) : Prop := S.cap s = .zombie ∧ Next S.chains s t

/-- The record of who has what from whom, after the slot `y` was filled. It has it from those in
`source`, and nothing of what it was before. -/
def bequeath (heir : SlotPtr → SlotPtr → Prop) (y : SlotPtr) (source : SlotPtr → Prop) :
    SlotPtr → SlotPtr → Prop :=
  fun z w => z ≠ y ∧ if w = y then source z else heir z w

/-- The record after a move. -/
def Act.passOn (heir : SlotPtr → SlotPtr → Prop) : Act → SlotPtr → SlotPtr → Prop
  | .delegate x y => bequeath heir y fun z => z = x ∨ heir z x
  | .move x y => bequeath heir y fun z => heir z x
  | .create _ y | .copy _ y | .newRoot y => bequeath heir y fun _ => False
  | _ => heir

/-- The record agrees with the lists: the heirs of a zombie that are in use are those that it leads
to, and no others have heirs in use. -/
def CapStore.Inherits (S : CapStore) (heir : SlotPtr → SlotPtr → Prop) : Prop :=
  ∀ z w, S.cap w ≠ .null → (heir z w ↔ TransGen S.Passes z w)

/-! ### Who leads to whom -/

theorem CapStore.Passes.not_null (h : S.Passes s t) (hS : StoreOk S) :
    S.cap s ≠ .null ∧ S.cap t ≠ .null := by
  obtain ⟨-, l, hl, hpair⟩ := h
  exact ⟨hS.not_null hl (mem_of_pair hpair).1, hS.not_null hl (mem_of_pair hpair).2⟩

theorem passes_iff (hS : StoreOk S) (hl : l ∈ S.chains) :
    S.Passes s t ↔ (s ∉ l ∧ S.Passes s t) ∨ (S.cap s = .zombie ∧ [s, t] <:+: l) := by
  unfold CapStore.Passes
  rw [next_iff hS.valid hl]
  tauto

/-- Who leads to whom after the list `l` was exchanged for `new`. -/
theorem passes_rewrite (hS : StoreOk S) (hl : l ∈ S.chains) (hx : x ∈ l)
    (hchains : S'.chains = rewrite S.chains x new)
    (hnew : ∀ z ∈ new, z ∈ l ∨ S.cap z = .null)
    (hcap : ∀ s, s ∉ l → S.cap s ≠ .null → S'.cap s = S.cap s) :
    S'.Passes s t ↔ (s ∉ l ∧ S.Passes s t) ∨ (S'.cap s = .zombie ∧ [s, t] <:+: new) := by
  unfold CapStore.Passes
  rw [hchains, next_rewrite hS.valid hl hx fun z hz => (hnew z hz).imp id hS.fresh]
  constructor
  · rintro ⟨hs, ⟨hsl, hnext⟩ | hpair⟩
    · obtain ⟨l', hl', hpair⟩ := hnext
      rw [hcap s hsl (hS.not_null hl' (mem_of_pair hpair).1)] at hs
      exact Or.inl ⟨hsl, hs, l', hl', hpair⟩
    · exact Or.inr ⟨hs, hpair⟩
  · rintro (⟨hsl, hs, hnext⟩ | ⟨hs, hpair⟩)
    · refine ⟨?_, Or.inl ⟨hsl, hnext⟩⟩
      rw [hcap s hsl (by simp [hs])]
      exact hs
    · exact ⟨hs, Or.inr hpair⟩

/-- A slot that is filled behind `x` comes behind `x` only if `x` becomes a zombie. -/
theorem passes_derive (hS : StoreOk S) (hx : S.cap x ≠ .zombie) (hy : S.cap y = .null)
    (hl : a ++ x :: b ∈ S.chains) (hc : c ≠ .zombie) :
    (S.derive x y a b c c').Passes s t ↔ S.Passes s t ∨ (c' = .zombie ∧ s = x ∧ t = y) := by
  have hyl : y ∉ a ++ x :: b := hS.fresh hy _ hl
  have hnd := hS.nodup hl
  have hcap : ∀ s, s ≠ x → s ≠ y → (S.derive x y a b c c').cap s = S.cap s := fun s hsx hsy => by
    show upd (upd S.cap y c) x c' s = _
    rw [upd_ne _ _ hsx, upd_ne _ _ hsy]
  have hchains : (S.derive x y a b c c').chains = rewrite S.chains x (a ++ x :: y :: b) := rfl
  rw [passes_rewrite hS hl (by simp) hchains (fun z hz => ?_) fun s hsl hs =>
      hcap s (fun heq => hsl (by simp [heq])) fun heq => hs (heq ▸ hy),
    passes_iff hS hl]
  -- The new pair is `x` and `y`. Seen from `y` and from all others nothing is new.
  · by_cases hsx : s = x
    · subst hsx
      have hsy : s ≠ y := fun heq => hyl (by simp [heq])
      have hcapx : (S.derive s y a b c c').cap s = c' := upd_same _ _ _
      have hpair : [s, t] <:+: a ++ s :: y :: b ↔ t = y :=
        pair_here hnd.1 (by simp [hnd.2.1, hsy]) |>.trans (by simp [eq_comm])
      rw [hcapx, hpair]
      simp [hx]
    · by_cases hsy : s = y
      · subst hsy
        have hcapy : (S.derive x s a b c c').cap s = c := by
          show upd (upd S.cap s c) x c' s = _
          rw [upd_ne _ _ hsx, upd_same]
        have hpass : ¬ S.Passes s t := fun h => (h.not_null hS).1 hy
        simp [hcapy, hc, hpass, hy, hsx]
      · rw [hcap s hsx hsy]
        have hpair : [s, t] <:+: a ++ x :: y :: b ↔ [s, t] <:+: a ++ x :: b := by
          simp only [pair_append, pair_cons, List.head?_cons, Ne.symm hsx, Ne.symm hsy, false_and,
            false_or]
        rw [hpair]
        simp only [hsx, false_and, and_false, or_false]
        tauto
  · simp only [List.mem_append, List.mem_cons] at hz ⊢
    rcases hz with hz | rfl | rfl | hz
    · exact Or.inl (Or.inl hz)
    · exact Or.inl (Or.inr (Or.inl rfl))
    · exact Or.inr hy
    · exact Or.inl (Or.inr (Or.inr hz))

/-- A slot that takes the place of `x` comes behind what `x` came behind. -/
theorem passes_move (hS : StoreOk S) (hx : (S.cap x).Names) (hy : S.cap y = .null)
    (hl : a ++ x :: b ∈ S.chains) (hcap : S'.cap = upd (upd S.cap y (S.cap x)) x .null)
    (hchains : S'.chains = rewrite S.chains x (a ++ y :: b)) :
    S'.Passes s t ↔ (t = y ∧ S.Passes s x) ∨ (t ≠ y ∧ t ≠ x ∧ S.Passes s t) := by
  have hyl : y ∉ a ++ x :: b := hS.fresh hy _ hl
  have hnd := hS.nodup hl
  have hother : ∀ s, s ≠ x → s ≠ y → S'.cap s = S.cap s := fun s hsx hsy => by
    rw [hcap, upd_ne _ _ hsx, upd_ne _ _ hsy]
  rw [passes_rewrite hS hl (by simp) hchains (fun z hz => ?_)
    fun s hsl hs => hother s (fun heq => hsl (by simp [heq])) fun heq => hs (heq ▸ hy)]
  -- A free slot is nobody's successor.
  · have hty : S.Passes s t → t ≠ y := fun h heq => (h.not_null hS).2 (heq ▸ hy)
    by_cases hsx : s = x
    · subst hsx
      have hnull : S'.cap s = .null := by rw [hcap, upd_same]
      have hpass : ∀ t, ¬ S.Passes s t := fun t h => hx.2 h.1
      simp [hnull, hpass]
    · by_cases hsy : s = y
      · subst hsy
        have hcapy : S'.cap s = S.cap x := by rw [hcap, upd_ne _ _ hsx, upd_same]
        have hpass : ∀ t, ¬ S.Passes s t := fun t h => (h.not_null hS).1 hy
        simp [hcapy, hpass, hx.2]
      -- Off `x` and `y` a pair is in front of them, behind them, or ends at `x`.
      · have hmem : ∀ {l}, [s, t] <:+: l → (∀ w ∈ l, w ≠ y ∧ w ≠ x) → t ≠ y ∧ t ≠ x :=
          fun h hl => hl t (mem_of_pair h).2
        have hain : ∀ w ∈ a, w ≠ y ∧ w ≠ x := fun w hw =>
          ⟨fun heq => hyl (by simp [← heq, hw]), fun heq => hnd.1 (heq ▸ hw)⟩
        have hbin : ∀ w ∈ b, w ≠ y ∧ w ≠ x := fun w hw =>
          ⟨fun heq => hyl (by simp [← heq, hw]), fun heq => hnd.2.1 (heq ▸ hw)⟩
        have hpa : [s, t] <:+: a → t ≠ y ∧ t ≠ x := fun h => hmem h hain
        have hpb : [s, t] <:+: b → t ≠ y ∧ t ≠ x := fun h => hmem h hbin
        have hxa : ¬ [s, x] <:+: a := fun h => hnd.1 (mem_of_pair h).2
        have hxb : ¬ [s, x] <:+: b := fun h => hnd.2.1 (mem_of_pair h).2
        have htx : s ∉ a ++ x :: b → S.Passes s t → t ≠ x := by
          rintro hsl ⟨-, l', hl', hpair⟩ rfl
          have heq := hS.valid.unique _ hl' _ hl t (mem_of_pair hpair).2 (by simp)
          exact hsl (heq ▸ (mem_of_pair hpair).1)
        have hsx' : s ∉ a ++ x :: b → ¬ S.Passes s x := by
          rintro hsl ⟨-, l', hl', hpair⟩
          have heq := hS.valid.unique _ hl' _ hl x (mem_of_pair hpair).2 (by simp)
          exact hsl (heq ▸ (mem_of_pair hpair).1)
        rw [hother s hsx hsy, passes_iff (t := x) hS hl, passes_iff (t := t) hS hl,
          pair_around (x := y) hsy, pair_around (x := x) hsx, pair_around (x := x) hsx]
        have hyt : y = t ↔ t = y := eq_comm
        have hxt : x = t ↔ t = x := eq_comm
        rw [hyt, hxt]
        -- On the list `y` takes the place of `x` in the pairs, on another list nothing changes.
        by_cases hsl : s ∈ a ++ x :: b
        · simp only [hsl, not_true_eq_false, false_and, false_or, hxa, hxb, or_false, and_true]
          constructor
          · rintro ⟨hs, h | ⟨hlast, rfl⟩ | h⟩
            · exact Or.inr ⟨(hpa h).1, (hpa h).2, hs, Or.inl h⟩
            · exact Or.inl ⟨rfl, hs, hlast⟩
            · exact Or.inr ⟨(hpb h).1, (hpb h).2, hs, Or.inr (Or.inr h)⟩
          · rintro (⟨heq, hs, hlast⟩ | ⟨-, hne, hs, h | ⟨-, heq⟩ | h⟩)
            · exact ⟨hs, Or.inr (Or.inl ⟨hlast, heq⟩)⟩
            · exact ⟨hs, Or.inl h⟩
            · exact absurd heq hne
            · exact ⟨hs, Or.inr (Or.inr h)⟩
        · have hnota : ¬ [s, t] <:+: a := fun h => hsl (by simp [(mem_of_pair h).1])
          have hnotb : ¬ [s, t] <:+: b := fun h => hsl (by simp [(mem_of_pair h).1])
          have hlast : a.getLast? ≠ some s := fun h => hsl (by simp [List.mem_of_getLast? h])
          simp only [hsl, not_false_eq_true, true_and, hsx' hsl, false_or, hxa, hxb, or_false,
            hnota, hnotb, hlast, false_and, and_false]
          exact ⟨fun h => ⟨hty h, htx hsl h, h⟩, fun h => h.2.2⟩
  · simp only [List.mem_append, List.mem_cons] at hz ⊢
    rcases hz with hz | rfl | hz
    · exact Or.inl (Or.inl hz)
    · exact Or.inr hy
    · exact Or.inl (Or.inr (Or.inr hz))

/-- The zombies that are cleared, and the one that has its capability back, lead nowhere. -/
theorem passes_undelegate (hS : StoreOk S) (hm : ∀ s ∈ m, S'.cap s ≠ .zombie)
    (he : S.cap e ≠ .zombie ∧ S'.cap e ≠ .zombie) (hz : S'.cap z ≠ .zombie)
    (hl : a ++ z :: (m ++ e :: b) ∈ S.chains)
    (hcap : ∀ s, s ≠ z → s ∉ m → s ≠ e → S'.cap s = S.cap s)
    (hchains : S'.chains = rewrite S.chains z (a ++ z :: b)) :
    S'.Passes s t ↔ S.Passes s t ∧ ¬ (s = z ∨ s ∈ m) := by
  rw [passes_rewrite hS hl (by simp) hchains (fun w hw => Or.inl ?_) fun s hs _ => ?_,
    passes_iff hS hl]
  · by_cases hsz : s = z
    · subst hsz
      simp [hz]
    · by_cases hsm : s ∈ m
      · simp [hm s hsm, hsm]
      · by_cases hse : s = e
        · subst hse
          simp [he.1, he.2]
        · have hpair : [s, t] <:+: a ++ z :: b ↔ [s, t] <:+: a ++ z :: (m ++ e :: b) := by
            rw [pair_around hsz, pair_around hsz, pair_around hse]
            have hnotm : ¬ [s, t] <:+: m := fun h => hsm (mem_of_pair h).1
            have hlast : m.getLast? ≠ some s := fun h => hsm (List.mem_of_getLast? h)
            simp [hnotm, hlast]
          rw [hcap s hsz hsm hse, hpair]
          simp only [hsz, hsm, or_self, not_false_eq_true, and_true]
          tauto
  · simp only [List.mem_append, List.mem_cons] at hw ⊢
    tauto
  · simp only [List.mem_append, List.mem_cons, not_or] at hs
    exact hcap s hs.2.1 hs.2.2.1 hs.2.2.2.1

/-- The zombies in front of a holder lead to each other and to the holder only. -/
theorem passes_between (hS : StoreOk S) (hl : a ++ z :: (m ++ e :: b) ∈ S.chains)
    (h : S.Passes s t) (hs : s = z ∨ s ∈ m) : t ∈ m ∨ t = e := by
  obtain ⟨m₁, m₂, hsplit⟩ : ∃ m₁ m₂, z :: m = m₁ ++ s :: m₂ :=
    List.append_of_mem (by rcases hs with rfl | hs <;> simp [*])
  have hm₂ : ∀ w ∈ m₂, w ∈ m := by
    intro w hw
    cases m₁ with
    | nil =>
      obtain ⟨-, rfl⟩ := List.cons.inj hsplit
      exact hw
    | cons u m₁ =>
      obtain ⟨-, rfl⟩ := List.cons.inj hsplit
      simp [hw]
  have hlist : a ++ z :: (m ++ e :: b) = (a ++ m₁) ++ s :: (m₂ ++ e :: b) := by
    rw [← List.cons_append, hsplit]
    simp
  rw [hlist] at hl
  have hnd := hS.nodup hl
  rcases (passes_iff hS hl).mp h with ⟨hsl, -⟩ | ⟨-, hpair⟩
  · exact absurd (by simp) hsl
  · rw [pair_here hnd.1 hnd.2.1] at hpair
    cases m₂ with
    | nil => exact Or.inr (by simpa [eq_comm] using hpair)
    | cons u m₂ =>
      obtain rfl : u = t := by simpa using hpair
      exact Or.inl (hm₂ u (by simp))

/-- A slot that no zombie leads to is emptied. -/
theorem passes_clear (hS : StoreOk S) (hx : S.cap x ≠ .zombie) (hl : a ++ x :: b ∈ S.chains)
    (hp : ∀ p, a.getLast? = some p → S.cap p ≠ .zombie) (hcap : S'.cap = upd S.cap x .null)
    (hchains : S'.chains = rewrite S.chains x (a ++ b)) : S'.Passes s t ↔ S.Passes s t := by
  rw [passes_rewrite hS hl (by simp) hchains (fun w hw => Or.inl ?_) fun s hs _ => ?_,
    passes_iff hS hl]
  · by_cases hsx : s = x
    · subst hsx
      have hnull : S'.cap s = .null := by rw [hcap, upd_same]
      simp [hx, hnull]
    · have hsame : S'.cap s = S.cap s := by rw [hcap, upd_ne _ _ hsx]
      rw [hsame, pair_around hsx, pair_append]
      have hlast : S.cap s = .zombie → a.getLast? ≠ some s := fun hs h => hp s h hs
      tauto
  · simp only [List.mem_append, List.mem_cons] at hw ⊢
    tauto
  · rw [hcap, upd_ne _ _ fun heq => hs (by simp [heq])]

/-! ### Who has inherited what -/

theorem alive_of_path (hS : StoreOk S) (h : TransGen S.Passes z s) :
    S.cap z ≠ .null ∧ S.cap s ≠ .null := by
  constructor
  · cases h using TransGen.head_induction_on with
    | single h => exact (h.not_null hS).1
    | head h _ => exact (h.not_null hS).1
  · cases h with
    | single h => exact (h.not_null hS).2
    | tail _ h => exact (h.not_null hS).2

/-- A zombie leads somewhere, an empty slot and a holder do not. -/
theorem not_passes (h : S.cap s ≠ .zombie) : ¬ S.Passes s t := fun hpass => h hpass.1

namespace CapStore.Inherits

variable (h : S.Inherits heir)

include h

/-- A move after which the same zombies lead to the same slots. -/
theorem same (hpass : ∀ s t, S'.Passes s t ↔ S.Passes s t)
    (halive : ∀ s, S'.cap s ≠ .null → S.cap s ≠ .null) : S'.Inherits heir := by
  have heq : S'.Passes = S.Passes := by
    funext s t
    exact propext (hpass s t)
  intro z w hw
  rw [heq]
  exact h z w (halive w hw)

/-- The same, with a slot `y` that was free. -/
theorem fresh (hS : StoreOk S) (hpass : ∀ s t, S'.Passes s t ↔ S.Passes s t)
    (hy : S.cap y = .null) (halive : ∀ s, S'.cap s ≠ .null → s = y ∨ S.cap s ≠ .null) :
    S'.Inherits (bequeath heir y fun _ => False) := by
  have heq : S'.Passes = S.Passes := by
    funext s t
    exact propext (hpass s t)
  intro z w hw
  rw [heq]
  unfold bequeath
  by_cases hwy : w = y
  · have hnone : ¬ TransGen S.Passes z w := fun hpath => (alive_of_path hS hpath).2 (hwy ▸ hy)
    rw [if_pos hwy]
    exact iff_of_false And.right hnone
  · rw [if_neg hwy, h z w ((halive w hw).resolve_left hwy)]
    exact ⟨And.right, fun hpath => ⟨fun heq => (alive_of_path hS hpath).1 (heq ▸ hy), hpath⟩⟩

theorem delegate (hS : StoreOk S) (hx : S.cap x ≠ .zombie) (hxy : x ≠ y) (hy : S.cap y = .null)
    (hxn : S.cap x ≠ .null)
    (hpass : ∀ s t, S'.Passes s t ↔ S.Passes s t ∨ s = x ∧ t = y)
    (halive : ∀ s, S'.cap s ≠ .null → s = y ∨ S.cap s ≠ .null) :
    S'.Inherits (Act.passOn heir (.delegate x y)) := by
  have hout : ∀ t, ¬ S.Passes y t := fun t => not_passes (by simp [hy])
  intro z w hw
  rw [transGen_edge hpass hxy hout]
  show (z ≠ y ∧ if w = y then z = x ∨ heir z x else heir z w) ↔ _
  by_cases hwy : w = y
  · subst hwy
    have hnone : ¬ TransGen S.Passes z w := fun hpath => (alive_of_path hS hpath).2 hy
    rw [if_pos rfl, h z x hxn]
    constructor
    · rintro ⟨-, hin⟩
      exact Or.inr ⟨rfl, hin⟩
    · rintro (hpath | ⟨-, hin⟩)
      · exact absurd hpath hnone
      · refine ⟨fun heq => ?_, hin⟩
        rcases hin with rfl | hpath
        · exact hxy heq
        · exact (alive_of_path hS hpath).1 (heq ▸ hy)
  · rw [if_neg hwy, h z w ((halive w hw).resolve_left hwy)]
    constructor
    · exact fun hin => Or.inl hin.2
    · rintro (hpath | ⟨heq, -⟩)
      · exact ⟨fun heq => (alive_of_path hS hpath).1 (heq ▸ hy), hpath⟩
      · exact absurd heq hwy

theorem move (hS : StoreOk S) (hx : (S.cap x).Names) (hy : S.cap y = .null)
    (hpass : ∀ s t, S'.Passes s t ↔ (t = y ∧ S.Passes s x) ∨ (t ≠ y ∧ t ≠ x ∧ S.Passes s t))
    (halive : ∀ s, S'.cap s ≠ .null → s = y ∨ s ≠ x ∧ S.cap s ≠ .null) :
    S'.Inherits (Act.passOn heir (.move x y)) := by
  intro z w hw
  rw [transGen_rename hpass (fun t => not_passes hx.2) fun t => not_passes (by simp [hy])]
  show (z ≠ y ∧ if w = y then heir z x else heir z w) ↔ _
  by_cases hwy : w = y
  · rw [if_pos hwy, h z x hx.1]
    constructor
    · exact fun hin => Or.inl ⟨hwy, hin.2⟩
    · rintro (⟨-, hpath⟩ | ⟨hne, -⟩)
      · exact ⟨fun heq => (alive_of_path hS hpath).1 (heq ▸ hy), hpath⟩
      · exact absurd hwy hne
  · obtain ⟨hwx, hwn⟩ := (halive w hw).resolve_left hwy
    rw [if_neg hwy, h z w hwn]
    constructor
    · exact fun hin => Or.inr ⟨hwy, hwx, hin.2⟩
    · rintro (⟨heq, -⟩ | ⟨-, -, hpath⟩)
      · exact absurd heq hwy
      · exact ⟨fun heq => (alive_of_path hS hpath).1 (heq ▸ hy), hpath⟩

end CapStore.Inherits

/-! ### Slots in use after an update -/

section Alive

variable {f : SlotPtr → Capability}

theorem alive_fill (hs : upd f y c s ≠ .null) : s = y ∨ f s ≠ .null := by
  rw [upd_apply] at hs
  split at hs
  · exact Or.inl ‹_›
  · exact Or.inr hs

theorem alive_derive (hx : f x ≠ .null) (hs : upd (upd f y c) x c' s ≠ .null) :
    s = y ∨ f s ≠ .null := by
  rcases alive_fill hs with rfl | hs
  · exact Or.inr hx
  · exact alive_fill hs

theorem alive_clear (hs : upd f x .null s ≠ .null) : s ≠ x ∧ f s ≠ .null := by
  have hsx : s ≠ x := fun heq => hs (by rw [heq, upd_same])
  rw [upd_ne _ _ hsx] at hs
  exact ⟨hsx, hs⟩

theorem alive_move (hs : upd (upd f y c) x .null s ≠ .null) : s = y ∨ s ≠ x ∧ f s ≠ .null := by
  obtain ⟨hsx, hs⟩ := alive_clear hs
  exact (alive_fill hs).imp_right fun hs => ⟨hsx, hs⟩

/-- A change of a record empties no slot and fills none. -/
theorem Trans.record_null (ht : Trans S act S') (hrecord : act.IsRecord) :
    S'.cap s = .null ↔ S.cap s = .null := by
  rw [← Capability.bare_eq_null, (ht.records hrecord).2 s, Capability.bare_eq_null]

end Alive

/-- Each move keeps the record of who inherited what. -/
theorem Trans.inherits (ht : Trans S act S') (hS : StoreOk S) (h : S.Inherits heir) :
    S'.Inherits (act.passOn heir) := by
  -- A change of a record touches neither the lists nor which slots are zombies.
  by_cases hrecord : act.IsRecord
  · obtain ⟨hchains, hcap⟩ := ht.records hrecord
    have hsame : act.passOn heir = heir := by
      cases act <;> first | rfl | exact absurd hrecord id
    rw [hsame]
    refine h.same (fun s t => ?_) fun s hs hnull => hs ((ht.record_null hrecord).mpr hnull)
    unfold CapStore.Passes
    rw [hchains, ← Capability.bare_eq_zombie, hcap, Capability.bare_eq_zombie]
  cases ht with
  | @create x y a b m size alignment base c hx hy hl hcarve hobject =>
    have hc : c ≠ .zombie := by
      cases hobject <;> simp [makeTaskCap, makeEndpointCap, makeCapSpaceCap]
    refine h.fresh hS (fun s t => ?_) hy fun s => alive_derive (by simp [hx])
    exact (passes_derive hS (by simp [hx]) hy hl hc).trans (by simp)
  | @copy x y a b hx hy hl =>
    have hc : S.cap x ≠ .zombie := fun heq => by simp [heq, Capability.Linked] at hx
    refine h.fresh hS (fun s t => ?_) hy fun s => alive_derive (hS.not_null hl (by simp))
    exact (passes_derive hS hc hy hl hc).trans (by simp [hc])
  | @delegate x y a b hx hy hl =>
    have hxy : x ≠ y := fun heq => hx.1 (heq ▸ hy)
    refine h.delegate hS hx.2 hxy hy hx.1 (fun s t => ?_) fun s => alive_derive hx.1
    exact (passes_derive hS hx.2 hy hl hx.2).trans (by simp)
  | @move x y a b hx hy hl =>
    exact h.move hS hx hy (fun s t => passes_move hS hx hy hl rfl rfl) fun s => alive_move
  | @newRoot y i hy =>
    refine h.fresh hS (fun s t => ?_) hy fun s => alive_fill
    unfold CapStore.Passes
    show upd S.cap y (.id i) s = .zombie ∧ Next (rewrite S.chains y [y]) s t ↔ _
    rw [next_single (hS.fresh hy)]
    by_cases hsy : s = y
    · subst hsy
      simp [hy]
    · rw [upd_ne _ _ hsy]
  | @undelegate z e a m b hz hm he hl =>
    generalize hS' : ({ S with
      cap := fun s => if s = z then S.cap e else if s ∈ m ∨ s = e then .null else S.cap s
      chains := Chains.rewrite S.chains z (a ++ z :: b) } : CapStore) = S'
    have hcap : ∀ s, S'.cap s
        = if s = z then S.cap e else if s ∈ m ∨ s = e then .null else S.cap s := by
      subst hS'
      exact fun _ => rfl
    have hnd := hS.valid.nodup _ hl
    have hze : z ∉ m ∧ z ≠ e ∧ e ∉ m := by
      simp only [List.nodup_append, List.nodup_cons, List.mem_append, List.mem_cons, not_or] at hnd
      refine ⟨hnd.2.1.1.1, hnd.2.1.1.2.1, fun hem => ?_⟩
      exact hnd.2.1.2.2.2 e hem e (by simp) rfl
    -- The edges that `z` and the zombies behind it had are cut.
    have hpass : ∀ s t, S'.Passes s t ↔ S.Passes s t ∧ ¬ (s = z ∨ s ∈ m) := by
      intro s t
      refine passes_undelegate hS (fun s hs => ?_) ⟨he.2, ?_⟩ ?_ hl (fun s hsz hsm hse => ?_) ?_
      · rw [hcap, if_neg (fun heq : s = z => hze.1 (heq ▸ hs)), if_pos (Or.inl hs)]
        simp
      · rw [hcap, if_neg (Ne.symm hze.2.1), if_pos (Or.inr rfl)]
        simp
      · rw [hcap, if_pos rfl]
        exact he.2
      · rw [hcap, if_neg hsz, if_neg (by simp [hsm, hse])]
      · rw [← hS']
    intro z' w hw
    rw [hcap] at hw
    have hgone : ¬ (w ∈ m ∨ w = e) := by
      intro hin
      have hwz : w ≠ z := by
        rintro rfl
        exact hin.elim hze.1 hze.2.1
      rw [if_neg hwz, if_pos hin] at hw
      exact hw rfl
    have hwn : S.cap w ≠ .null := by
      by_cases hwz : w = z
      · simp [hwz, hz]
      · rwa [if_neg hwz, if_neg hgone] at hw
    -- A path to a slot in use does not pass through the cut: it would end inside.
    rw [transGen_cut (D := fun s => s = z ∨ s ∈ m) (G := fun s => s ∈ m ∨ s = e) hpass
      (fun s t hst hs => passes_between hS hl hst hs) (fun s t hst hs => ?_) hgone]
    · exact h z' w hwn
    · rcases hs with hs | rfl
      · exact Or.inr hs
      · exact absurd hst (not_passes he.2)
  | @destroy x a b hx hl hp =>
    exact h.same (fun s t => passes_clear hS hx.2 hl hp rfl rfl) fun s hs => (alive_clear hs).2
  | @drop x a b hx hl hp =>
    exact h.same (fun s t => passes_clear hS hx.2 hl hp rfl rfl) fun s hs => (alive_clear hs).2
  | _ => exact absurd trivial hrecord

/-- The zombies and the holder behind a zombie have what it delegated. -/
theorem path_of_list (he : S.cap e ≠ .zombie) :
    ∀ a z, a ++ z :: (m ++ e :: b) ∈ S.chains → (∀ s ∈ z :: m, S.cap s = .zombie) →
      ∀ w, w ∈ m ∨ w = e → TransGen S.Passes z w := by
  induction m with
  | nil =>
    intro a z hl hz w hw
    obtain rfl : w = e := by simpa using hw
    refine .single ⟨hz z (by simp), _, hl, ?_⟩
    exact ⟨a, b, by simp⟩
  | cons n m ih =>
    intro a z hl hz w hw
    have hfirst : S.Passes z n := ⟨hz z (by simp), _, hl, a, m ++ e :: b, by simp⟩
    have hrest := ih (a ++ [z]) n (by simpa using hl) fun s hs => hz s (by simp [List.mem_cons.mp hs])
    by_cases hwn : w = n
    · exact hwn ▸ .single hfirst
    · exact .head hfirst (hrest w (by simpa [hwn] using hw))

/-- And no others have it. -/
theorem mem_of_path (hS : StoreOk S) (hl : a ++ z :: (m ++ e :: b) ∈ S.chains)
    (he : S.cap e ≠ .zombie) (h : TransGen S.Passes z s) : s ∈ m ∨ s = e := by
  induction h with
  | single h => exact passes_between hS hl h (Or.inl rfl)
  | tail _ h ih =>
    rcases ih with hm | rfl
    · exact passes_between hS hl h (Or.inr hm)
    · exact absurd h (not_passes he)

/-! ### Calls -/

/-- The record after a call, as far as its answer tells. With `copies` a copy counts as obtained
from those that its source was obtained from. -/
def Call.passOn (copies : Bool) (heir : SlotPtr → SlotPtr → Prop) (call : Call)
    (answer : Option Answer) : SlotPtr → SlotPtr → Prop :=
  match call, answer with
  | .delegateCap _ x, some (.slot (some y)) => bequeath heir y fun z => z = x ∨ heir z x
  | .transferCap _ x, some (.slot (some y)) => bequeath heir y fun z => heir z x
  | .copyCap x, some (.slot (some y)) => bequeath heir y fun z => copies = true ∧ heir z x
  | .createObject _ _ _, some (.slot (some y)) => bequeath heir y fun _ => False
  | .createId, some (.slot (some y)) => bequeath heir y fun _ => False
  | _, _ => heir

/-- The slots that have what a slot delegated, by delegations and transfers. -/
def heirs (calls : List (Turn × Option Answer)) : SlotPtr → SlotPtr → Prop :=
  calls.foldl (fun heir call => call.1.call.passOn false heir call.2) fun _ _ => False

/-- The slots that were obtained through a delegation, by copies too. -/
def obtained (calls : List (Turn × Option Answer)) : SlotPtr → SlotPtr → Prop :=
  calls.foldl (fun heir call => call.1.call.passOn true heir call.2) fun _ _ => False

theorem heirs_snoc (calls : List (Turn × Option Answer)) (call : Turn × Option Answer) :
    heirs (calls ++ [call]) = call.1.call.passOn false (heirs calls) call.2 := by
  unfold heirs
  rw [List.foldl_append]
  rfl

theorem inherits_moves {acts : List Act} (hm : Moves S acts S') (hS : StoreOk S)
    (h : S.Inherits heir) :
    S'.Inherits (acts.foldl (fun heir act => act.passOn heir) heir) := by
  have hboth : StoreOk S' ∧ S'.Inherits (acts.foldl (fun heir act => act.passOn heir) heir) := by
    induction hm with
    | nil => exact ⟨hS, h⟩
    | snoc _ hstep ih =>
      rw [List.foldl_append]
      exact ⟨ih.1.trans hstep, hstep.inherits ih.1 ih.2⟩
  exact hboth.2

/-- The moves that the answer of a call tells. -/
def Call.made (cap : SlotPtr → Capability) (call : Call) : Option Answer → List Act
  | some (.slot (some y)) => call.slotActs cap y
  | _ => []

/-- The moves of a call leave the same on a record as the ones that its answer tells, if removals
and changes of what capabilities record leave nothing. -/
theorem foldl_made {β : Type} {f : β → Act → β} {cap : SlotPtr → Capability} {call : Call}
    {answer : Option Answer} {acts : List Act} (h : call.Makes cap answer acts)
    (hf : ∀ r act, act.IsRemoval ∨ act.IsRecord → f r act = r) (r : β) :
    acts.foldl f r = (call.made cap answer).foldl f r := by
  have hnone : ∀ {acts : List Act}, (∀ act ∈ acts, act.IsRemoval ∨ act.IsRecord) →
      acts.foldl f r = r := by
    intro acts hacts
    induction acts with
    | nil => rfl
    | cons act acts ih =>
      rw [List.foldl_cons, hf r act (hacts act (by simp))]
      exact ih fun act hact => hacts act (by simp [hact])
  match answer, h with
  | none, h =>
    refine hnone fun act hact => (h.2 act hact).imp id fun heq => ?_
    rw [heq]
    trivial
  | some (.slot none), h =>
    obtain rfl : acts = [] := h
    rfl
  | some (.slot (some y)), h =>
    obtain rfl : acts = call.slotActs cap y := h
    rfl
  | some (.bool b), h =>
    rcases h with ⟨-, hacts⟩ | ⟨-, rfl⟩
    · exact hnone fun act hact => Or.inl (hacts act hact)
    · refine hnone fun act hact => Or.inr ?_
      cases b with
      | false => exact absurd hact List.not_mem_nil
      | true =>
        cases call with
        | insertCapSpace | extendCapSpace | mapPageTable | unmapPageTable | mapVirtPage
          | unmapVirtPage | remapVirtPage =>
          obtain rfl := List.mem_singleton.mp hact
          trivial
        | _ => exact absurd hact List.not_mem_nil

/-- The moves of a call pass on what its answer tells. -/
theorem makes_passOn {cap : SlotPtr → Capability} {call : Call} {answer : Option Answer}
    {acts : List Act} (h : call.Makes cap answer acts) :
    acts.foldl (fun heir act => act.passOn heir) heir = call.passOn false heir answer := by
  rw [foldl_made h fun heir act hact => ?_]
  · match answer with
    | none => cases call <;> rfl
    | some (.bool b) => cases call <;> rfl
    | some (.slot none) => cases call <;> rfl
    | some (.slot (some y)) =>
      show (call.slotActs cap y).foldl (fun heir act => act.passOn heir) heir = _
      cases call with
      | createObject x type args =>
        by_cases htype : type = .task <;> simp [Call.slotActs, htype] <;> rfl
      | copyCap x =>
        show (copyAct (cap x) x y).passOn heir = bequeath heir y fun z => false = true ∧ heir z x
        simp only [Bool.false_eq_true, false_and]
        unfold copyAct
        split <;> rfl
      | _ => rfl
  · cases act <;> first | rfl | exact absurd hact (by simp [Act.IsRemoval, Act.IsRecord])

/-! ### Runs -/

section Runs

variable {cfg : Config} {boot : BootInfo} {k k' : Kernel} {turn : Turn} {answer : Option Answer}
  {ok : Kernel → Turn × Option Answer → Prop} {calls : List (Turn × Option Answer)}
  {lent : SlotPtr → Capability}

theorem Step.inherits (hstep : Step cfg k turn answer k') (hk : KernelInv k)
    (hsafe : Safe k (turn, answer)) (h : k.store.Inherits heir) :
    k'.store.Inherits (turn.call.passOn false heir answer) := by
  obtain ⟨acts, hmakes, hdoes⟩ := hstep.serves hk.links hk.store hsafe
  rw [← makes_passOn hmakes]
  exact inherits_moves hdoes.moves hk.store.ok h

/-- A run from the first state by the calls `calls`, with the record of what each slot held before
it last became a zombie. -/
structure ReachesBy (config : Config) (boot : BootInfo)
    (ok : Kernel → Turn × Option Answer → Prop) (calls : List (Turn × Option Answer)) (k : Kernel)
    (lent : SlotPtr → Capability) : Prop where
  wellFormed : boot.WellFormed
  run : ∃ k₀ lent₀, setup boot (.debug config) .powerOn = .ok () k₀ ∧
    LendingRun config ok (k₀, lent₀) calls (k, lent)

theorem Booted.inherits (h : Booted boot k) : k.store.Inherits fun _ _ => False := by
  have hnone : ∀ s t, ¬ k.store.Passes s t := by
    rintro s t ⟨-, l, hl, hpair⟩
    obtain ⟨u, rfl⟩ := h.chain_single hl
    rw [pair_cons] at hpair
    simp at hpair
  intro z w _
  refine ⟨False.elim, fun hpath => ?_⟩
  cases hpath with
  | single h => exact hnone _ _ h
  | tail _ h => exact hnone _ _ h

theorem ReachesBy.inherits (h : ReachesBy cfg boot ok calls k lent)
    (hsafe : ∀ k call, ok k call → Safe k call) :
    KernelInv k ∧ k.store.Lends lent ∧ k.store.Inherits (heirs calls) := by
  obtain ⟨hwf, k₀, lent₀, hsetup, hrun⟩ := h
  have hbooted : Booted boot k₀ := wp_ok (wp_setup hwf) hsetup
  clear hsetup
  generalize hs : (k, lent) = s at hrun
  induction hrun generalizing k lent with
  | nil =>
    obtain ⟨rfl, rfl⟩ := Prod.mk.inj hs
    exact ⟨hbooted.kernelInv hwf, hbooted.lends hwf, hbooted.inherits⟩
  | @snoc calls call s s' _ hstep ih =>
    subst hs
    obtain ⟨hok, hstep, hrecord⟩ := hstep
    obtain ⟨hk, hlends, hinherits⟩ := ih rfl
    have hcall := hsafe _ _ hok
    refine ⟨hstep.keeps hk hcall, ?_, ?_⟩
    · have hlent : lent = remember s.1.cap k.cap s.2 := hrecord
      rw [hlent]
      exact hstep.lends hk hcall hlends
    · rw [heirs_snoc]
      exact hstep.inherits hk hcall hinherits

/-- A call of `revoke_cap` that answers true did one of the two revocations. -/
theorem Step.revokes {t : TaskPtr}
    (hstep : Step cfg k ⟨t, .revokeCap x⟩ (some (.bool true)) k') (hk : KernelInv k) :
    Revokes (k.dispatch t) x true k' := by
  cases hstep with
  | returned henabled hrun =>
    have hT : TailInv (k.dispatch t).store := hk.store.tail
    have hwp : wp ((Call.revokeCap x).serve t) (.debug cfg)
        (fun answer k' => ∃ b, answer = .bool b ∧ Revokes (k.dispatch t) x b k') (fun _ _ => True)
        (k.dispatch t) := by
      show wp (Answer.bool <$> revokeCap x) _ _ _ _
      rw [wp_map]
      exact wp_mono (wp_revokeCap (hk.links.dispatch t) hT) (fun b k' hb => ⟨b, rfl, hb⟩)
        fun _ _ _ => trivial
    obtain ⟨b, hb, hrevokes⟩ := wp_ok hwp hrun
    obtain rfl := Answer.bool.inj hb
    exact hrevokes

/-! ### Runs, computed -/

/-- A run, with the states in which its calls are made. -/
abbrev TrailRun (config : Config) (ok : Kernel → Turn × Option Answer → Prop) :
    Kernel → List (Kernel × Turn × Option Answer) → Kernel → Prop :=
  Steps fun k call k' => call.1 = k ∧ ok k call.2 ∧ Step config k call.2.1 call.2.2 k'

theorem TrailRun.lending {trail : List (Kernel × Turn × Option Answer)}
    (h : TrailRun cfg ok k trail k') (lent : SlotPtr → Capability) :
    ∃ lent', LendingRun cfg ok (k, lent) (trail.map Prod.snd) (k', lent') := by
  induction h with
  | nil => exact ⟨lent, .nil⟩
  | @snoc trail call k₁ k₂ _ hstep ih =>
    obtain ⟨lent', hrun⟩ := ih
    rw [List.map_append]
    exact ⟨remember k₁.cap k₂.cap lent', .snoc hrun ⟨hstep.2.1, hstep.2.2, rfl⟩⟩

/-- The states and the calls that a list of turns makes, and the state that they end in. -/
def trailTurns (config : Config) (ok : Kernel → Turn × Option Answer → Prop)
    [∀ k call, Decidable (ok k call)] :
    List Turn → Kernel → Option (List (Kernel × Turn × Option Answer) × Kernel)
  | [], k => some ([], k)
  | turn :: turns, k =>
    match turn.next config k with
    | some (answer, k') =>
      if ok k (turn, answer) then
        (trailTurns config ok turns k').map fun rest => ((k, turn, answer) :: rest.1, rest.2)
      else none
    | none => none

theorem run_of_trailTurns [∀ k call, Decidable (ok k call)] {turns : List Turn}
    {trail : List (Kernel × Turn × Option Answer)}
    (h : trailTurns cfg ok turns k = some (trail, k')) : TrailRun cfg ok k trail k' := by
  induction turns generalizing k trail with
  | nil =>
    obtain ⟨rfl, rfl⟩ := Prod.mk.inj (Option.some.inj h)
    exact .nil
  | cons turn turns ih =>
    unfold trailTurns at h
    split at h
    · rename_i answer k₁ hnext
      split at h
      · rename_i hok
        obtain ⟨⟨rest, k₂⟩, hrest, heq⟩ := Option.map_eq_some_iff.mp h
        obtain ⟨rfl, rfl⟩ := Prod.mk.inj heq
        exact (Steps.single ⟨rfl, hok, step_of_next hnext⟩).append (ih hrest)
      · exact absurd h (by simp)
    · exact absurd h (by simp)

/-- A run of the small machine, and one more call. -/
theorem sample_trail [∀ k call, Decidable (ok k call)] (turns : List Turn) (turn : Turn)
    {P : List (Kernel × Turn × Option Answer) → Kernel → Option Answer → Kernel → Prop}
    [∀ trail k answer k', Decidable (P trail k answer k')]
    (h : (setup sampleBoot (.debug sampleConfig) .powerOn).returns (fun _ k =>
      (trailTurns sampleConfig ok turns k).any fun r =>
        (turn.next sampleConfig r.2).any fun next => decide (P r.1 r.2 next.1 next.2)) = true) :
    ∃ k₀ trail k answer k', setup sampleBoot (.debug sampleConfig) .powerOn = .ok () k₀ ∧
      TrailRun sampleConfig ok k₀ trail k ∧ Step sampleConfig k turn answer k' ∧
      P trail k answer k' := by
  obtain ⟨⟨⟩, k₀, hsetup, hany⟩ := Outcome.returns_iff.mp h
  rw [Option.any_eq_true] at hany
  obtain ⟨⟨trail, k⟩, htrail, hnext⟩ := hany
  rw [Option.any_eq_true] at hnext
  obtain ⟨⟨answer, k'⟩, hstep, hP⟩ := hnext
  exact ⟨k₀, trail, k, answer, k', hsetup, run_of_trailTurns htrail, step_of_next hstep,
    of_decide_eq_true hP⟩

end Runs

end Caprese

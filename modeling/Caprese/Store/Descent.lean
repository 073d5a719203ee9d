import Caprese.Lib.Precedes
import Caprese.Store.Heirs

/-!
# `Caprese.Store.Descent`: what comes of what

The derivation list is flat. `Descent` keeps beside the moves what the list does not tell: what
was derived from what, and which lines parted earlier. Of two slots on a list the second one was
derived from the first one, or is of a line that parted earlier from the line of the first one:
a new slot comes right behind its parent, in front of all that its parent has had so far
(`Tells`, `Trans.tells`).
-/

set_option autoImplicit false

namespace Caprese

open Lib Prog Chains

variable {S S' : CapStore} {act : Act} {x y s t : SlotPtr} {a b l new : List SlotPtr}
  {c c' : Capability}

/-- What was derived from what, and what is of an earlier line. -/
structure Descent where
  /-- The capability in the second slot was derived from the one in the first. -/
  derived : SlotPtr → SlotPtr → Prop
  /-- The second slot comes from a relative of the first one, by a line that parted before the
  line of the first one did. -/
  elder : SlotPtr → SlotPtr → Prop

namespace Descent

/-- Nothing has a relative. -/
def none : Descent := ⟨fun _ _ => False, fun _ _ => False⟩

variable (D : Descent)

/-- What comes behind a slot on its list. -/
def Behind (s t : SlotPtr) : Prop := D.derived s t ∨ D.elder s t

/-- `y` is derived from `x`. All that was derived from `x` before is of an earlier line. -/
def derive (x y : SlotPtr) : Descent where
  derived s t := s ≠ y ∧ if t = y then s = x ∨ D.derived s x else D.derived s t
  elder s t := if s = y then t ≠ y ∧ (D.derived x t ∨ D.elder x t)
    else if t = y then D.elder s x else D.elder s t

/-- `y` takes the place of `x`. -/
def replace (x y : SlotPtr) : Descent where
  derived s t := if s = y then t ≠ y ∧ D.derived x t else if t = y then D.derived s x
    else D.derived s t
  elder s t := if s = y then t ≠ y ∧ D.elder x t else if t = y then D.elder s x else D.elder s t

/-- `y` is new, and no relative of anything. -/
def root (y : SlotPtr) : Descent where
  derived s t := s ≠ y ∧ t ≠ y ∧ D.derived s t
  elder s t := s ≠ y ∧ t ≠ y ∧ D.elder s t

/-- The record after a move. -/
def after : Act → Descent
  | .create x y | .copy x y | .delegate x y => D.derive x y
  | .move x y => D.replace x y
  | .newRoot y => D.root y
  | _ => D

theorem behind_derive (hst : ¬ (s = y ∧ t = y)) : (D.derive x y).Behind s t ↔
    if s = y then D.Behind x t else if t = y then s = x ∨ D.Behind s x else D.Behind s t := by
  unfold Behind derive
  dsimp only
  by_cases hs : s = y
  · have ht : t ≠ y := fun ht => hst ⟨hs, ht⟩
    simp [hs, ht]
  · by_cases ht : t = y
    · simp [hs, ht, or_assoc]
    · simp [hs, ht]

theorem behind_replace (hst : ¬ (s = y ∧ t = y)) : (D.replace x y).Behind s t ↔
    if s = y then D.Behind x t else if t = y then D.Behind s x else D.Behind s t := by
  unfold Behind replace
  dsimp only
  by_cases hs : s = y
  · have ht : t ≠ y := fun ht => hst ⟨hs, ht⟩
    simp [hs, ht]
  · by_cases ht : t = y
    · simp [hs, ht]
    · simp [hs, ht]

theorem not_behind_derive : ¬ (D.derive x y).Behind y y := by simp [Behind, derive]

theorem not_behind_replace : ¬ (D.replace x y).Behind y y := by simp [Behind, replace]

theorem behind_root : (D.root y).Behind s t ↔ s ≠ y ∧ t ≠ y ∧ D.Behind s t := by
  unfold Behind root
  tauto

end Descent

/-- The record tells the order of the slots in use. -/
def CapStore.Tells (S : CapStore) (D : Descent) : Prop :=
  ∀ s t, S.cap s ≠ .null → S.cap t ≠ .null → (Precedes S.chains s t ↔ D.Behind s t)

/-! ### The moves -/

namespace CapStore.Tells

variable {D : Descent} (h : S.Tells D)

include h

/-- A slot behind another one: the parent, and what came before it. -/
theorem derive (hS : StoreOk S) (hy : S.cap y = .null) (hl : a ++ x :: b ∈ S.chains)
    (halive : ∀ s, S'.cap s ≠ .null → s = y ∨ S.cap s ≠ .null)
    (hchains : S'.chains = rewrite S.chains x (a ++ x :: y :: b)) : S'.Tells (D.derive x y) := by
  have hx : S.cap x ≠ .null := hS.not_null hl (by simp)
  have hfresh := hS.fresh hy
  intro s t hs ht
  rw [hchains, precedes_insert hS.valid hl hfresh]
  -- Neither the lists nor the record put `y` behind itself.
  by_cases hst : s = y ∧ t = y
  · obtain ⟨rfl, rfl⟩ := hst
    rw [if_pos rfl]
    exact iff_of_false (not_precedes_fresh hfresh).1 D.not_behind_derive
  · rw [D.behind_derive hst]
    by_cases hsy : s = y
    · have hty : t ≠ y := fun heq => hst ⟨hsy, heq⟩
      rw [if_pos hsy, if_pos hsy]
      exact h x t hx ((halive t ht).resolve_left hty)
    · have hs := (halive s hs).resolve_left hsy
      rw [if_neg hsy, if_neg hsy]
      -- What precedes `y` is `x` and what preceded `x`.
      by_cases hty : t = y
      · rw [if_pos hty, if_pos hty, h s x hs hx]
      · rw [if_neg hty, if_neg hty]
        exact h s t hs ((halive t ht).resolve_left hty)

theorem replace (hS : StoreOk S) (hy : S.cap y = .null) (hl : a ++ x :: b ∈ S.chains)
    (halive : ∀ s, S'.cap s ≠ .null → s = y ∨ s ≠ x ∧ S.cap s ≠ .null)
    (hchains : S'.chains = rewrite S.chains x (a ++ y :: b)) : S'.Tells (D.replace x y) := by
  have hx : S.cap x ≠ .null := hS.not_null hl (by simp)
  have hxy : x ≠ y := fun heq => hx (heq ▸ hy)
  have hfresh := hS.fresh hy
  have hne : ∀ s, S'.cap s ≠ .null → s ≠ x := fun s hs => by
    rcases halive s hs with rfl | ⟨hsx, -⟩
    · exact Ne.symm hxy
    · exact hsx
  intro s t hs ht
  rw [hchains, precedes_replace hS.valid hl hfresh (hne s hs) (hne t ht)]
  by_cases hst : s = y ∧ t = y
  · obtain ⟨rfl, rfl⟩ := hst
    rw [if_pos rfl]
    exact iff_of_false (not_precedes_fresh hfresh).1 D.not_behind_replace
  · rw [D.behind_replace hst]
    by_cases hsy : s = y
    · have hty : t ≠ y := fun heq => hst ⟨hsy, heq⟩
      rw [if_pos hsy, if_pos hsy]
      exact h x t hx ((halive t ht).resolve_left hty).2
    · have hs := ((halive s hs).resolve_left hsy).2
      rw [if_neg hsy, if_neg hsy]
      by_cases hty : t = y
      · rw [if_pos hty, if_pos hty]
        exact h s x hs hx
      · rw [if_neg hty, if_neg hty]
        exact h s t hs ((halive t ht).resolve_left hty).2

theorem root (hS : StoreOk S) (hy : S.cap y = .null)
    (halive : ∀ s, S'.cap s ≠ .null → s = y ∨ S.cap s ≠ .null)
    (hchains : S'.chains = rewrite S.chains y [y]) : S'.Tells (D.root y) := by
  have hfresh := hS.fresh hy
  intro s t hs ht
  rw [hchains, precedes_single hfresh, D.behind_root]
  by_cases hsy : s = y
  · subst hsy
    exact iff_of_false (not_precedes_fresh hfresh).2 fun hin => hin.1 rfl
  · by_cases hty : t = y
    · subst hty
      exact iff_of_false (not_precedes_fresh hfresh).1 fun hin => hin.2.1 rfl
    · rw [h s t ((halive s hs).resolve_left hsy) ((halive t ht).resolve_left hty)]
      simp [hsy, hty]

/-- Slots are taken off a list. -/
theorem shrink (hS : StoreOk S) (hl : l ∈ S.chains) (hx : x ∈ l) (hnew : new.Sublist l)
    (halive : ∀ s, S'.cap s ≠ .null → S.cap s ≠ .null ∧ (s ∈ l → s ∈ new))
    (hchains : S'.chains = rewrite S.chains x new) : S'.Tells D := by
  intro s t hs ht
  obtain ⟨hs, hsl⟩ := halive s hs
  obtain ⟨ht, htl⟩ := halive t ht
  rw [hchains, precedes_shrink hS.valid hl hx hnew hsl htl]
  exact h s t hs ht

end CapStore.Tells

/-- Each move keeps the record in step with the lists. -/
theorem Trans.tells {D : Descent} (ht : Trans S act S') (hS : StoreOk S) (h : S.Tells D) :
    S'.Tells (D.after act) := by
  have hclear : ∀ {x a b}, a ++ x :: b ∈ S.chains → ∀ s, upd S.cap x .null s ≠ .null →
      S.cap s ≠ .null ∧ (s ∈ a ++ x :: b → s ∈ a ++ b) := by
    intro x a b hl s hs
    obtain ⟨hsx, hs⟩ := alive_clear hs
    exact ⟨hs, fun hin => by simpa [hsx] using hin⟩
  -- A change of a record touches no list and empties no slot.
  by_cases hrecord : act.IsRecord
  · obtain ⟨hchains, hcap⟩ := ht.records hrecord
    have hsame : D.after act = D := by
      cases act <;> first | rfl | exact absurd hrecord id
    have halive : ∀ s, S'.cap s ≠ .null → S.cap s ≠ .null := fun s hs hnull =>
      hs ((ht.record_null hrecord).mpr hnull)
    intro s t hs ht
    rw [hsame, hchains]
    exact h s t (halive s hs) (halive t ht)
  cases ht with
  | create hx hy hl =>
    exact h.derive hS hy hl (fun s => alive_derive (hS.not_null hl (by simp))) rfl
  | copy hx hy hl =>
    exact h.derive hS hy hl (fun s => alive_derive (hS.not_null hl (by simp))) rfl
  | delegate hx hy hl => exact h.derive hS hy hl (fun s => alive_derive hx.1) rfl
  | move hx hy hl => exact h.replace hS hy hl (fun s => alive_move) rfl
  | newRoot hy => exact h.root hS hy (fun s => alive_fill) rfl
  | @undelegate z e a m b hz hm he hl =>
    -- The slots between `z` and `e`, and `e`, are taken off, and they are empty.
    have hnew : (a ++ z :: b).Sublist (a ++ z :: (m ++ e :: b)) :=
      List.Sublist.append_left (List.Sublist.cons_cons _
        ((List.sublist_cons_self _ _).trans (List.sublist_append_right _ _))) _
    refine h.shrink hS hl (by simp) hnew (fun s hs => ?_) rfl
    have hs : (if s = z then S.cap e else if s ∈ m ∨ s = e then .null else S.cap s) ≠ .null := hs
    by_cases hsz : s = z
    · exact ⟨by simp [hsz, hz], fun _ => by simp [hsz]⟩
    · by_cases hgone : s ∈ m ∨ s = e
      · rw [if_neg hsz, if_pos hgone] at hs
        exact absurd rfl hs
      · rw [if_neg hsz, if_neg hgone] at hs
        refine ⟨hs, fun hin => ?_⟩
        simp only [List.mem_append, List.mem_cons] at hin ⊢
        tauto
  | destroy hx hl =>
    exact h.shrink hS hl (by simp) (List.Sublist.append_left (List.sublist_cons_self _ _) _)
      (hclear hl) rfl
  | drop hx hl =>
    exact h.shrink hS hl (by simp) (List.Sublist.append_left (List.sublist_cons_self _ _) _)
      (hclear hl) rfl
  | _ => exact absurd trivial hrecord

/-! ### Runs -/

section Runs

variable {cfg : Config} {boot : BootInfo} {k k' : Kernel} {turn : Turn} {answer : Option Answer}
  {ok : Kernel → Turn × Option Answer → Prop} {trail : List (Kernel × Turn × Option Answer)}
  {D : Descent}

theorem tells_moves {acts : List Act} (hm : Moves S acts S') (hS : StoreOk S) (h : S.Tells D) :
    S'.Tells (acts.foldl Descent.after D) := by
  have hboth : StoreOk S' ∧ S'.Tells (acts.foldl Descent.after D) := by
    induction hm with
    | nil => exact ⟨hS, h⟩
    | snoc _ hstep ih =>
      rw [List.foldl_append]
      exact ⟨ih.1.trans hstep, hstep.tells ih.1 ih.2⟩
  exact hboth.2

theorem Step.tells (hstep : Step cfg k turn answer k') (hk : KernelInv k)
    (hsafe : Safe k (turn, answer)) (h : k.store.Tells D) :
    k'.store.Tells ((turn.call.made k.cap answer).foldl Descent.after D) := by
  obtain ⟨acts, hmakes, hdoes⟩ := hstep.serves hk.links hk.store hsafe
  rw [← foldl_made hmakes fun D act hact => ?_]
  · exact tells_moves hdoes.moves hk.store.ok h
  · cases act <;> first | rfl | exact absurd hact (by simp [Act.IsRemoval, Act.IsRecord])

/-- The record of a run: what was derived from what by its calls. -/
def descent (trail : List (Kernel × Turn × Option Answer)) : Descent :=
  (trail.flatMap fun call => call.2.1.call.made call.1.cap call.2.2).foldl Descent.after .none

theorem descent_snoc (call : Kernel × Turn × Option Answer) : descent (trail ++ [call])
    = (call.2.1.call.made call.1.cap call.2.2).foldl Descent.after (descent trail) := by
  unfold descent
  rw [List.flatMap_append, List.foldl_append]
  simp

/-- A run from the first state, with the states in which its calls are made. -/
structure ReachesAlong (config : Config) (boot : BootInfo)
    (ok : Kernel → Turn × Option Answer → Prop) (trail : List (Kernel × Turn × Option Answer))
    (k : Kernel) : Prop where
  wellFormed : boot.WellFormed
  run : ∃ k₀, setup boot (.debug config) .powerOn = .ok () k₀ ∧ TrailRun config ok k₀ trail k

theorem Booted.tells (h : Booted boot k) : k.store.Tells .none := by
  intro s t _ _
  refine iff_of_false ?_ fun hbehind => hbehind.elim id id
  rintro ⟨l, hl, hpair⟩
  obtain ⟨u, rfl⟩ := h.chain_single hl
  rw [ahead_cons] at hpair
  simp at hpair

theorem ReachesAlong.tells (h : ReachesAlong cfg boot ok trail k)
    (hsafe : ∀ k call, ok k call → Safe k call) :
    KernelInv k ∧ k.store.Tells (descent trail) := by
  obtain ⟨hwf, k₀, hsetup, hrun⟩ := h
  have hbooted : Booted boot k₀ := wp_ok (wp_setup hwf) hsetup
  clear hsetup
  induction hrun with
  | nil => exact ⟨hbooted.kernelInv hwf, hbooted.tells⟩
  | @snoc trail call k k' _ hstep ih =>
    obtain ⟨rfl, hok, hstep⟩ := hstep
    obtain ⟨hk, htells⟩ := ih
    have hcall := hsafe _ _ hok
    refine ⟨hstep.keeps hk hcall, ?_⟩
    rw [descent_snoc]
    exact hstep.tells hk hcall htells

end Runs

end Caprese

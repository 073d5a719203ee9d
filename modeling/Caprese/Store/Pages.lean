import Caprese.Store.CreateTask
import Caprese.Store.Lineage
import Caprese.Store.Records

/-!
# `Caprese.Store.Pages`: what the entries for the user lead to

An entry of a table gives the user access to memory only where a page capability was mapped. So over
any run of moves, each such entry leads to where it led before, or to the page of a capability that
goes back to one from before the run (`Moves.mapsAt`).
-/

set_option autoImplicit false

namespace Caprese

open Lib

variable {S S' : CapStore} {act : Act} {acts : List Act} {tables : TablePtr → Nat → Pte}
  {table t : TablePtr} {index i : Nat} {e : Pte} {a : PhysAddr}

/-- The page that an entry leads to, when `page` was stored to it. -/
def storedPage (page : PhysAddr) : PhysAddr := (Pte.zero.setNextPage page).getNextPage

/-- The entry gives the user access to the page. -/
def CapStore.MapsAt (S : CapStore) (t : TablePtr) (i : Nat) (a : PhysAddr) : Prop :=
  (S.tables t i).isUser = true ∧ (S.tables t i).getNextPage = a

/-- A capability of the state, or one that it yields, is for the page. -/
def CapStore.YieldsPage (S : CapStore) (a : PhysAddr) : Prop :=
  ∃ s v, (S.cap s).Yields (.virtPage v) ∧ storedPage v.physAddr = a

/-- Tables whose entries for the user are old ones. -/
def NoNewUser (tables tables' : TablePtr → Nat → Pte) : Prop :=
  ∀ t i, (tables' t i).isUser = true → tables' t i = tables t i

theorem noNewUser_setEntry (he : e.isUser = false) :
    NoNewUser tables (setEntry tables table index e) := by
  intro t i h
  rw [setEntry_apply] at h ⊢
  split
  · rename_i hthere
    rw [if_pos hthere, he] at h
    exact absurd h Bool.false_ne_true
  · rfl

theorem noNewUser_clearTables (c : Capability) : NoNewUser tables (c.clearTables tables) := by
  unfold Capability.clearTables
  split
  · exact noNewUser_setEntry rfl
  · exact fun _ _ _ => rfl

theorem noNewUser_initTables (c : Capability) : NoNewUser tables (c.initTables tables) := by
  unfold Capability.initTables
  split
  · rename_i cap
    intro t i h
    by_cases ht : t = cap.table
    · rw [ht, upd_same] at h
      exact absurd h (by decide)
    · exact congrFun (upd_ne _ _ ht) i
  · exact fun _ _ _ => rfl

/-- The tables of a new task have no entry for the user. -/
theorem InitTables.noNewUser {root table0 table1 : TablePtr} {tables' : TablePtr → Nat → Pte}
    (h : InitTables tables root table0 table1 tables') : NoNewUser tables tables' := by
  intro t i hi
  by_cases ht : t = root ∨ t = table0 ∨ t = table1
  · rw [h.user t i ht] at hi
    exact absurd hi Bool.false_ne_true
  · obtain ⟨hr, ht⟩ := not_or.mp ht
    obtain ⟨h0, h1⟩ := not_or.mp ht
    rw [h.other t hr h0 h1]

/-- The step lemma: a new entry for the user leads to the page of a capability. -/
theorem Trans.mapsAt (ht : Trans S act S') (h : S'.MapsAt t i a) :
    S.MapsAt t i a ∨ S.YieldsPage a := by
  have hold : NoNewUser S.tables S'.tables → S.MapsAt t i a ∨ S.YieldsPage a := fun hsame => by
    refine Or.inl ?_
    unfold CapStore.MapsAt
    rw [← hsame t i h.1]
    exact h
  -- The entry of a page, stored over tables without new ones.
  have hpage : ∀ {y : SlotPtr} {c : VirtPageCap} {tables : TablePtr → Nat → Pte}
      {table index flags},
      S.cap y = .virtPage c → NoNewUser S.tables tables →
      S'.tables = setEntry tables table index ((tables table index).fill flags c.physAddr) →
      S.MapsAt t i a ∨ S.YieldsPage a := by
    intro y c tables table index flags hy hsame htables
    unfold CapStore.MapsAt at h
    rw [htables, setEntry_apply] at h
    split at h
    · refine Or.inr ⟨y, c, ?_, h.2⟩
      rw [hy]
      exact .virtPage rfl rfl rfl
    · refine Or.inl ?_
      unfold CapStore.MapsAt
      rw [← hsame t i h.1]
      exact h
  cases ht with
  | create => exact hold (noNewUser_initTables _)
  | adopt _ _ _ _ _ _ _ _ init => exact hold init.noNewUser
  | destroy => exact hold (noNewUser_clearTables _)
  | mapTable => exact hold (noNewUser_setEntry fill_table_isUser)
  | unmapTable => exact hold (noNewUser_setEntry rfl)
  | mapPage hx hy => exact hpage hy (fun _ _ _ => rfl) rfl
  | unmapPage => exact hold (noNewUser_setEntry rfl)
  | remapPage hx ho hy => exact hpage hy (noNewUser_setEntry rfl) rfl
  | attach => exact hold (noNewUser_setEntry (plain_fill rfl rfl).1)
  | extend => exact hold (noNewUser_setEntry fill_table_isUser)
  | _ => exact hold fun _ _ _ => rfl

/-- The run lemma. -/
theorem Moves.mapsAt (hm : Moves S acts S') (h : S'.MapsAt t i a) :
    S.MapsAt t i a ∨ S.YieldsPage a := by
  induction hm with
  | nil => exact Or.inl h
  | snoc hsteps ht ih =>
    rcases ht.mapsAt h with hbefore | ⟨s, v, hyields, hpage⟩
    · exact ih hbefore
    · obtain ⟨s₀, hyields₀⟩ := Moves.yields hsteps hyields.authority
      exact Or.inr ⟨s₀, v, hyields₀.trans hyields, hpage⟩

end Caprese

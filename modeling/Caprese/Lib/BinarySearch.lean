import Mathlib.Order.Basic
import Mathlib.Order.Lattice

/-!
# `Caprese.Lib.BinarySearch`: `std::lower_bound` and `std::binary_search`

The two searches halve the range that is left, as the standard libraries do. On a table in the order
of the comparison a search finds the members (`binarySearch_iff`). On any table it finds members
alone (`mem_of_binarySearch`).
-/

set_option autoImplicit false

namespace Lib

variable {α : Type} [LinearOrder α] {table : List α} {v : α}

/-- The first index in `[first, first + len)` whose element is not below `v`. The first argument
bounds the turns, and `len` of them are enough. -/
def lowerBoundFrom (table : List α) (v : α) : Nat → Nat → Nat → Nat
  | 0, first, _ => first
  | fuel + 1, first, len =>
    if len = 0 then first
    else
      let half := len / 2
      match table[first + half]? with
      | none => first
      | some middle =>
        if middle < v then lowerBoundFrom table v fuel (first + half + 1) (len - half - 1)
        else lowerBoundFrom table v fuel first half

/-- `std::lower_bound` over the whole table. -/
def lowerBound (table : List α) (v : α) : Nat :=
  lowerBoundFrom table v table.length 0 table.length

/-- `std::binary_search` over the whole table. -/
def binarySearch (table : List α) (v : α) : Bool :=
  match table[lowerBound table v]? with
  | none => false
  | some found => !decide (v < found)

/-- In a table that is in order, all before the place where a search ends is below `v`. -/
theorem lowerBoundFrom_below (hsorted : table.Pairwise (· ≤ ·)) :
    ∀ fuel first len, first + len ≤ table.length →
      (∀ i (hi : i < table.length), i < first → table[i] < v) →
      ∀ i (hi : i < table.length), i < lowerBoundFrom table v fuel first len → table[i] < v := by
  have hmono : ∀ i j (hi : i < table.length) (hj : j < table.length), i ≤ j →
      table[i] ≤ table[j] := by
    intro i j hi hj hij
    rcases Nat.lt_or_eq_of_le hij with hlt | rfl
    · exact List.pairwise_iff_getElem.mp hsorted i j hi hj hlt
    · exact le_refl _
  intro fuel
  induction fuel with
  | zero => exact fun _ _ _ hlow => hlow
  | succ fuel ih =>
    intro first len hlen hlow
    unfold lowerBoundFrom
    split
    · exact hlow
    · have hmid : first + len / 2 < table.length := by omega
      dsimp only
      rw [List.getElem?_eq_getElem hmid]
      dsimp only
      split
      · rename_i hbelow
        refine ih _ _ (by omega) fun i hi hlt => ?_
        exact lt_of_le_of_lt (hmono i _ hi hmid (by omega)) hbelow
      · exact ih _ _ (by omega) hlow

/-- The element at which a search ends is not below `v`, whatever the order of the table. -/
theorem lowerBoundFrom_not_below : ∀ fuel first len, len ≤ fuel → first + len ≤ table.length →
    (∀ found ∈ table[first + len]?, ¬ found < v) →
    ∀ found ∈ table[lowerBoundFrom table v fuel first len]?, ¬ found < v := by
  intro fuel
  induction fuel with
  | zero =>
    intro first len hfuel _ hend
    obtain rfl : len = 0 := Nat.le_zero.mp hfuel
    exact hend
  | succ fuel ih =>
    intro first len hfuel hlen hend
    unfold lowerBoundFrom
    split
    · rename_i hzero
      rw [hzero] at hend
      exact hend
    · rename_i hpos
      have hmid : first + len / 2 < table.length := by omega
      dsimp only
      rw [List.getElem?_eq_getElem hmid]
      dsimp only
      split
      · refine ih _ _ (by omega) (by omega) ?_
        rw [show first + len / 2 + 1 + (len - len / 2 - 1) = first + len by omega]
        exact hend
      · rename_i habove
        refine ih _ _ (by omega) (by omega) ?_
        rw [List.getElem?_eq_getElem hmid]
        rintro found ⟨⟩
        exact habove

/-- What a search finds is a member, whatever the order of the table. -/
theorem mem_of_binarySearch (h : binarySearch table v = true) : v ∈ table := by
  unfold binarySearch at h
  cases hfound : table[lowerBound table v]? with
  | none =>
    rw [hfound] at h
    exact nomatch h
  | some found =>
    rw [hfound] at h
    have habove : ¬ found < v := by
      refine lowerBoundFrom_not_below table.length 0 table.length le_rfl (by omega) ?_ found hfound
      rw [List.getElem?_eq_none (by omega)]
      exact fun _ hnone => nomatch hnone
    have heq : found = v := le_antisymm (not_lt.mp (by simpa using h)) (not_lt.mp habove)
    exact heq ▸ List.mem_of_getElem? hfound

/-- A search in a table that is in order finds the members. -/
theorem binarySearch_iff (table : List α) (hsorted : table.Pairwise (· ≤ ·)) :
    binarySearch table v = true ↔ v ∈ table := by
  have hbelow := lowerBoundFrom_below (v := v) hsorted table.length 0 table.length (by omega)
    fun i _ hi => absurd hi (Nat.not_lt_zero i)
  refine ⟨mem_of_binarySearch, fun hmem => ?_⟩
  obtain ⟨i, hi, rfl⟩ := List.getElem_of_mem hmem
  have hle : lowerBound table table[i] ≤ i := by
    by_contra hlt
    exact lt_irrefl _ (hbelow i hi (not_le.mp hlt))
  have hfound : lowerBound table table[i] < table.length := lt_of_le_of_lt hle hi
  unfold binarySearch
  rw [List.getElem?_eq_getElem hfound]
  dsimp only
  rw [Bool.not_eq_true', decide_eq_false_iff_not, not_lt]
  rcases Nat.lt_or_eq_of_le hle with hlt | heq
  · exact List.pairwise_iff_getElem.mp hsorted _ _ hfound hi hlt
  · exact le_of_eq (by simp only [heq])

end Lib

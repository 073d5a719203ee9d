import Mathlib.Data.Nat.Basic

/-!
# `Caprese.Lib.Words`: a number cut into words

A number is cut into its quotient and its remainder by a base. To count up is to count up the
remainder, with a carry into the quotient when it is full (`succ_mod`, `succ_div`), and numbers are
compared as these pairs are, quotients first (`lt_iff_div_mod`). A number of several words is cut
more than once.
-/

set_option autoImplicit false

namespace Lib

namespace Words

variable {base n m : Nat}

/-- The last word runs through its values and starts again. -/
theorem succ_mod (hbase : 0 < base) :
    (n + 1) % base = if n % base = base - 1 then 0 else n % base + 1 := by
  have hlt : n % base < base := Nat.mod_lt n hbase
  rw [← Nat.mod_add_mod]
  split
  · rename_i hfull
    have hwrap : n % base + 1 = base := by omega
    rw [hwrap, Nat.mod_self]
  · rename_i hroom
    exact Nat.mod_eq_of_lt (by omega)

/-- The words in front of it count up when it starts again. -/
theorem succ_div (hbase : 0 < base) :
    (n + 1) / base = if n % base = base - 1 then n / base + 1 else n / base := by
  have hlt : n % base < base := Nat.mod_lt n hbase
  have hn : n = n % base + base * (n / base) := (Nat.mod_add_div n base).symm
  have hdiv : (n + 1) / base = (n % base + 1) / base + n / base := by
    rw [← Nat.add_mul_div_left _ _ hbase]
    congr 1
    omega
  rw [hdiv]
  split
  · rename_i hfull
    have hwrap : n % base + 1 = base := by omega
    rw [hwrap, Nat.div_self hbase, Nat.add_comm]
  · rename_i hroom
    have hsmall : (n % base + 1) / base = 0 := Nat.div_eq_of_lt (by omega)
    rw [hsmall, Nat.zero_add]

/-- The order of numbers is the order of their words. -/
theorem lt_iff_div_mod :
    n < m ↔ n / base < m / base ∨ n / base = m / base ∧ n % base < m % base := by
  have hn : n % base + base * (n / base) = n := Nat.mod_add_div n base
  have hm : m % base + base * (m / base) = m := Nat.mod_add_div m base
  constructor
  · intro h
    rcases Nat.lt_or_eq_of_le (Nat.div_le_div_right (c := base) (Nat.le_of_lt h)) with hlt | heq
    · exact Or.inl hlt
    · refine Or.inr ⟨heq, ?_⟩
      rw [heq] at hn
      omega
  · rintro (hlt | ⟨heq, hlt⟩)
    · exact Nat.lt_of_div_lt_div hlt
    · rw [heq] at hn
      omega

end Words

end Lib

import Caprese.Kernel.Boot
import Caprese.Kernel.Mapping
import Caprese.Kernel.Revoke
import Caprese.Lib.Steps
import Caprese.Lib.Words

/-!
# `Caprese.Proofs.Identifiers`: no identifier is issued twice

The counter behind `make_unique_id_cap` is a number of three words, of which the first one has to
fit into 59 bits. The call number `n` issues the identifier of the words of `n` (`issued_words`), and
`compare_id_cap` compares identifiers as these numbers. So the identifiers of a run are in order
(`ids_increase`).
-/

set_option autoImplicit false

namespace Caprese

open Lib Prog

variable {env : Env} {k k' : Kernel} {n m : Nat} {a b c : IdCap} {s s' : SlotPtr}

/-! ### The counter -/

/-- The number `n` in words of 64 bits. -/
def idWords (n : Nat) : Nat × Nat × Nat := (n / 2 ^ 64 / 2 ^ 64, n / 2 ^ 64 % 2 ^ 64, n % 2 ^ 64)

/-- The identifier of the words of `n`. -/
def idOf (n : Nat) : IdCap := ⟨n / 2 ^ 64 / 2 ^ 64, n / 2 ^ 64 % 2 ^ 64, n % 2 ^ 64⟩

/-- The first word of a number of 187 bits has 59. -/
theorem first_word_lt (h : n < 2 ^ 187) : n / 2 ^ 64 / 2 ^ 64 < 2 ^ 59 := by
  rw [Nat.div_div_eq_div_mul]
  refine Nat.div_lt_of_lt_mul ?_
  rwa [← Nat.pow_add, ← Nat.pow_add]

theorem succId_words (h : n < 2 ^ 187) : succId (idWords n) = idWords (n + 1) := by
  have hpos : 0 < 2 ^ 64 := by decide
  have hfirst : n / 2 ^ 64 / 2 ^ 64 < 2 ^ 59 := first_word_lt h
  have hlow := Words.succ_mod (n := n) hpos
  have hhigh := Words.succ_div (n := n) hpos
  unfold succId idWords
  dsimp only
  by_cases hlast : n % 2 ^ 64 = 2 ^ 64 - 1
  · rw [if_pos hlast] at hlow hhigh ⊢
    rw [hlow, hhigh]
    have hlow' := Words.succ_mod (n := n / 2 ^ 64) hpos
    have hhigh' := Words.succ_div (n := n / 2 ^ 64) hpos
    by_cases hmiddle : n / 2 ^ 64 % 2 ^ 64 = 2 ^ 64 - 1
    · rw [if_pos hmiddle] at hlow' hhigh' ⊢
      rw [hlow', hhigh', Nat.mod_eq_of_lt]
      omega
    · rw [if_neg hmiddle] at hlow' hhigh' ⊢
      rw [hlow', hhigh']
  · rw [if_neg hlast] at hlow hhigh ⊢
    rw [hlow, hhigh]

/-! ### The order of identifiers -/

/-- What `compare_id_cap` answers for two identifiers. -/
def IdCap.compare (a b : IdCap) : Int :=
  if a.val1 < b.val1 then -1
  else if a.val1 > b.val1 then 1
  else if a.val2 < b.val2 then -1
  else if a.val2 > b.val2 then 1
  else if a.val3 < b.val3 then -1
  else if a.val3 > b.val3 then 1
  else 0

theorem idCap_run (hs : k.cap s = .id a) : idCap s env k = .ok a k := by
  unfold idCap
  rw [bind_of_ok (show (get : K Kernel) env k = .ok k k from rfl), hs]
  rfl

/-- The assertions of `compare_id_cap` ask for two identifiers. -/
theorem compareIdCap_run (hs : k.cap s = .id a) (hs' : k.cap s' = .id b) :
    compareIdCap s s' env k = .ok (a.compare b) k := by
  unfold compareIdCap
  rw [bind_of_ok (idCap_run hs), bind_of_ok (idCap_run hs')]
  rfl

theorem isSameCap_run (hs : k.cap s = .id a) (hs' : k.cap s' = .id b) :
    isSameCap s s' env k = .ok (decide (a = b)) k := by
  have hsame : (decide (a.val1 = b.val1) && decide (a.val2 = b.val2) && decide (a.val3 = b.val3))
      = decide (a = b) := by
    obtain ⟨a1, a2, a3⟩ := a
    obtain ⟨b1, b2, b3⟩ := b
    simp only [IdCap.mk.injEq, Bool.decide_and, Bool.and_assoc]
  have hget : (get : K Kernel) env k = .ok k k := rfl
  unfold isSameCap
  rw [bind_of_ok hget, bind_of_ok hget, hs, hs', ← hsame]
  rfl

/-- `a` comes first: the first words that differ tell. -/
def IdCap.Before (a b : IdCap) : Prop :=
  a.val1 < b.val1 ∨ a.val1 = b.val1 ∧ (a.val2 < b.val2 ∨ a.val2 = b.val2 ∧ a.val3 < b.val3)

instance (a b : IdCap) : Decidable (a.Before b) := inferInstanceAs (Decidable (_ ∨ _))

namespace IdCap

theorem compare_eq (a b : IdCap) :
    a.compare b = if a.Before b then -1 else if b.Before a then 1 else 0 := by
  unfold compare Before
  split_ifs <;> omega

theorem Before.asymm (h : a.Before b) : ¬ b.Before a := by
  unfold Before at h ⊢
  omega

theorem Before.trans (h : a.Before b) (h' : b.Before c) : a.Before c := by
  unfold Before at h h' ⊢
  omega

theorem before_total (a b : IdCap) : a.Before b ∨ a = b ∨ b.Before a := by
  obtain ⟨a1, a2, a3⟩ := a
  obtain ⟨b1, b2, b3⟩ := b
  unfold Before
  simp only [mk.injEq]
  omega

theorem compare_neg_one : a.compare b = -1 ↔ a.Before b := by
  rw [compare_eq]
  split_ifs <;> simp_all

theorem compare_one : a.compare b = 1 ↔ b.Before a := by
  rw [compare_eq]
  constructor
  · intro h
    split_ifs at h with h₁ h₂
    · exact h₂
    · exact absurd h (by decide)
  · intro h
    rw [if_neg h.asymm, if_pos h]

theorem compare_zero : a.compare b = 0 ↔ a = b := by
  constructor
  · intro h
    rcases before_total a b with hlt | heq | hlt
    · rw [compare_neg_one.mpr hlt] at h
      exact absurd h (by decide)
    · exact heq
    · rw [compare_one.mpr hlt] at h
      exact absurd h (by decide)
  · rintro rfl
    rw [compare_eq, if_neg fun h => h.asymm h, if_neg fun h => h.asymm h]

end IdCap

/-- The numbers are compared as their words are. -/
theorem idOf_before (h : n < m) : (idOf n).Before (idOf m) := by
  rcases Words.lt_iff_div_mod.mp h with hhigh | ⟨heq, hlow⟩
  · rcases Words.lt_iff_div_mod.mp hhigh with hfirst | ⟨heq, hmiddle⟩
    · exact Or.inl hfirst
    · exact Or.inr ⟨heq, Or.inl hmiddle⟩
  · refine Or.inr ⟨?_, Or.inr ⟨?_, hlow⟩⟩
    · show n / 2 ^ 64 / 2 ^ 64 = m / 2 ^ 64 / 2 ^ 64
      rw [heq]
    · show n / 2 ^ 64 % 2 ^ 64 = m / 2 ^ 64 % 2 ^ 64
      rw [heq]

/-! ### Runs -/

/-- A call of `make_unique_id_cap`, or anything else: no other function names the counter. -/
inductive IdStep (env : Env) (k : Kernel) : Option Capability → Kernel → Prop
  | issue {cap : Capability} {k' : Kernel} (run : makeUniqueIdCap env k = .ok cap k') :
      IdStep env k (some cap) k'
  | other {k' : Kernel} (same : k'.nextId = k.nextId) : IdStep env k none k'

/-- The identifiers that a run issues, in this order. -/
def issued (acts : List (Option Capability)) : List Capability := acts.filterMap id

/-- The call number `n` issues the words of `n`. Below 2^187 the assertion of `make_id_cap` holds. -/
theorem makeUniqueIdCap_run (env : Env) (hk : k.nextId = idWords n) (hn : n < 2 ^ 187) :
    ∃ k', makeUniqueIdCap env k = .ok (.id (idOf n)) k' ∧ k'.nextId = idWords (n + 1) := by
  have hfirst : n / 2 ^ 64 / 2 ^ 64 < 2 ^ 59 := first_word_lt hn
  have hwp : wp makeUniqueIdCap env
      (fun cap k' => cap = .id (idOf n) ∧ k'.nextId = idWords (n + 1)) (fun _ _ => False) k := by
    unfold makeUniqueIdCap makeIdCap
    rw [wp_bind, wp_get, hk]
    dsimp only [idWords]
    rw [wp_bind, wp_modify, wp_bind]
    refine wp_kassert_holds hfirst ?_
    rw [wp_pure]
    refine ⟨?_, ?_⟩
    · rw [Nat.mod_eq_of_lt hfirst]
      rfl
    · show succId k.nextId = idWords (n + 1)
      rw [hk, succId_words hn]
  obtain ⟨cap, k', hrun, rfl, hnext⟩ := wp_returns hwp
  exact ⟨k', hrun, hnext⟩

/-- The counter is the number of the identifiers that were issued, and these are its values. -/
theorem issued_words {k₀ : Kernel} {acts : List (Option Capability)} (h₀ : k₀.nextId = (0, 0, 0))
    (hrun : Steps (IdStep env) k₀ acts k) (hfew : (issued acts).length < 2 ^ 187) :
    k.nextId = idWords (issued acts).length ∧
      ∀ (i : Nat) (cap : Capability), (issued acts)[i]? = some cap → cap = .id (idOf i) := by
  induction hrun with
  | nil => exact ⟨h₀, fun i cap hi => nomatch hi⟩
  | @snoc acts act k k' _ hstep ih =>
    have hsnoc : issued (acts ++ [act]) = issued acts ++ act.toList := by
      cases act <;> simp [issued]
    rw [hsnoc] at hfew ⊢
    rw [List.length_append] at hfew
    obtain ⟨hnext, hissued⟩ := ih (by omega)
    cases hstep with
    | issue hcall =>
      have hn : (issued acts).length < 2 ^ 187 := by omega
      obtain ⟨k₁, hcall₁, hnext₁⟩ := makeUniqueIdCap_run env hnext hn
      obtain ⟨rfl, rfl⟩ := Outcome.ok.inj (hcall.symm.trans hcall₁)
      refine ⟨by simpa using hnext₁, fun i cap hi => ?_⟩
      rcases Nat.lt_or_ge i (issued acts).length with hlt | hge
      · rw [List.getElem?_append_left hlt] at hi
        exact hissued i cap hi
      · rw [List.getElem?_append_right hge] at hi
        have hlast : i - (issued acts).length = 0 := by
          by_contra hne
          obtain ⟨j, hj⟩ := Nat.exists_eq_succ_of_ne_zero hne
          rw [hj] at hi
          exact nomatch hi
        have heq : i = (issued acts).length := by omega
        rw [hlast] at hi
        rw [← Option.some.inj hi, heq]
    | other hsame =>
      refine ⟨by simpa [hsame] using hnext, fun i cap hi => hissued i cap (by simpa using hi)⟩

/-! ### What the system calls see -/

/-- `compare_id_cap` is a total order, and answers 0 where `is_same_cap` answers true. -/
structure ComparesInOrder : Prop where
  answers : ∀ env k s s' a b, k.cap s = .id a → k.cap s' = .id b →
    ∃ r, compareIdCap s s' env k = .ok r k ∧ compareIdCap s' s env k = .ok (-r) k ∧
      (r = -1 ∨ r = 0 ∨ r = 1)
  trans : ∀ env k s s' s'' a b c, k.cap s = .id a → k.cap s' = .id b → k.cap s'' = .id c →
    ∀ r r', compareIdCap s s' env k = .ok r k → compareIdCap s' s'' env k = .ok r' k →
      r ≤ 0 → r' ≤ 0 → ∃ r'', compareIdCap s s'' env k = .ok r'' k ∧ r'' ≤ 0
  zero : ∀ env k s s' a b, k.cap s = .id a → k.cap s' = .id b →
    (compareIdCap s s' env k = .ok 0 k ↔ isSameCap s s' env k = .ok true k)

theorem IdCap.compare_swap (a b : IdCap) : b.compare a = -a.compare b := by
  rcases before_total a b with hlt | rfl | hlt
  · rw [compare_neg_one.mpr hlt, compare_one.mpr hlt]
    rfl
  · rw [compare_zero.mpr rfl]
    rfl
  · rw [compare_neg_one.mpr hlt, compare_one.mpr hlt]

theorem IdCap.compare_nonpos : a.compare b ≤ 0 ↔ ¬ b.Before a := by
  rw [compare_eq]
  split_ifs with h h'
  · exact iff_of_true (by decide) h.asymm
  · exact iff_of_false (by decide) (not_not.mpr h')
  · exact iff_of_true (by decide) h'

theorem comparesInOrder : ComparesInOrder where
  answers env k s s' a b hs hs' := by
    refine ⟨a.compare b, compareIdCap_run hs hs', ?_, ?_⟩
    · rw [compareIdCap_run hs' hs, IdCap.compare_swap]
    · rw [IdCap.compare_neg_one, IdCap.compare_zero, IdCap.compare_one]
      exact IdCap.before_total a b
  trans env k s s' s'' a b c hs hs' hs'' r r' hr hr' hle hle' := by
    rw [compareIdCap_run hs hs'] at hr
    rw [compareIdCap_run hs' hs''] at hr'
    obtain ⟨rfl, -⟩ := Outcome.ok.inj hr
    obtain ⟨rfl, -⟩ := Outcome.ok.inj hr'
    refine ⟨_, compareIdCap_run hs hs'', ?_⟩
    rw [IdCap.compare_nonpos] at hle hle' ⊢
    intro hlt
    rcases IdCap.before_total a b with h | rfl | h
    · exact hle' (hlt.trans h)
    · exact hle' hlt
    · exact hle h
  zero env k s s' a b hs hs' := by
    rw [compareIdCap_run hs hs', isSameCap_run hs hs', Outcome.ok.injEq, Outcome.ok.injEq]
    simp only [and_true, decide_eq_true_eq]
    exact IdCap.compare_zero

/-- The identifiers of a run with fewer than 2^187 calls are issued in order, none of them twice,
the next call does not fail, and `compare_id_cap` tells the order. -/
theorem ids_increase {k₀ : Kernel} {acts : List (Option Capability)} (h₀ : k₀.nextId = (0, 0, 0))
    (hrun : Steps (IdStep env) k₀ acts k) (hfew : (issued acts).length < 2 ^ 187) :
    (∀ (i j : Nat) (cap cap' : Capability), i < j → (issued acts)[i]? = some cap → (issued acts)[j]? = some cap' →
      ∃ a b, cap = .id a ∧ cap' = .id b ∧ a ≠ b ∧ ∀ env k s s', k.cap s = .id a →
        k.cap s' = .id b → compareIdCap s s' env k = .ok (-1) k ∧ compareIdCap s' s env k = .ok 1 k) ∧
    (∃ cap k', makeUniqueIdCap env k = .ok cap k') ∧ ComparesInOrder := by
  obtain ⟨hnext, hissued⟩ := issued_words h₀ hrun hfew
  refine ⟨fun i j cap cap' hij hi hj => ?_, ?_, comparesInOrder⟩
  · have hbefore : (idOf i).Before (idOf j) := idOf_before hij
    refine ⟨idOf i, idOf j, hissued i cap hi, hissued j cap' hj, fun heq => ?_,
      fun env k s s' hs hs' => ⟨?_, ?_⟩⟩
    · rw [heq] at hbefore
      exact hbefore.asymm hbefore
    · rw [compareIdCap_run hs hs', IdCap.compare_neg_one.mpr hbefore]
    · rw [compareIdCap_run hs' hs, IdCap.compare_one.mpr hbefore]
  · obtain ⟨k', hcall, -⟩ := makeUniqueIdCap_run env hnext hfew
    exact ⟨_, k', hcall⟩

/-- The first two identifiers. -/
theorem ids_increase_two : ∃ (env : Env) (k : Kernel) (acts : List (Option Capability)),
    Steps (IdStep env) Kernel.powerOn acts k ∧ issued acts = [.id ⟨0, 0, 0⟩, .id ⟨0, 0, 1⟩] ∧
    ∃ cap k', makeUniqueIdCap env k = .ok cap k' := by
  let env : Env := ⟨false, ⟨0, 0, 0, fun _ => ⟨0, 0, 0, 0, 0, []⟩, fun _ => [], 0, 0⟩⟩
  obtain ⟨k₁, hfirst, hk₁⟩ := makeUniqueIdCap_run (k := Kernel.powerOn) (n := 0) env rfl (by decide)
  obtain ⟨k₂, hsecond, -⟩ := makeUniqueIdCap_run (n := 1) env hk₁ (by decide)
  have hrun : Steps (IdStep env) Kernel.powerOn ([some (.id (idOf 0))] ++ [some (.id (idOf 1))]) k₂ :=
    .snoc (.single (.issue hfirst)) (.issue hsecond)
  have hnext := (ids_increase rfl hrun (by decide)).2.1
  exact ⟨env, k₂, _, hrun, by decide, hnext⟩

end Caprese

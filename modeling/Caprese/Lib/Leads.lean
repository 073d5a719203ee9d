import Caprese.Lib.Chains
import Mathlib.Data.List.Basic

/-!
# `Caprese.Lib.Leads`: nodes that stand for a later one

The nodes of disjoint lists carry values, and a node whose value is `hole` stands for the first
node behind it that has another one. `Leads` says that there is such a node, and that it has the
value that is due to the hole. `Leads.splice` is what an exchange of a part of one list has to
meet to keep this.
-/

set_option autoImplicit false

namespace Lib

namespace Chains

variable {ν β : Type} [DecidableEq β] {hole v : β} {f g due due' : ν → β} {C : Set (List ν)}
  {x y z : ν} {a b l l' m m' : List ν}

/-- The first value on a list that is no hole. -/
def behind (hole : β) (f : ν → β) (l : List ν) : Option β := (l.map f).find? (· ≠ hole)

/-- Behind each hole comes the value that is due to it. -/
def Leads (hole : β) (f due : ν → β) (C : Set (List ν)) : Prop :=
  ∀ a x b, a ++ x :: b ∈ C → f x = hole → behind hole f b = some (due x)

/-- A node of two lists in a row is in the first or in the second one. -/
theorem split_append (h : a ++ x :: b = l ++ l') :
    (∃ r, l = a ++ x :: r ∧ b = r ++ l') ∨ ∃ r, l' = r ++ x :: b := by
  rcases List.append_eq_append_iff.mp h with ⟨r, rfl, hr⟩ | ⟨r, rfl, rfl⟩
  · cases r with
    | nil => exact Or.inr ⟨[], hr.symm⟩
    | cons w r =>
      rw [List.cons_append, List.cons.injEq] at hr
      obtain ⟨rfl, rfl⟩ := hr
      exact Or.inl ⟨r, rfl, rfl⟩
  · exact Or.inr ⟨r, rfl⟩

/-! ### The first value -/

theorem behind_cons_hole (h : f x = hole) : behind hole f (x :: l) = behind hole f l := by
  simp [behind, h]

theorem behind_cons_value (h : f x ≠ hole) : behind hole f (x :: l) = some (f x) := by
  simp [behind, h]

theorem behind_append : behind hole f (l ++ l') = (behind hole f l).or (behind hole f l') := by
  unfold behind
  rw [List.map_append, List.find?_append]

theorem behind_congr (h : ∀ z ∈ l, g z = f z) : behind hole g l = behind hole f l := by
  unfold behind
  rw [List.map_congr_left h]

theorem behind_eq_none : behind hole f l = none ↔ ∀ z ∈ l, f z = hole := by simp [behind]

/-- The node that has the first value, and the holes in front of it. -/
theorem behind_split (h : behind hole f l = some v) :
    ∃ m e b, l = m ++ e :: b ∧ (∀ z ∈ m, f z = hole) ∧ f e ≠ hole ∧ f e = v := by
  induction l with
  | nil => exact absurd h (by simp [behind])
  | cons x l ih =>
    by_cases hx : f x = hole
    · rw [behind_cons_hole hx] at h
      obtain ⟨m, e, b, rfl, hm, he⟩ := ih h
      refine ⟨x :: m, e, b, rfl, fun z hz => ?_, he⟩
      rcases List.mem_cons.mp hz with rfl | hz
      · exact hx
      · exact hm z hz
    · rw [behind_cons_value hx] at h
      exact ⟨[], x, l, rfl, by simp, hx, Option.some.inj h⟩

/-! ### Changes -/

/-- What is due matters for the holes only. -/
theorem Leads.due_congr (h : Leads hole f due C) (hdue : ∀ z, f z = hole → due' z = due z) :
    Leads hole f due' C := fun a x b hl hx => by rw [hdue x hx, h a x b hl hx]

/-- A list of one node that is no hole. -/
theorem Leads.single (h : Leads hole f due C) (hgy : g y ≠ hole)
    (hg : ∀ z, z ≠ y → g z = f z) : Leads hole g due (rewrite C y [y]) := by
  rintro a x b (⟨hl, hyl, -⟩ | ⟨heq, -⟩) hx
  · have hsame : ∀ z ∈ a ++ x :: b, g z = f z := fun z hz =>
      hg z fun heq => hyl (heq ▸ hz)
    rw [behind_congr fun z hz => hsame z (by simp [hz])]
    exact h a x b hl ((hsame x (by simp)).symm.trans hx)
  · have hxy : x ∈ [y] := heq ▸ (by simp : x ∈ a ++ x :: b)
    exact absurd (List.mem_singleton.mp hxy ▸ hx) hgy

/-- The part `m` of a list is exchanged for `m'`. The holes in front of it are not disturbed if
what follows them begins with the same value, and the holes of the new part are asked for. -/
theorem Leads.splice (h : Leads hole f due C) (hC : Valid C) (hl : a ++ m ++ b ∈ C) (hy : y ∈ m)
    (hg : ∀ z, z ∉ m → z ∉ m' → g z = f z) (hnew : ∀ z ∈ m', z ∈ m ∨ Fresh C z)
    (hfront : ∀ p, a.getLast? = some p → f p = hole →
      behind hole g (m' ++ b) = behind hole f (m ++ b))
    (hpart : ∀ l z l', m' = l ++ z :: l' → g z = hole → behind hole g (l' ++ b) = some (due z)) :
    Leads hole g due (rewrite C y (a ++ m' ++ b)) := by
  have hnd := hC.nodup _ hl
  -- A node of the list outside of the part is in neither of the two parts.
  have hout : ∀ z, z ∈ a ∨ z ∈ b → g z = f z := by
    intro z hz
    have hzm : z ∉ m := by
      rw [List.append_assoc, List.nodup_append, List.nodup_append] at hnd
      obtain ⟨-, ⟨-, -, hmb⟩, ha⟩ := hnd
      rcases hz with hz | hz
      · exact fun hzm => ha z hz z (List.mem_append_left b hzm) rfl
      · exact fun hzm => hmb z hzm z hz rfl
    refine hg z hzm fun hzm' => ?_
    rcases hnew z hzm' with hin | hfresh
    · exact hzm hin
    · exact hfresh _ hl (by rcases hz with hz | hz <;> simp [hz])
  rintro c x d (⟨hold, hyl, hdis⟩ | ⟨heq, -⟩) hx
  · -- Another list: it shares no node with the changed one.
    have hsame : ∀ z ∈ c ++ x :: d, g z = f z := by
      intro z hz
      refine hg z (fun hzm => hyl ?_) fun hzm' => hdis z (by simp [hzm']) hz
      have heq := hC.unique _ hold _ hl z hz (by simp [hzm])
      rw [heq]
      simp [hy]
    rw [behind_congr fun z hz => hsame z (by simp [hz])]
    exact h c x d hold ((hsame x (by simp)).symm.trans hx)
  · rw [List.append_assoc] at heq
    rcases split_append heq with ⟨r, rfl, rfl⟩ | ⟨l, hl'⟩
    · -- The hole is in front of the part.
      have hfx : f x = hole := (hout x (by simp)).symm.trans hx
      have hdue := h c x (r ++ (m ++ b)) (by simpa using hl) hfx
      have hr : behind hole g r = behind hole f r :=
        behind_congr fun z hz => hout z (by simp [hz])
      rw [behind_append] at hdue ⊢
      rw [hr]
      cases hv : behind hole f r with
      | some v =>
        rw [hv] at hdue
        exact hdue
      | none =>
        -- Only holes lie between, so the last node in front of the part is one.
        obtain ⟨p, hp, hfp⟩ : ∃ p, (c ++ x :: r).getLast? = some p ∧ f p = hole := by
          rw [List.getLast?_append, List.getLast?_cons, Option.some_or]
          refine ⟨_, rfl, ?_⟩
          cases hlast : r.getLast? with
          | none => exact hfx
          | some p => exact behind_eq_none.mp hv p (List.mem_of_getLast? hlast)
        rw [hv, Option.none_or] at hdue
        rw [Option.none_or, hfront p hp hfp]
        exact hdue
    · rcases split_append hl'.symm with ⟨r, rfl, rfl⟩ | ⟨l, rfl⟩
      · exact hpart l x r rfl hx
      · -- The hole is behind the part.
        have hfx : f x = hole := (hout x (by simp)).symm.trans hx
        rw [behind_congr fun z hz => hout z (by simp [hz])]
        exact h (a ++ m ++ l) x d (by simpa using hl) hfx

end Chains

end Lib

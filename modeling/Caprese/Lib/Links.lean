import Caprese.Lib.Prog
import Mathlib.Data.List.Basic
import Mathlib.Data.List.Nodup
import Mathlib.Data.Option.Basic

/-!
# `Caprese.Lib.Links`: doubly linked lists stored in their nodes

A `Links ν` gives every node of `ν` a previous and a next node. `L.IsList l` says that `l`,
read in order, is a whole doubly linked list of `L`: inverse links inside, none at the two
ends. `L.WellFormed` says that every node lies on such a list, so that no chain of links
is cyclic, one-sided or shared.

The lists are determined by their nodes: `IsList.nodup` (no node twice), `IsList.eq_of_mem`
(two lists with a common node are equal). The four splices of a linked list program, `erase`,
`insertBefore`, `insertAfter` and `replace`, are given as the code writes them, field by
field. Each has a lemma for the list it works on (`IsList.erase` and so on) and keeps
`WellFormed`.
-/

set_option autoImplicit false

namespace Lib

/-- Previous and next node of each node. -/
@[ext] structure Links (ν : Type) where
  prev : ν → Option ν
  next : ν → Option ν

namespace Links

variable {ν : Type}

/-- `l` is a run of inverse links that is entered from `p` and left to `q`. -/
def Linked (L : Links ν) : Option ν → List ν → Option ν → Prop
  | _, [], _ => True
  | p, x :: l, q => L.prev x = p ∧ L.next x = l.head?.or q ∧ Linked L (some x) l q

/-- `l` is a whole doubly linked list. -/
def IsList (L : Links ν) (l : List ν) : Prop := L.Linked none l none

instance instDecidableLinked [DecidableEq ν] (L : Links ν) :
    (p : Option ν) → (l : List ν) → (q : Option ν) → Decidable (L.Linked p l q)
  | _, [], _ => .isTrue trivial
  | p, x :: l, q =>
    have := instDecidableLinked L (some x) l q
    inferInstanceAs (Decidable (L.prev x = p ∧ L.next x = l.head?.or q ∧ L.Linked (some x) l q))

instance [DecidableEq ν] (L : Links ν) (l : List ν) : Decidable (L.IsList l) :=
  inferInstanceAs (Decidable (L.Linked none l none))

/-- The links read from the other end. -/
def swap (L : Links ν) : Links ν := ⟨L.next, L.prev⟩

/-- Every node lies on a doubly linked list. -/
def WellFormed (L : Links ν) : Prop := ∀ x, ∃ l, x ∈ l ∧ L.IsList l

variable {L L' : Links ν} {p q : Option ν} {a b l l' : List ν} {x y : ν}

@[simp] theorem isList_nil : L.IsList [] := trivial

@[simp] theorem isList_singleton : L.IsList [x] ↔ L.prev x = none ∧ L.next x = none := by
  simp [IsList, Linked]

theorem linked_append :
    L.Linked p (a ++ b) q ↔ L.Linked p a (b.head?.or q) ∧ L.Linked (a.getLast?.or p) b q := by
  induction a generalizing p with
  | nil => simp [Linked]
  | cons x a ih =>
    have hlast : (x :: a).getLast?.or p = a.getLast?.or (some x) := by
      cases ha : a.getLast? <;> simp [List.getLast?_cons, ha]
    rw [hlast]
    simp only [List.cons_append, Linked, ih, List.head?_append, Option.or_assoc]
    tauto

theorem Linked.congr (h : L.Linked p l q)
    (hl : ∀ x ∈ l, L'.prev x = L.prev x ∧ L'.next x = L.next x) : L'.Linked p l q := by
  induction l generalizing p with
  | nil => trivial
  | cons x l ih =>
    obtain ⟨hp, hn, ht⟩ := h
    have hx := hl x List.mem_cons_self
    exact ⟨hx.1.trans hp, hx.2.trans hn, ih ht fun y hy => hl y (List.mem_cons_of_mem x hy)⟩

theorem IsList.congr (h : L.IsList l)
    (hl : ∀ x ∈ l, L'.prev x = L.prev x ∧ L'.next x = L.next x) : L'.IsList l :=
  Linked.congr h hl

/-- Reading a run from the other end reverses it. -/
theorem Linked.swap_reverse (h : L.Linked p l q) : L.swap.Linked q l.reverse p := by
  induction l generalizing p with
  | nil => trivial
  | cons x l ih =>
    obtain ⟨hp, hn, ht⟩ := h
    rw [List.reverse_cons, linked_append]
    refine ⟨ih ht, ?_, ?_, trivial⟩
    · show L.next x = _
      rw [hn, List.getLast?_reverse]
    · exact hp

/-! ### Neighbours of a node on its list -/

theorem isList_split :
    L.IsList (a ++ x :: b) ↔ L.Linked none a (some x) ∧ L.prev x = a.getLast? ∧
      L.next x = b.head? ∧ L.Linked (some x) b none := by
  rw [IsList, linked_append]
  simp [Linked]

theorem IsList.prev_eq (h : L.IsList (a ++ x :: b)) : L.prev x = a.getLast? :=
  (isList_split.mp h).2.1

theorem IsList.next_eq (h : L.IsList (a ++ x :: b)) : L.next x = b.head? :=
  (isList_split.mp h).2.2.1

/-- What follows a node up to the end of its list is determined by the node. -/
theorem Linked.tail_unique {p' : Option ν} (h : L.Linked p (x :: l) none)
    (h' : L.Linked p' (x :: l') none) : l = l' := by
  induction l generalizing x p p' l' with
  | nil =>
    have hn : l'.head? = none := by simpa using h'.2.1.symm.trans h.2.1
    exact (List.head?_eq_none_iff.mp hn).symm
  | cons y l ih =>
    have hn : l'.head? = some y := by simpa using h'.2.1.symm.trans h.2.1
    obtain ⟨t, rfl⟩ := List.head?_eq_some_iff.mp hn
    rw [ih h.2.2 h'.2.2]

/-- A node occurs once on its list. -/
theorem Linked.nodup (h : L.Linked p l none) : l.Nodup := by
  induction l generalizing p with
  | nil => exact List.nodup_nil
  | cons x l ih =>
    refine List.nodup_cons.mpr ⟨fun hx => ?_, ih h.2.2⟩
    -- A second `x` would repeat its own tail inside that tail.
    obtain ⟨a, b, rfl⟩ := List.append_of_mem hx
    have hb : L.Linked (a.getLast?.or (some x)) (x :: b) none := (linked_append.mp h.2.2).2
    have hlen := congrArg List.length (h.tail_unique hb)
    simp at hlen
    omega

theorem IsList.nodup (h : L.IsList l) : l.Nodup := Linked.nodup h

/-- Two lists with a common node are the same list, cut at the same place. -/
theorem IsList.split_unique {a' b' : List ν} (h : L.IsList (a ++ x :: b))
    (h' : L.IsList (a' ++ x :: b')) : a = a' ∧ b = b' := by
  have htail : b = b' := by
    have h₁ := (linked_append.mp h).2
    have h₂ := (linked_append.mp h').2
    exact h₁.tail_unique h₂
  have hrev : a.reverse = a'.reverse := by
    have h₁ := Linked.swap_reverse h
    have h₂ := Linked.swap_reverse h'
    simp only [List.reverse_append, List.reverse_cons, List.append_assoc,
      List.singleton_append] at h₁ h₂
    exact (linked_append.mp h₁).2.tail_unique (linked_append.mp h₂).2
  exact ⟨List.reverse_injective hrev, htail⟩

theorem IsList.eq_of_mem (h : L.IsList l) (h' : L.IsList l') (hx : x ∈ l) (hx' : x ∈ l') :
    l = l' := by
  obtain ⟨a, b, rfl⟩ := List.append_of_mem hx
  obtain ⟨a', b', rfl⟩ := List.append_of_mem hx'
  obtain ⟨rfl, rfl⟩ := h.split_unique h'
  rfl

theorem IsList.next_mem (h : L.IsList l) (hx : x ∈ l) (hn : L.next x = some y) : y ∈ l := by
  obtain ⟨a, b, rfl⟩ := List.append_of_mem hx
  rw [h.next_eq] at hn
  simp [List.mem_of_head? hn]

theorem IsList.prev_mem (h : L.IsList l) (hx : x ∈ l) (hp : L.prev x = some y) : y ∈ l := by
  obtain ⟨a, b, rfl⟩ := List.append_of_mem hx
  rw [h.prev_eq] at hp
  simp [List.mem_of_getLast? hp]

/-- On a list the links are inverse to each other. -/
theorem IsList.next_iff_prev (h : L.IsList l) (hx : x ∈ l) (hy : y ∈ l) :
    L.next x = some y ↔ L.prev y = some x := by
  constructor
  · intro hn
    obtain ⟨a, b, rfl⟩ := List.append_of_mem hx
    rw [h.next_eq] at hn
    obtain ⟨t, rfl⟩ := List.head?_eq_some_iff.mp hn
    have h' : L.IsList ((a ++ [x]) ++ y :: t) := by simpa using h
    simpa using h'.prev_eq
  · intro hp
    obtain ⟨a, b, rfl⟩ := List.append_of_mem hy
    rw [h.prev_eq] at hp
    obtain ⟨t, rfl⟩ := List.getLast?_eq_some_iff.mp hp
    have h' : L.IsList (t ++ x :: (y :: b)) := by simpa using h
    simpa using h'.next_eq

theorem WellFormed.next_iff_prev (h : L.WellFormed) : L.next x = some y ↔ L.prev y = some x := by
  constructor
  · intro hn
    obtain ⟨l, hx, hl⟩ := h x
    exact (hl.next_iff_prev hx (hl.next_mem hx hn)).mp hn
  · intro hp
    obtain ⟨l, hy, hl⟩ := h y
    exact (hl.next_iff_prev (hl.prev_mem hy hp) hy).mpr hp

/-! ### Changing the two ends of a run -/

/-- A run whose last node is redirected to `q'`. -/
theorem Linked.reend {q' : Option ν} (h : L.Linked p l q) (hnd : l.Nodup)
    (hprev : ∀ x ∈ l, L'.prev x = L.prev x)
    (hnext : ∀ x ∈ l, l.getLast? ≠ some x → L'.next x = L.next x)
    (hlast : ∀ x, l.getLast? = some x → L'.next x = q') : L'.Linked p l q' := by
  induction l generalizing p with
  | nil => trivial
  | cons x l ih =>
    obtain ⟨hp, hn, ht⟩ := h
    have hx : x ∉ l := (List.nodup_cons.mp hnd).1
    refine ⟨(hprev x List.mem_cons_self).trans hp, ?_, ?_⟩
    · cases l with
      | nil => simpa using hlast x rfl
      | cons y l =>
        have hne : (x :: y :: l).getLast? ≠ some x := fun h =>
          hx (List.mem_of_getLast? (by simpa [List.getLast?_cons_cons] using h))
        rw [hnext x List.mem_cons_self hne, hn]
        simp
    · have hgl : ∀ y, l.getLast? = some y → (x :: l).getLast? = some y := by
        intro y hy
        rw [List.getLast?_cons, hy]
        rfl
      refine ih ht (List.nodup_cons.mp hnd).2 (fun y hy => hprev y (List.mem_cons_of_mem x hy))
        (fun y hy hne => hnext y (List.mem_cons_of_mem x hy) fun h => hne ?_)
        (fun y hy => hlast y (hgl y hy))
      cases l with
      | nil => cases hy
      | cons z l => simpa [List.getLast?_cons_cons] using h

/-- A run whose first node is entered from `p'`. -/
theorem Linked.restart {p' : Option ν} (h : L.Linked p l q) (hnd : l.Nodup)
    (hnext : ∀ x ∈ l, L'.next x = L.next x)
    (hprev : ∀ x ∈ l, l.head? ≠ some x → L'.prev x = L.prev x)
    (hhead : ∀ x, l.head? = some x → L'.prev x = p') : L'.Linked p' l q := by
  cases l with
  | nil => trivial
  | cons x l =>
    obtain ⟨-, hn, ht⟩ := h
    refine ⟨hhead x rfl, (hnext x List.mem_cons_self).trans hn, ht.congr fun y hy => ?_⟩
    have hne : (x :: l).head? ≠ some y := by
      rintro ⟨⟩
      exact (List.nodup_cons.mp hnd).1 hy
    have hy' := List.mem_cons_of_mem x hy
    exact ⟨hprev y hy' hne, hnext y hy'⟩

/-! ### Changes inside a union of lists -/

/-- A change inside a union `S` of lists keeps the links well formed when every node of `S`
lies on a list afterwards. -/
theorem WellFormed.of_outside (h : L.WellFormed) (S : ν → Prop)
    (hS : ∀ l, L.IsList l → ∀ x ∈ l, S x → ∀ y ∈ l, S y)
    (hin : ∀ x, S x → ∃ l, x ∈ l ∧ L'.IsList l)
    (hout : ∀ x, ¬ S x → L'.prev x = L.prev x ∧ L'.next x = L.next x) : L'.WellFormed := by
  intro x
  by_cases hx : S x
  · exact hin x hx
  · obtain ⟨l, hxl, hl⟩ := h x
    exact ⟨l, hxl, hl.congr fun y hy => hout y fun hSy => hx (hS l hl y hy hSy x hxl)⟩

/-- A list together with a list of one node is a union of lists. -/
private theorem closed_with_singleton (hl : L.IsList l) (hy : L.IsList [y]) :
    ∀ l', L.IsList l' → ∀ z ∈ l', z ∈ l ∨ z = y → ∀ w ∈ l', w ∈ l ∨ w = y := by
  intro l' hl' z hz hzl w hw
  rcases hzl with hzl | rfl
  · exact Or.inl (hl'.eq_of_mem hl hz hzl ▸ hw)
  · exact Or.inr (by simpa [hl'.eq_of_mem hy hz (List.mem_singleton_self z)] using hw)

/-! ### The splices, field by field -/

section Splices

variable [DecidableEq ν]

/-- Takes `x` out: its two neighbours are joined and its own links cleared. -/
def erase (L : Links ν) (x : ν) : Links ν where
  prev := upd (match L.next x with
    | some n => upd L.prev n (L.prev x)
    | none => L.prev) x none
  next := upd (match L.prev x with
    | some p => upd L.next p (L.next x)
    | none => L.next) x none

/-- Puts `y` in front of `x`. -/
def insertBefore (L : Links ν) (x y : ν) : Links ν where
  prev := upd (match L.prev x with
    | some p => upd L.prev y (some p)
    | none => L.prev) x (some y)
  next := upd (match L.prev x with
    | some p => upd L.next p (some y)
    | none => L.next) y (some x)

/-- Puts the list that starts with `y` and ends with `t` behind `x`. -/
def insertAfter (L : Links ν) (x y t : ν) : Links ν where
  prev := upd (match L.next x with
    | some n => upd L.prev n (some t)
    | none => L.prev) y (some x)
  next := upd (match L.next x with
    | some n => upd L.next t (some n)
    | none => L.next) x (some y)

/-- Puts `x` in the place of `y`, whose links are cleared. -/
def replace (L : Links ν) (x y : ν) : Links ν where
  prev :=
    let f := match L.prev y with
      | some p => upd (upd L.prev x (some p)) y none
      | none => L.prev
    match L.next y with
    | some n => upd f n (some x)
    | none => f
  next :=
    let f := match L.prev y with
      | some p => upd L.next p (some x)
      | none => L.next
    match L.next y with
    | some n => upd (upd f x (some n)) y none
    | none => f

theorem erase_prev (z : ν) : (L.erase x).prev z
    = if z = x then none else if L.next x = some z then L.prev x else L.prev z := by
  unfold erase
  cases hn : L.next x with
  | none => simp [upd_apply]
  | some n => simp [upd_apply, eq_comm]

theorem erase_next (z : ν) : (L.erase x).next z
    = if z = x then none else if L.prev x = some z then L.next x else L.next z := by
  unfold erase
  cases hp : L.prev x with
  | none => simp [upd_apply]
  | some p => simp [upd_apply, eq_comm]

theorem insertBefore_prev (z : ν) : (L.insertBefore x y).prev z
    = if z = x then some y else if z = y ∧ (L.prev x).isSome then L.prev x else L.prev z := by
  unfold insertBefore
  cases hp : L.prev x <;> simp [upd_apply]

theorem insertBefore_next (z : ν) : (L.insertBefore x y).next z
    = if z = y then some x else if L.prev x = some z then some y else L.next z := by
  unfold insertBefore
  cases hp : L.prev x with
  | none => simp [upd_apply]
  | some p => simp [upd_apply, eq_comm]

theorem insertAfter_prev (t z : ν) : (L.insertAfter x y t).prev z
    = if z = y then some x else if L.next x = some z then some t else L.prev z := by
  unfold insertAfter
  cases hn : L.next x with
  | none => simp [upd_apply]
  | some n => simp [upd_apply, eq_comm]

theorem insertAfter_next (t z : ν) : (L.insertAfter x y t).next z
    = if z = x then some y else if z = t ∧ (L.next x).isSome then L.next x else L.next z := by
  unfold insertAfter
  cases hn : L.next x <;> simp [upd_apply]

/-- Erasing from the middle of a list leaves the two parts joined. -/
theorem IsList.erase (h : L.IsList (a ++ x :: b)) : (L.erase x).IsList (a ++ b) := by
  have hnd := h.nodup
  obtain ⟨hnda, hndb, hdisj⟩ := List.nodup_append.mp hnd
  obtain ⟨hxb, hndb⟩ := List.nodup_cons.mp hndb
  have hxa : ∀ z ∈ a, z ≠ x := fun z hz => hdisj z hz x List.mem_cons_self
  have hab : ∀ z ∈ a, z ∉ b := fun z hz hb => hdisj z hz z (List.mem_cons_of_mem x hb) rfl
  have hxb' : ∀ z ∈ b, z ≠ x := fun z hz h => hxb (h ▸ hz)
  obtain ⟨hla, hpx, hnx, hlb⟩ := isList_split.mp h
  rw [IsList, linked_append]
  constructor
  · refine hla.reend hnda (fun z hz => ?_) (fun z hz hne => ?_) (fun z hz => ?_)
    · have hnz : L.next x ≠ some z := fun h => hab z hz (List.mem_of_head? (hnx ▸ h))
      rw [erase_prev, if_neg (hxa z hz), if_neg hnz]
    · rw [erase_next, if_neg (hxa z hz), hpx, if_neg hne]
    · rw [erase_next, if_neg (hxa z (List.mem_of_getLast? hz)), hpx, if_pos hz, hnx]
      simp
  · refine hlb.restart hndb (fun z hz => ?_) (fun z hz hne => ?_) (fun z hz => ?_)
    · have hpz : L.prev x ≠ some z := fun h => hab z (List.mem_of_getLast? (hpx ▸ h)) hz
      rw [erase_next, if_neg (hxb' z hz), if_neg hpz]
    · rw [erase_prev, if_neg (hxb' z hz), hnx, if_neg hne]
    · rw [erase_prev, if_neg (hxb' z (List.mem_of_head? hz)), hnx, if_pos hz, hpx]
      simp

/-- An erased node is a list of its own. -/
theorem erase_isolated : (L.erase x).IsList [x] := by
  simp [erase_prev, erase_next]

/-- Erasing touches the list of the erased node only. -/
theorem IsList.erase_outside (h : L.IsList l) (hx : x ∈ l) (hy : y ∉ l) :
    (L.erase x).prev y = L.prev y ∧ (L.erase x).next y = L.next y := by
  have hyx : y ≠ x := fun h => hy (h ▸ hx)
  have hn : L.next x ≠ some y := fun hn => hy (h.next_mem hx hn)
  have hp : L.prev x ≠ some y := fun hp => hy (h.prev_mem hx hp)
  rw [erase_prev, erase_next, if_neg hyx, if_neg hn, if_neg hyx, if_neg hp]
  exact ⟨rfl, rfl⟩

/-- A node put behind `x` on a list of its own. -/
theorem IsList.insertAfter (h : L.IsList (a ++ x :: b)) (hy : L.IsList [y])
    (hyl : y ∉ a ++ x :: b) : (L.insertAfter x y y).IsList (a ++ x :: y :: b) := by
  have hnd := h.nodup
  obtain ⟨hnda, hndb, hdisj⟩ := List.nodup_append.mp hnd
  obtain ⟨hxb, hndb⟩ := List.nodup_cons.mp hndb
  have hxa : ∀ z ∈ a, z ≠ x := fun z hz => hdisj z hz x List.mem_cons_self
  have hab : ∀ z ∈ a, z ∉ b := fun z hz hb => hdisj z hz z (List.mem_cons_of_mem x hb) rfl
  have hxb' : ∀ z ∈ b, z ≠ x := fun z hz h => hxb (h ▸ hz)
  simp only [List.mem_append, List.mem_cons, not_or] at hyl
  obtain ⟨hya, hyx, hyb⟩ := hyl
  obtain ⟨hla, hpx, hnx, hlb⟩ := isList_split.mp h
  obtain ⟨-, hny⟩ := isList_singleton.mp hy
  rw [isList_split]
  refine ⟨hla.congr fun z hz => ⟨?_, ?_⟩, ?_, ?_, ?_, ?_, ?_⟩
  · have hnz : L.next x ≠ some z := fun h => hab z hz (List.mem_of_head? (hnx ▸ h))
    have hzy : z ≠ y := fun h => hya (h ▸ hz)
    rw [insertAfter_prev, if_neg hzy, if_neg hnz]
  · have hzy : z ≠ y := fun h => hya (h ▸ hz)
    rw [insertAfter_next, if_neg (hxa z hz), if_neg (mt And.left hzy)]
  · have hnz : L.next x ≠ some x := fun h => hxb (List.mem_of_head? (hnx ▸ h))
    rw [insertAfter_prev, if_neg (Ne.symm hyx), if_neg hnz, hpx]
  · rw [insertAfter_next, if_pos rfl]
    rfl
  · rw [insertAfter_prev, if_pos rfl]
  · rw [insertAfter_next, if_neg hyx]
    cases hb : b.head? with
    | none => simp [hnx, hb, hny]
    | some n => simp [hnx, hb]
  · refine hlb.restart hndb (fun z hz => ?_) (fun z hz hne => ?_) (fun z hz => ?_)
    · have hzy : z ≠ y := fun h => hyb (h ▸ hz)
      rw [insertAfter_next, if_neg (hxb' z hz), if_neg (mt And.left hzy)]
    · have hzy : z ≠ y := fun h => hyb (h ▸ hz)
      rw [insertAfter_prev, if_neg hzy, hnx, if_neg hne]
    · have hzy : z ≠ y := fun h => hyb (h ▸ List.mem_of_head? hz)
      rw [insertAfter_prev, if_neg hzy, hnx, if_pos hz]

/-- Insertion touches the list of `x` and the inserted node only. -/
theorem IsList.insertAfter_outside {z : ν} (h : L.IsList l) (hx : x ∈ l) (hz : z ∉ l)
    (hzy : z ≠ y) : (L.insertAfter x y y).prev z = L.prev z ∧
      (L.insertAfter x y y).next z = L.next z := by
  have hzx : z ≠ x := fun h => hz (h ▸ hx)
  have hn : L.next x ≠ some z := fun hn => hz (h.next_mem hx hn)
  rw [insertAfter_prev, insertAfter_next, if_neg hzy, if_neg hn, if_neg hzx,
    if_neg (mt And.left hzy)]
  exact ⟨rfl, rfl⟩

/-- A node put in front of the first one of a list. -/
theorem IsList.insertBefore (h : L.IsList (x :: b)) (hy : L.IsList [y]) (hyl : y ∉ x :: b) :
    (L.insertBefore x y).IsList (y :: x :: b) := by
  have hxb := (List.nodup_cons.mp h.nodup).1
  have hxb' : ∀ z ∈ b, z ≠ x := fun z hz h => hxb (h ▸ hz)
  simp only [List.mem_cons, not_or] at hyl
  obtain ⟨hyx, hyb⟩ := hyl
  obtain ⟨hpx, hnx, hlb⟩ := h
  obtain ⟨hpy, -⟩ := isList_singleton.mp hy
  refine ⟨?_, ?_, ?_, ?_, hlb.congr fun z hz => ⟨?_, ?_⟩⟩
  · simp [insertBefore_prev, hyx, hpx, hpy]
  · simp [insertBefore_next]
  · simp [insertBefore_prev]
  · simp [insertBefore_next, Ne.symm hyx, hpx, hnx]
  · simp [insertBefore_prev, hxb' z hz, hpx]
  · have hzy : z ≠ y := fun h => hyb (h ▸ hz)
    simp [insertBefore_next, hzy, hpx]

/-- Insertion at the front touches the list and the inserted node only. -/
theorem IsList.insertBefore_outside {z : ν} (h : L.IsList (x :: b)) (hz : z ∉ x :: b)
    (hzy : z ≠ y) : (L.insertBefore x y).prev z = L.prev z ∧
      (L.insertBefore x y).next z = L.next z := by
  have hzx : z ≠ x := fun h => hz (h ▸ List.mem_cons_self)
  obtain ⟨hpx, -, -⟩ := h
  simp [insertBefore_prev, insertBefore_next, hzx, hzy, hpx]

theorem replace_prev (z : ν) : (L.replace x y).prev z
    = if L.next y = some z then some x
      else if z = y ∧ (L.prev y).isSome then none
      else if z = x ∧ (L.prev y).isSome then L.prev y else L.prev z := by
  unfold replace
  cases hp : L.prev y <;> cases hn : L.next y <;> simp [upd_apply, eq_comm]

theorem replace_next (z : ν) : (L.replace x y).next z
    = if z = y ∧ (L.next y).isSome then none
      else if z = x ∧ (L.next y).isSome then L.next y
      else if L.prev y = some z then some x else L.next z := by
  unfold replace
  cases hp : L.prev y <;> cases hn : L.next y <;> simp [upd_apply, eq_comm]

/-- A node of its own takes over the place of `y`. -/
theorem IsList.replace (h : L.IsList (a ++ y :: b)) (hx : L.IsList [x])
    (hxl : x ∉ a ++ y :: b) : (L.replace x y).IsList (a ++ x :: b) := by
  have hnd := h.nodup
  obtain ⟨hnda, hndb, hdisj⟩ := List.nodup_append.mp hnd
  obtain ⟨hyb, hndb⟩ := List.nodup_cons.mp hndb
  have hya : ∀ z ∈ a, z ≠ y := fun z hz => hdisj z hz y List.mem_cons_self
  have hab : ∀ z ∈ a, z ∉ b := fun z hz hb => hdisj z hz z (List.mem_cons_of_mem y hb) rfl
  have hyb' : ∀ z ∈ b, z ≠ y := fun z hz h => hyb (h ▸ hz)
  simp only [List.mem_append, List.mem_cons, not_or] at hxl
  obtain ⟨hxa, hxy, hxb⟩ := hxl
  have hxa' : ∀ z ∈ a, z ≠ x := fun z hz h => hxa (h ▸ hz)
  have hxb' : ∀ z ∈ b, z ≠ x := fun z hz h => hxb (h ▸ hz)
  obtain ⟨hla, hpy, hny, hlb⟩ := isList_split.mp h
  obtain ⟨hpx, hnx⟩ := isList_singleton.mp hx
  rw [isList_split]
  refine ⟨?_, ?_, ?_, ?_⟩
  · refine hla.reend hnda (fun z hz => ?_) (fun z hz hne => ?_) (fun z hz => ?_)
    · have hnz : L.next y ≠ some z := fun h => hab z hz (List.mem_of_head? (hny ▸ h))
      simp [replace_prev, hnz, hya z hz, hxa' z hz]
    · simp [replace_next, hya z hz, hxa' z hz, hpy, hne]
    · have hza := List.mem_of_getLast? hz
      simp [replace_next, hya z hza, hxa' z hza, hpy, hz]
  · have hnx' : L.next y ≠ some x := fun h => hxb (List.mem_of_head? (hny ▸ h))
    rw [replace_prev, if_neg hnx']
    cases hp : L.prev y with
    | none => simp [hpx, ← hpy, hp]
    | some p => simp [hxy, ← hpy, hp]
  · have hpx' : L.prev y ≠ some x := fun h => hxa (List.mem_of_getLast? (hpy ▸ h))
    rw [replace_next, if_neg (mt And.left hxy), if_neg hpx']
    cases hn : L.next y with
    | none => simp [hnx, ← hny, hn]
    | some n => simp [← hny, hn]
  · refine hlb.restart hndb (fun z hz => ?_) (fun z hz hne => ?_) (fun z hz => ?_)
    · have hpz : L.prev y ≠ some z := fun h => hab z (List.mem_of_getLast? (hpy ▸ h)) hz
      simp [replace_next, hyb' z hz, hxb' z hz, hpz]
    · simp [replace_prev, hny, hne, hyb' z hz, hxb' z hz]
    · simp [replace_prev, hny, hz]

/-- The replaced node is left on a list of its own. -/
theorem IsList.replace_isolated (h : L.IsList (a ++ y :: b)) (hxl : x ∉ a ++ y :: b) :
    (L.replace x y).IsList [y] := by
  have hnd := h.nodup
  obtain ⟨-, hndb, hdisj⟩ := List.nodup_append.mp hnd
  have hxy : y ≠ x := fun h => hxl (by simp [h])
  have hny : L.next y ≠ some y := fun hn =>
    (List.nodup_cons.mp hndb).1 (List.mem_of_head? (h.next_eq ▸ hn))
  have hpy : L.prev y ≠ some y := fun hp =>
    hdisj y (List.mem_of_getLast? (h.prev_eq ▸ hp)) y List.mem_cons_self rfl
  rw [isList_singleton, replace_prev, replace_next, if_neg hny]
  constructor
  · cases hp : L.prev y <;> simp [hxy]
  · cases hn : L.next y <;> simp [hxy, hpy]

/-- Replacement touches the list of the replaced node and the new node only. -/
theorem IsList.replace_outside {z : ν} (h : L.IsList l) (hy : y ∈ l) (hz : z ∉ l)
    (hzx : z ≠ x) : (L.replace x y).prev z = L.prev z ∧
      (L.replace x y).next z = L.next z := by
  have hzy : z ≠ y := fun h => hz (h ▸ hy)
  have hn : L.next y ≠ some z := fun hn => hz (h.next_mem hy hn)
  have hp : L.prev y ≠ some z := fun hp => hz (h.prev_mem hy hp)
  simp [replace_prev, replace_next, hzx, hzy, hn, hp]

/-! ### The splices keep the links well formed -/

theorem WellFormed.erase (h : L.WellFormed) (x : ν) : (L.erase x).WellFormed := by
  obtain ⟨l, hxl, hl⟩ := h x
  refine h.of_outside (· ∈ l) (fun l' hl' y hy hyl z hz => hl'.eq_of_mem hl hy hyl ▸ hz)
    (fun y hy => ?_) (fun y hy => hl.erase_outside hxl hy)
  obtain ⟨a, b, rfl⟩ := List.append_of_mem hxl
  by_cases hyx : y = x
  · exact ⟨[x], by simp [hyx], erase_isolated⟩
  · exact ⟨a ++ b, by simpa [hyx] using hy, hl.erase⟩

theorem WellFormed.insertAfter (h : L.WellFormed) (hy : L.IsList [y]) (hxy : x ≠ y) :
    (L.insertAfter x y y).WellFormed := by
  obtain ⟨l, hxl, hl⟩ := h x
  have hyl : y ∉ l := fun hyl => hxy (by
    simpa [hl.eq_of_mem hy hyl (List.mem_singleton_self y)] using hxl)
  refine h.of_outside (fun z => z ∈ l ∨ z = y) (closed_with_singleton hl hy) (fun z hz => ?_)
    (fun z hz => hl.insertAfter_outside hxl (fun h => hz (Or.inl h)) fun h => hz (Or.inr h))
  obtain ⟨a, b, rfl⟩ := List.append_of_mem hxl
  exact ⟨_, by simp at hz ⊢; tauto, hl.insertAfter hy hyl⟩

theorem WellFormed.insertBefore (h : L.WellFormed) (hx : L.prev x = none) (hy : L.IsList [y])
    (hxy : x ≠ y) : (L.insertBefore x y).WellFormed := by
  obtain ⟨l, hxl, hl⟩ := h x
  have hyl : y ∉ l := fun hyl => hxy (by
    simpa [hl.eq_of_mem hy hyl (List.mem_singleton_self y)] using hxl)
  obtain ⟨a, b, rfl⟩ := List.append_of_mem hxl
  obtain rfl : a = [] := by
    rw [hl.prev_eq] at hx
    exact List.getLast?_eq_none_iff.mp hx
  refine h.of_outside (fun z => z ∈ x :: b ∨ z = y) (closed_with_singleton hl hy)
    (fun z hz => ?_)
    (fun z hz => hl.insertBefore_outside (fun h => hz (Or.inl h)) fun h => hz (Or.inr h))
  exact ⟨_, by simp at hz ⊢; tauto, IsList.insertBefore hl hy hyl⟩

theorem WellFormed.replace (h : L.WellFormed) (hx : L.IsList [x]) (hxy : x ≠ y) :
    (L.replace x y).WellFormed := by
  obtain ⟨l, hyl, hl⟩ := h y
  have hxl : x ∉ l := fun hxl => hxy (by
    simpa [hl.eq_of_mem hx hxl (List.mem_singleton_self x), eq_comm] using hyl)
  refine h.of_outside (fun z => z ∈ l ∨ z = x) (closed_with_singleton hl hx) (fun z hz => ?_)
    (fun z hz => hl.replace_outside hyl (fun h => hz (Or.inl h)) fun h => hz (Or.inr h))
  obtain ⟨a, b, rfl⟩ := List.append_of_mem hyl
  by_cases hzy : z = y
  · exact ⟨[y], by simp [hzy], hl.replace_isolated hxl⟩
  · exact ⟨_, by simp [hzy] at hz ⊢; tauto, hl.replace hx hxl⟩

end Splices

end Links

end Lib

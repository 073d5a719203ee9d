import Caprese.Lib.Links

/-!
# `Caprese.Lib.Queue`: queues over stored links

A `Queue ν` keeps the two ends of a doubly linked list whose links lie in its nodes.
`push` and `remove` are the usual code, with `none` for a null dereference. `Rep L q l`
says that the queue stands for the list `l`: a push appends (`Rep.push`), a removal deletes
the node wherever it stands and leaves it isolated (`Rep.remove`), and neither dereferences
a null link.
-/

set_option autoImplicit false

namespace Lib

/-- The ends of a linked queue. -/
structure Queue (ν : Type) where
  head : Option ν
  tail : Option ν
deriving DecidableEq, Repr

namespace Queue

variable {ν : Type} [DecidableEq ν]

/-- Appends the isolated node `x`. -/
def push (q : Queue ν) (L : Links ν) (x : ν) : Option (Queue ν × Links ν) :=
  match q.head with
  | none => some (⟨some x, some x⟩, L)
  | some h => do
    let t ← q.tail
    return (⟨some h, some x⟩, ⟨upd L.prev x (some t), upd L.next t (some x)⟩)

/-- The half of `remove` that skips `x` going forward: the new head and the next links. -/
def removeForward (q : Queue ν) (L : Links ν) (x : ν) : Option (Option ν × (ν → Option ν)) :=
  if q.head = some x then some (L.next x, L.next)
  else (L.prev x).map fun p => (q.head, upd L.next p (L.next x))

/-- The half of `remove` that skips `x` going backward: the new tail and the previous links. -/
def removeBackward (q : Queue ν) (L : Links ν) (x : ν) : Option (Option ν × (ν → Option ν)) :=
  if q.tail = some x then some (L.prev x, L.prev)
  else (L.next x).map fun n => (q.tail, upd L.prev n (L.prev x))

/-- Unlinks `x` from any place of the queue. -/
def remove (q : Queue ν) (L : Links ν) (x : ν) : Option (Queue ν × Links ν) := do
  let (head, next) ← q.removeForward L x
  let (tail, prev) ← q.removeBackward L x
  return (⟨head, tail⟩, ⟨upd prev x none, upd next x none⟩)

/-- The queue stands for the list `l`. -/
structure Rep (L : Links ν) (q : Queue ν) (l : List ν) : Prop where
  list : L.IsList l
  head : q.head = l.head?
  tail : q.tail = l.getLast?

instance (L : Links ν) (q : Queue ν) (l : List ν) : Decidable (Rep L q l) :=
  decidable_of_iff (L.IsList l ∧ q.head = l.head? ∧ q.tail = l.getLast?)
    ⟨fun h => ⟨h.1, h.2.1, h.2.2⟩, fun h => ⟨h.list, h.head, h.tail⟩⟩

variable {L L' : Links ν} {q : Queue ν} {l a b : List ν} {x : ν}

omit [DecidableEq ν] in
/-- The queue without ends. -/
theorem Rep.empty : Rep L ⟨none, none⟩ [] := ⟨trivial, rfl, rfl⟩

omit [DecidableEq ν] in
/-- A queue stands for one list. -/
theorem Rep.unique {l' : List ν} (h : Rep L q l) (h' : Rep L q l') : l = l' := by
  have hhead : l.head? = l'.head? := h.head.symm.trans h'.head
  cases l with
  | nil => exact (List.head?_eq_none_iff.mp hhead.symm).symm
  | cons x a =>
    cases l' with
    | nil => exact absurd hhead (by simp)
    | cons y b =>
      obtain rfl : x = y := Option.some.inj hhead
      rw [Links.Linked.tail_unique h.list h'.list]

omit [DecidableEq ν] in
theorem Rep.congr (h : Rep L q l) (hl : ∀ x ∈ l, L'.prev x = L.prev x ∧ L'.next x = L.next x) :
    Rep L' q l := ⟨h.list.congr hl, h.head, h.tail⟩

/-- A push on a queue gives the queue with `x` appended, and changes no link of a node
outside of it. -/
theorem Rep.push (h : Rep L q l) (hx : L.IsList [x]) (hxl : x ∉ l) :
    ∃ q' L', q.push L x = some (q', L') ∧ Rep L' q' (l ++ [x]) ∧
      ∀ y, y ∉ l → y ≠ x → L'.prev y = L.prev y ∧ L'.next y = L.next y := by
  cases hl : l.getLast? with
  | none =>
    obtain rfl := List.getLast?_eq_none_iff.mp hl
    refine ⟨⟨some x, some x⟩, L, ?_, ⟨hx, rfl, rfl⟩, fun _ _ _ => ⟨rfl, rfl⟩⟩
    simp [Queue.push, h.head]
  | some t =>
    obtain ⟨a, rfl⟩ := List.getLast?_eq_some_iff.mp hl
    obtain ⟨y, hy⟩ : ∃ y, (a ++ [t]).head? = some y := by
      cases a <;> simp
    have hnd := h.list.nodup
    have hta : ∀ z ∈ a, z ≠ t := fun z hz => (List.nodup_append.mp hnd).2.2 z hz t (by simp)
    have hxa : ∀ z ∈ a, z ≠ x := fun z hz h => hxl (by simp [← h, hz])
    have hxt : t ≠ x := fun h => hxl (by simp [h])
    obtain ⟨hla, hpt, hnt, -⟩ := Links.isList_split.mp h.list
    obtain ⟨-, hnx⟩ := Links.isList_singleton.mp hx
    refine ⟨⟨some y, some x⟩, ⟨upd L.prev x (some t), upd L.next t (some x)⟩, ?_, ⟨?_, ?_, ?_⟩,
      fun z hz hzx => ?_⟩
    · simp [Queue.push, h.head, h.tail, hy]
    · have hsplit : (a ++ [t]) ++ [x] = a ++ t :: [x] := by simp
      rw [hsplit, Links.isList_split]
      refine ⟨hla.congr fun z hz => ?_, ?_, ?_, ?_⟩
      · simp [upd_ne _ _ (hxa z hz), upd_ne _ _ (hta z hz)]
      · simp [upd_ne _ _ hxt, hpt]
      · simp
      · simp [Links.Linked, upd_ne _ _ (Ne.symm hxt), hnx]
    · rw [List.head?_append, hy]
      rfl
    · simp
    · have hzt : z ≠ t := fun h => hz (by simp [h])
      simp [upd_ne _ _ hzx, upd_ne _ _ hzt]

/-- A removal succeeds on every member of the queue, wherever it stands. -/
theorem Rep.remove (h : Rep L q (a ++ x :: b)) :
    ∃ q', q.remove L x = some (q', L.erase x) ∧ Rep (L.erase x) q' (a ++ b) := by
  have hp := h.list.prev_eq
  have hn := h.list.next_eq
  have hnd := h.list.nodup
  have hxa : x ∉ a := fun hx => (List.nodup_append.mp hnd).2.2 x hx x (by simp) rfl
  have hxb : x ∉ b := (List.nodup_cons.mp (List.nodup_append.mp hnd).2.1).1
  refine ⟨⟨(a ++ b).head?, (a ++ b).getLast?⟩, ?_, ⟨h.list.erase, rfl, rfl⟩⟩
  have hforward : q.removeForward L x = some ((a ++ b).head?,
      (L.prev x).elim L.next fun p => upd L.next p (L.next x)) := by
    unfold removeForward
    cases a with
    | nil => simp [h.head, hp, hn]
    | cons y a =>
      have hyx : y ≠ x := fun h => hxa (by simp [h])
      obtain ⟨p, hp'⟩ : ∃ p, (y :: a).getLast? = some p := by simp [List.getLast?_cons]
      simp [h.head, hyx, hp, hp']
  have hbackward : q.removeBackward L x = some ((a ++ b).getLast?,
      (L.next x).elim L.prev fun n => upd L.prev n (L.prev x)) := by
    unfold removeBackward
    cases hb : b.getLast? with
    | none =>
      obtain rfl := List.getLast?_eq_none_iff.mp hb
      simp [h.tail, hp, hn]
    | some y =>
      have hyx : y ≠ x := fun h => hxb (h ▸ List.mem_of_getLast? hb)
      obtain ⟨n, hn'⟩ : ∃ n, b.head? = some n := by
        cases b with
        | nil => simp at hb
        | cons z b => exact ⟨z, rfl⟩
      simp [h.tail, List.getLast?_append, List.getLast?_cons, hb, hyx, hn, hn']
  unfold Queue.remove Links.erase
  rw [hforward, hbackward]
  cases L.prev x <;> cases L.next x <;> rfl

end Queue

end Lib

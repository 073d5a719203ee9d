import Mathlib.Data.List.Basic

/-!
# `Caprese.Lib.Grouped`: lists in which equal labels stand together

The nodes of a list have labels, or none. The list is `Grouped` if nothing but a label stands
between two occurrences of it, so that a look at the two neighbours of a node tells whether
its label occurs once more. A list stays grouped when a node leaves it, when a node comes in
next to one of the same label, and when a new label comes in next to a node without one.
-/

set_option autoImplicit false

namespace Lib

variable {α : Type} {a b l : List (Option α)} {c d : Option α} {o : α}

/-- Of every label: if it comes again, it comes next. -/
def Grouped : List (Option α) → Prop
  | [] => True
  | c :: l => (∀ o, c = some o → some o ∈ l → l.head? = some (some o)) ∧ Grouped l

namespace Grouped

theorem tail (h : Grouped (c :: l)) : Grouped l := h.2

theorem right (h : Grouped (a ++ b)) : Grouped b := by
  induction a with
  | nil => exact h
  | cons c a ih => exact ih h.2

/-- The head of a list whose front part is left alone. -/
theorem head?_append_congr {b b' : List (Option α)} (hne : a ≠ []) :
    (a ++ b).head? = (a ++ b').head? := by
  cases a with
  | nil => exact absurd rfl hne
  | cons c a => rfl

/-- What follows a front part is exchanged for a grouped list with the same head and labels. -/
theorem congr_right {b' : List (Option α)} (h : Grouped (a ++ b)) (hb : Grouped b')
    (hmem : ∀ o, some o ∈ a → some o ∈ b' → some o ∈ b)
    (hhead : ∀ o, some o ∈ a → b.head? = some (some o) → b'.head? = some (some o)) :
    Grouped (a ++ b') := by
  induction a with
  | nil => exact hb
  | cons c a ih =>
    refine ⟨fun o hc ho => ?_, ih h.2 (fun o ho => hmem o (by simp [ho]))
      fun o ho => hhead o (by simp [ho])⟩
    have hoa : some o ∈ c :: a := by simp [hc]
    have hold : some o ∈ a ++ b := by
      rcases List.mem_append.mp ho with ho | ho
      · exact List.mem_append_left _ ho
      · exact List.mem_append_right _ (hmem o hoa ho)
    have hnext := h.1 o hc hold
    cases a with
    | nil => exact hhead o hoa hnext
    | cons d a => exact hnext

/-- A node leaves the list. -/
theorem remove (h : Grouped (a ++ c :: b)) : Grouped (a ++ b) := by
  induction a with
  | nil => exact h.2
  | cons d a ih =>
    refine ⟨fun o hd ho => ?_, ih h.2⟩
    have hold : some o ∈ a ++ c :: b := by
      rcases List.mem_append.mp ho with ho | ho
      · exact List.mem_append_left _ ho
      · exact List.mem_append_right _ (List.mem_cons_of_mem c ho)
    have hnext := h.1 o hd hold
    cases a with
    | cons d' a => exact hnext
    | nil =>
      -- The node behind `d` goes, and the one behind it has the same label.
      have hc : c = some o := Option.some.inj hnext
      exact h.2.1 o hc ho

/-- A node comes in behind one of the same label. -/
theorem double (h : Grouped (a ++ c :: b)) : Grouped (a ++ c :: c :: b) := by
  refine h.congr_right ⟨fun o hc _ => by rw [List.head?_cons, hc], h.right⟩ (fun o _ ho => ?_)
    fun o _ hhead => hhead
  rcases List.mem_cons.mp ho with ho | ho
  · rw [ho]
    exact List.mem_cons_self
  · exact ho

/-- A new label comes in behind a node without one. -/
theorem insert (h : Grouped (a ++ none :: b)) (hnew : ∀ o, d = some o → some o ∉ a ++ b) :
    Grouped (a ++ none :: d :: b) := by
  have hb : Grouped b := h.right.tail
  refine h.congr_right ⟨fun o hc => absurd hc (by simp), fun o hd ho => ?_, hb⟩
    (fun o hoa ho => ?_) fun o _ hhead => hhead
  · exact absurd (List.mem_append_right a ho) (hnew o hd)
  · rcases List.mem_cons.mp ho with ho | ho
    · exact absurd ho (by simp)
    · rcases List.mem_cons.mp ho with ho | ho
      · exact absurd (List.mem_append_left b hoa) (hnew o ho.symm)
      · exact List.mem_cons_of_mem _ ho

/-- Of some nodes with one label in a row the first one is left. -/
theorem collapse {m : List (Option α)} (h : Grouped (a ++ m ++ c :: b)) :
    Grouped (a ++ c :: b) := by
  induction m generalizing a with
  | nil => simpa using h
  | cons d m ih =>
    refine ih (?_ : Grouped (a ++ m ++ c :: b))
    have h' : Grouped (a ++ d :: (m ++ c :: b)) := by simpa using h
    simpa using h'.remove

/-- What stands between two occurrences of a label. -/
theorem between {m : List (Option α)} (h : Grouped (a ++ some o :: (m ++ some o :: b)))
    (hc : c ∈ m) : c = some o := by
  have hright : Grouped (some o :: (m ++ some o :: b)) := h.right
  clear h
  induction m with
  | nil => exact absurd hc (by simp)
  | cons d m ih =>
    have hnext := hright.1 o rfl (by simp)
    have hd : d = some o := Option.some.inj hnext
    subst hd
    rcases List.mem_cons.mp hc with rfl | hc
    · rfl
    · exact ih hc hright.2

/-- A label that occurs ahead of a node that has it is that of the node in front. -/
theorem last_eq (h : Grouped (a ++ some o :: b)) (ho : some o ∈ a) :
    a.getLast? = some (some o) := by
  obtain ⟨p, q, rfl⟩ := List.append_of_mem ho
  cases hq : q.getLast? with
  | none =>
    rw [List.getLast?_eq_none_iff] at hq
    simp [hq]
  | some d =>
    have hd : d = some o := by
      have h' : Grouped (p ++ some o :: (q ++ some o :: b)) := by simpa using h
      exact h'.between (List.mem_of_getLast? hq)
    simp [List.getLast?_append, List.getLast?_cons, hq, hd]

end Grouped

end Lib

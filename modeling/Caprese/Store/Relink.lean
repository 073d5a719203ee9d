import Caprese.Store.Splice

/-!
# `Caprese.Store.Relink`: the invariant through the splices of derivation lists

`insert_after` and `replace` join a slot that was just filled, and is still alone, to the
derivation list of another one.
-/

set_option autoImplicit false

namespace Caprese

open Lib Prog Chains

variable {cfg : Config} {k k' : Kernel} {held : Set SlotPtr} {s x y : SlotPtr}
  {t t' : TaskPtr} {a b f l : List SlotPtr} {E : Stop → Kernel → Prop}

/-- New links between slots in use do not touch the free lists. -/
theorem StoreInv.relink (h : StoreInv k held) {L : Links SlotPtr} (hwf : L.WellFormed)
    (hnull : ∀ z, k.cap z = .null → L.prev z = k.links.prev z ∧ L.next z = k.links.next z) :
    StoreInv (k.setLinks L) held := by
  have hsingle : ∀ z, k.cap z = .null → k.links.IsList [z] → L.IsList [z] := by
    intro z hz hl
    refine hl.congr fun w hw => hnull w ?_
    rw [List.mem_singleton] at hw
    rw [hw]
    exact hz
  refine ⟨hwf, fun z hz => ?_, fun z hz => ?_, h.inUse, fun t ht => ?_⟩
  · obtain ⟨hcap, hl⟩ := h.outside z hz
    exact ⟨hcap, hsingle z hcap hl⟩
  · obtain ⟨hcap, hl⟩ := h.isolated z hz
    exact ⟨hcap, hsingle z hcap hl⟩
  · obtain ⟨f, hf⟩ := h.free t ht
    exact ⟨f, hf.congr (fun z hz => hnull z ((hf.mem z).mp hz).2.1) rfl rfl fun z => Iff.rfl⟩

/-- The derivation lists after a relinking that makes `l` out of the list of `x`. -/
theorem StoreInv.relink_chains (h : StoreInv k held) {L : Links SlotPtr} (hlist : L.IsList l)
    (hl : ∀ z ∈ l, k.cap z ≠ .null) (hchain : a ++ x :: b ∈ k.chains)
    (hsub : ∀ z ∈ a ++ x :: b, z ∈ l)
    (hout : ∀ z, z ∉ l → L.prev z = k.links.prev z ∧ L.next z = k.links.next z)
    (hnew : ∀ z ∈ l, z ∈ a ++ x :: b ∨ [z] ∈ k.chains) :
    (k.setLinks L).chains = rewrite k.chains x l := by
  refine chains_eq_rewrite h (fun _ => ⟨hlist, hl⟩) (fun z hz m hm hzm _ hlm => ?_)
    (fun z hz => ?_)
  · exact ⟨hz, hout z fun hzl => hlm z hzl hzm⟩
  · by_cases hzl : z ∈ l
    · exact Or.inl hzl
    · have hsep : ∀ m ∈ k.chains, z ∈ m → ∀ w ∈ l, w ∉ m := by
        intro m hm hzm w hw hwm
        rcases hnew w hw with hwx | hwy
        · rw [k.chains_valid.unique m hm _ hchain w hwm hwx] at hzm
          exact hzl (hsub z hzm)
        · rw [k.chains_valid.unique m hm _ hwy w hwm (by simp), List.mem_singleton] at hzm
          exact hzl (hzm ▸ hw)
      exact Or.inr ⟨hz, fun m hm hzm =>
        ⟨hsep m hm hzm x (hsub x (by simp)), hsep m hm hzm⟩⟩

/-! ### `insert_after` -/

section InsertAfter

theorem StoreInv.insertAfter (h : StoreInv k held) (hx : a ++ x :: b ∈ k.chains)
    (hy : [y] ∈ k.chains) (hxy : x ≠ y) :
    StoreInv (k.setLinks (k.links.insertAfter x y y)) held := by
  refine h.relink (h.links.insertAfter hy.2.1 hxy) fun z hz => ?_
  exact hx.2.1.insertAfter_outside (by simp) (fun hzx => hx.2.2 z hzx hz)
    fun hzy => hy.2.2 y (by simp) (hzy ▸ hz)

theorem StoreInv.insertAfter_chains (h : StoreInv k held) (hx : a ++ x :: b ∈ k.chains)
    (hy : [y] ∈ k.chains) (hyx : y ∉ a ++ x :: b) :
    (k.setLinks (k.links.insertAfter x y y)).chains
      = rewrite k.chains x (a ++ x :: y :: b) := by
  refine h.relink_chains (hx.2.1.insertAfter hy.2.1 hyx) (fun z hz => ?_) hx
    (fun z hz => ?_) (fun z hz => ?_) (fun z hz => ?_)
  · by_cases hzy : z = y
    · exact hzy ▸ hy.2.2 y (by simp)
    · refine hx.2.2 z ?_
      simp only [List.mem_append, List.mem_cons] at hz ⊢
      tauto
  · simp only [List.mem_append, List.mem_cons] at hz ⊢
    tauto
  · simp only [List.mem_append, List.mem_cons, not_or] at hz
    exact hx.2.1.insertAfter_outside (by simp)
      (by simp only [List.mem_append, List.mem_cons]; tauto) hz.2.2.1
  · by_cases hzy : z = y
    · exact Or.inr (hzy ▸ hy)
    · refine Or.inl ?_
      simp only [List.mem_append, List.mem_cons] at hz ⊢
      tauto

/-- The list that goes behind `x` is the slot `y` alone, so that the loop takes one turn. -/
theorem wp_insertAfter {Q : Unit → Kernel → Prop}
    (hE : cfg.loopBound = 0 → ∀ k', E .diverged k') (h : StoreInv k held)
    (hy : [y] ∈ k.chains) (hQ : Q () (k.setLinks (k.links.insertAfter x y y))) :
    wp (insertAfter x y) (.debug cfg) Q E k := by
  obtain ⟨t, ht⟩ := h.owner_of_cap (hy.2.2 y (by simp))
  have hu := h.inUse_of_owner ht
  have hlinks := Links.isList_singleton.mp hy.2.1
  have hhead : (k.slots y).isHead = true := by
    have hp : (k.slots y).prev = none := hlinks.1
    simp [CapSlot.isHead, hp]
  have hnext : (k.slots y).next = none := hlinks.2
  unfold Caprese.insertAfter
  simp only [wp_bind, wp_get, wp_kassert, hhead, if_true, wp_checkSlotTask,
    Kernel.owner_slotTask ht, if_neg hu]
  unfold kloop
  rw [wp_bind, wp_ask]
  cases hbound : cfg.loopBound with
  | zero => exact hE hbound k
  | succ n =>
    unfold loop
    simpa [hnext] using hQ

end InsertAfter

/-! ### `replace` -/

section Replace

variable (h : StoreInv k held) (hx : a ++ x :: b ∈ k.chains) (hy : [y] ∈ k.chains)
  (hyx : y ∉ a ++ x :: b)

include h hx hy hyx

theorem StoreInv.replace : StoreInv (k.setLinks (k.links.replace y x)) held := by
  have hne : y ≠ x := fun heq => hyx (by simp [heq])
  refine h.relink (h.links.replace hy.2.1 hne) fun z hz => ?_
  exact hx.2.1.replace_outside (by simp) (fun hzx => hx.2.2 z hzx hz)
    fun hzy => hy.2.2 y (by simp) (hzy ▸ hz)

/-- The replaced slot is alone for the moment. -/
theorem StoreInv.replace_chains : (k.setLinks (k.links.replace y x)).chains
    = rewrite (rewrite k.chains x (a ++ y :: b)) x [x] := by
  have hne : y ≠ x := fun heq => hyx (by simp [heq])
  have hxab : x ∉ a ++ y :: b := by
    have hnd := hx.2.1.nodup
    rw [List.nodup_middle, List.nodup_cons] at hnd
    intro hmem
    simp only [List.mem_append, List.mem_cons] at hmem
    rcases hmem with hm | rfl | hm
    · exact hnd.1 (by simp [hm])
    · exact hne rfl
    · exact hnd.1 (by simp [hm])
  have hlist := hx.2.1.replace hy.2.1 hyx
  have hisolated : (k.links.replace y x).IsList [x] := hx.2.1.replace_isolated hyx
  have hcap : ∀ z ∈ a ++ y :: b, k.cap z ≠ .null := by
    intro z hz
    by_cases hzy : z = y
    · exact hzy ▸ hy.2.2 y (by simp)
    · refine hx.2.2 z ?_
      simp only [List.mem_append, List.mem_cons] at hz ⊢
      tauto
  have hout : ∀ z, z ∉ a ++ x :: b → z ≠ y →
      (k.links.replace y x).prev z = k.links.prev z ∧
        (k.links.replace y x).next z = k.links.next z :=
    fun z hz hzy => hx.2.1.replace_outside (by simp) hz hzy
  -- A list that shares no slot with the two is linked as before.
  have hmid : ∀ {z m}, m ∈ k.chains → z ∈ m → x ∉ m → (∀ w ∈ a ++ y :: b, w ∉ m) →
      z ∉ a ++ x :: b ∧ z ≠ y := by
    intro z m hm hzm hxm hym
    refine ⟨fun hz => hxm ?_, fun hzy => hym y (by simp) (hzy ▸ hzm)⟩
    rw [k.chains_valid.unique m hm _ hx z hzm hz]
    simp
  ext m
  constructor
  · intro hm
    obtain ⟨z, hz⟩ := List.exists_mem_of_ne_nil m hm.1
    -- A list of the new links has a slot `z`: it is `x`, or on the new list, or elsewhere.
    by_cases hzx : z = x
    · refine Or.inr ⟨hm.2.1.eq_of_mem hisolated hz (by simp [hzx]), by simp⟩
    · refine Or.inl ⟨?_, ?_, ?_⟩
      · by_cases hzl : z ∈ a ++ y :: b
        · exact Or.inr ⟨hm.2.1.eq_of_mem hlist hz hzl, by simp⟩
        · obtain ⟨c, d, hcd⟩ := h.exists_chain (hm.2.2 z hz)
          have hsep : ∀ w ∈ a ++ x :: b, w ∉ c ++ z :: d := by
            intro w hw hwm
            have heq := k.chains_valid.unique _ hcd _ hx w hwm hw
            have hzab : z ∈ a ++ x :: b := heq ▸ (by simp)
            simp only [List.mem_append, List.mem_cons] at hzab hzl
            tauto
          have hyn : y ∉ c ++ z :: d := by
            intro hyn
            have heq := k.chains_valid.unique _ hcd _ hy y hyn (by simp)
            have hzy : z ∈ [y] := heq ▸ (by simp)
            exact hzl (by simp [List.mem_singleton.mp hzy])
          have hnew : ∀ w ∈ a ++ y :: b, w ∉ c ++ z :: d := by
            intro w hw
            by_cases hwy : w = y
            · exact hwy ▸ hyn
            · refine hsep w ?_
              simp only [List.mem_append, List.mem_cons] at hw ⊢
              tauto
          have heq : m = c ++ z :: d := by
            refine hm.2.1.eq_of_mem (hcd.2.1.congr fun w hw => ?_) hz (by simp)
            obtain ⟨h1, h2⟩ := hmid hcd hw (hsep x (by simp)) hnew
            exact hout w h1 h2
          exact Or.inl ⟨heq ▸ hcd, heq ▸ hsep x (by simp), heq ▸ hnew⟩
      · intro hxm
        have heq := hm.2.1.eq_of_mem hisolated hxm (by simp)
        rw [heq, List.mem_singleton] at hz
        exact hzx hz
      · intro w hw hwm
        rw [List.mem_singleton] at hw
        have heq := hm.2.1.eq_of_mem hisolated hwm (by simp [hw])
        rw [heq, List.mem_singleton] at hz
        exact hzx hz
  · rintro (⟨hm | ⟨rfl, -⟩, hxm, -⟩ | ⟨rfl, -⟩)
    · obtain ⟨hm, hxm, hym⟩ := hm
      refine ⟨hm.1, hm.2.1.congr fun z hz => ?_, hm.2.2⟩
      obtain ⟨h1, h2⟩ := hmid hm hz hxm hym
      exact hout z h1 h2
    · exact ⟨by simp, hlist, hcap⟩
    · refine ⟨by simp, hisolated, fun z hz => ?_⟩
      rw [List.mem_singleton] at hz
      rw [hz]
      exact hx.2.2 x (by simp)

omit hyx in
theorem wp_replace {Q : Unit → Kernel → Prop}
    (hQ : Q () (k.setLinks (k.links.replace y x))) :
    wp (Caprese.replace y x) (.debug cfg) Q E k := by
  obtain ⟨t, ht⟩ := h.owner_of_cap (hx.2.2 x (by simp))
  have hu := h.inUse_of_owner ht
  have hlinks := Links.isList_singleton.mp hy.2.1
  have hiso : (k.slots y).isIsolated = true := by
    have hp : (k.slots y).prev = none := hlinks.1
    have hn : (k.slots y).next = none := hlinks.2
    simp [CapSlot.isIsolated, hp, hn]
  unfold Caprese.replace
  simpa only [wp_bind, wp_get, wp_kassert, hiso, if_true, wp_checkSlotTask,
    Kernel.owner_slotTask ht, if_neg hu, wp_modify] using hQ

end Replace

end Caprese

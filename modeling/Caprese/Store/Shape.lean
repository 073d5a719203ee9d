import Caprese.Store.Memory

/-!
# `Caprese.Store.Shape`: the derivation lists under the moves

Two facts about the abstract machine that all later invariants build on. `StoreOk`: the
derivation lists are disjoint lists without repetition, and the slots on them are the slots
that hold a capability. `TailInv`: no list ends in a zombie.
-/

set_option autoImplicit false

namespace Caprese

open Lib Chains

/-- The slots with a capability are the ones on the derivation lists. -/
structure StoreOk (S : CapStore) : Prop where
  valid : Valid S.chains
  mem : ∀ s, S.cap s ≠ .null ↔ ∃ l ∈ S.chains, s ∈ l

variable {S S' : CapStore} {act : Act} {x y z s e : SlotPtr} {a b l m : List SlotPtr}
  {c c' : Capability}

/-! ### Positions on a list -/

theorem mem_behind : z ∈ a ++ x :: y :: b ↔ z = y ∨ z ∈ a ++ x :: b := by
  simp only [List.mem_append, List.mem_cons, or_left_comm]

/-- The last node of a list with a known node. -/
theorem getLast?_split : (a ++ x :: b).getLast? = some z ↔ b = [] ∧ x = z ∨
    b.getLast? = some z := by
  cases b with
  | nil => simp
  | cons y b => simp [List.getLast?_append, List.getLast?_cons]

namespace StoreOk

variable (h : StoreOk S)

include h

theorem fresh (hy : S.cap y = .null) : Fresh S.chains y := fun l hl hyl =>
  (h.mem y).mpr ⟨l, hl, hyl⟩ hy

theorem not_null (hl : l ∈ S.chains) (hs : s ∈ l) : S.cap s ≠ .null := (h.mem s).mpr ⟨l, hl, hs⟩

theorem exists_chain (hs : S.cap s ≠ .null) : ∃ a b, a ++ s :: b ∈ S.chains := by
  obtain ⟨l, hl, hsl⟩ := (h.mem s).mp hs
  obtain ⟨a, b, rfl⟩ := List.append_of_mem hsl
  exact ⟨a, b, hl⟩

theorem nodup (hl : a ++ x :: b ∈ S.chains) : x ∉ a ∧ x ∉ b ∧ (a ++ b).Nodup := by
  have hnd := h.valid.nodup _ hl
  rw [List.nodup_middle, List.nodup_cons, List.mem_append, not_or] at hnd
  exact ⟨hnd.1.1, hnd.1.2, hnd.2⟩

/-- A list is exchanged for one of the same slots, of fewer or of new ones. -/
theorem rewrite {new : List SlotPtr} (hl : a ++ x :: b ∈ S.chains) (hnd : new.Nodup)
    (hchains : S'.chains = rewrite S.chains x new)
    (hnew : ∀ z ∈ new, z ∈ a ++ x :: b ∨ S.cap z = .null)
    (hcap : ∀ z, S'.cap z ≠ .null ↔ z ∈ new ∨ S.cap z ≠ .null ∧ z ∉ a ++ x :: b) :
    StoreOk S' where
  valid := hchains ▸ h.valid.rewrite hnd
  mem z := by
    have hother : ∀ {l}, l ∈ S.chains → x ∉ l → ∀ z ∈ l, z ∉ a ++ x :: b ∧ z ∉ new := by
      intro l hl' hx z hz
      have hzl : z ∉ a ++ x :: b := fun hz' => hx (h.valid.unique _ hl' _ hl z hz hz' ▸ by simp)
      refine ⟨hzl, fun hzn => ?_⟩
      rcases hnew z hzn with hz' | hz'
      · exact hzl hz'
      · exact h.fresh hz' l hl' hz
    rw [hcap, hchains]
    constructor
    · rintro (hz | ⟨hz, hzl⟩)
      · exact ⟨new, new_mem_rewrite (List.ne_nil_of_mem hz), hz⟩
      · obtain ⟨l, hl', hzl'⟩ := (h.mem z).mp hz
        have hx : x ∉ l := by
          intro hx
          rw [h.valid.unique _ hl' _ hl x hx (by simp)] at hzl'
          exact hzl hzl'
        exact ⟨l, Or.inl ⟨hl', hx, fun w hw hwl => (hother hl' hx w hwl).2 hw⟩, hzl'⟩
    · rintro ⟨l, ⟨hl', hx, -⟩ | ⟨rfl, -⟩, hz⟩
      · exact Or.inr ⟨h.not_null hl' hz, (hother hl' hx z hz).1⟩
      · exact Or.inl hz

/-- The lists stay, and so do the empty slots. -/
theorem of_cap (hchains : S'.chains = S.chains) (hcap : ∀ z, S'.cap z = .null ↔ S.cap z = .null) :
    StoreOk S' where
  valid := hchains ▸ h.valid
  mem z := by rw [hchains, ne_eq, hcap, ← h.mem]

end StoreOk

/-! ### The capabilities of a new task -/

/-- A capability before and after `create_task_object`. -/
def Adopts (c c' : Capability) : Prop :=
  c' = c ∨ ∃ p level va, c = .pageTable p ∧ c' = .pageTable (p.adopt level va)

theorem Adopts.trans {c'' : Capability} (h : Adopts c c') (h' : Adopts c' c'') : Adopts c c'' := by
  rcases h with rfl | ⟨p, level, va, rfl, rfl⟩
  · exact h'
  · rcases h' with rfl | ⟨q, level', va', hq, rfl⟩
    · exact Or.inr ⟨p, level, va, rfl, rfl⟩
    · obtain rfl := Capability.pageTable.inj hq
      exact Or.inr ⟨p, level', va', rfl, rfl⟩

theorem adopts_adoptCap {cap : SlotPtr → Capability} {slot : SlotPtr} {level va : Nat} :
    Adopts (cap s) (adoptCap cap slot level va s) := by
  unfold adoptCap
  cases hs : cap slot with
  | pageTable p =>
    show Adopts (cap s) (upd cap slot _ s)
    rw [upd_apply]
    split
    · rename_i heq
      exact Or.inr ⟨p, level, va, heq ▸ hs, rfl⟩
    · exact Or.inl rfl
  | _ => exact Or.inl rfl

theorem adopts_adoptCaps {cap : SlotPtr → Capability} {root slot0 slot1 : SlotPtr} :
    Adopts (cap s) (adoptCaps cap root slot0 slot1 s) :=
  (adopts_adoptCap.trans adopts_adoptCap).trans adopts_adoptCap

/-- Capabilities of a kind that is not that of a table are left alone. -/
theorem Adopts.iff (h : Adopts c c') {d : Capability} (hd : ∀ p, d ≠ .pageTable p) :
    c' = d ↔ c = d := by
  rcases h with rfl | ⟨p, level, va, rfl, rfl⟩
  · rfl
  · exact iff_of_false (fun h => hd _ h.symm) fun h => hd _ h.symm

/-! ### The moves keep the lists in order -/

theorem StoreOk.derive (h : StoreOk S) (hy : S.cap y = .null) (hl : a ++ x :: b ∈ S.chains)
    (hc : c ≠ .null) (hc' : c' ≠ .null) : StoreOk (S.derive x y a b c c') := by
  obtain ⟨hxa, hxb, hnd⟩ := h.nodup hl
  have hyl : y ∉ a ++ x :: b := h.fresh hy _ hl
  have hx : S.cap x ≠ .null := h.not_null hl (by simp)
  refine h.rewrite hl ?_ rfl (fun z hz => ?_) fun z => ?_
  · have hl' := h.valid.nodup _ hl
    have heq : a ++ x :: y :: b = (a ++ [x]) ++ y :: b := by simp
    rw [heq, List.nodup_middle, List.nodup_cons]
    rw [List.append_cons] at hl' hyl
    exact ⟨hyl, hl'⟩
  · rcases mem_behind.mp hz with rfl | hz
    · exact Or.inr hy
    · exact Or.inl hz
  · show upd (upd S.cap y c) x c' z ≠ .null ↔ _
    have hz : S.cap z = .null → z ∉ a ++ x :: b := fun hz => h.fresh hz _ hl
    simp only [upd_apply, List.mem_append, List.mem_cons] at hz ⊢
    split
    · simp_all
    · split
      · simp_all
      · tauto

theorem StoreOk.clear (h : StoreOk S) (hl : a ++ s :: b ∈ S.chains)
    (hcap : S'.cap = upd S.cap s .null) (hchains : S'.chains = Chains.rewrite S.chains s (a ++ b)) :
    StoreOk S' := by
  obtain ⟨hsa, hsb, hnd⟩ := h.nodup hl
  refine h.rewrite hl hnd hchains (fun z hz => Or.inl ?_) fun z => ?_
  · simp only [List.mem_append, List.mem_cons] at hz ⊢
    tauto
  · have hz : S.cap z = .null → z ∉ a ++ s :: b := fun hz => h.fresh hz _ hl
    rw [hcap, upd_apply]
    simp only [List.mem_append, List.mem_cons] at hz ⊢
    split
    · rename_i heq
      simp [heq, hsa, hsb]
    · tauto

theorem StoreOk.trans (h : StoreOk S) (ht : Trans S act S') : StoreOk S' := by
  -- Most moves change the capability of one slot, from one that is not null to another one.
  have hset : ∀ {s c} {S' : CapStore}, S'.chains = S.chains → S'.cap = upd S.cap s c →
      S.cap s ≠ .null → c ≠ .null → StoreOk S' := by
    intro s c S' hchains hcap hs hc
    refine h.of_cap hchains fun z => ?_
    rw [hcap, upd_apply]
    split
    · rename_i heq
      simp [heq, hs, hc]
    · rfl
  cases ht with
  | @create x y a b m size alignment base c hx hy hl hcarve hobject =>
    have hc : c ≠ .null := by
      cases hobject <;> simp [makeTaskCap, makeEndpointCap, makeCapSpaceCap]
    have hd : StoreOk (S.derive x y a b c (.memory (m.carve base size))) :=
      h.derive hy hl hc (by simp)
    exact ⟨hd.valid, hd.mem⟩
  | adopt => exact h.of_cap rfl fun z => adopts_adoptCaps.iff (by simp)
  | @copy x y a b hx hy hl =>
    have hc : S.cap x ≠ .null := h.not_null hl (by simp)
    exact h.derive hy hl hc hc
  | @delegate x y a b hx hy hl => exact h.derive hy hl hx.1 (by simp)
  | @move x y a b hx hy hl =>
    obtain ⟨hxa, hxb, hnd⟩ := h.nodup hl
    have hyl : y ∉ a ++ x :: b := h.fresh hy _ hl
    simp only [List.mem_append, List.mem_cons, not_or] at hyl
    -- `y` takes the place of `x` on its list, and `x` leaves the lists.
    refine h.rewrite hl ?_ rfl (fun z hz => ?_) fun z => ?_
    · rw [List.nodup_middle, List.nodup_cons]
      exact ⟨by simp [hyl.1, hyl.2.2], hnd⟩
    · by_cases hzy : z = y
      · exact Or.inr (hzy ▸ hy)
      · refine Or.inl ?_
        simp only [List.mem_append, List.mem_cons] at hz ⊢
        tauto
    · show upd (upd S.cap y (S.cap x)) x .null z ≠ .null ↔ _
      have hz : S.cap z = .null → z ∉ a ++ x :: b := fun hz => h.fresh hz _ hl
      have hyx : x ≠ y := fun heq => hyl.2.1 heq.symm
      simp only [upd_apply, List.mem_append, List.mem_cons] at hz ⊢
      split
      · rename_i heq
        simp [heq, hxa, hxb, hyx]
      · split
        · rename_i heq
          simp [heq, hx.1]
        · tauto
  | @newRoot y i hy =>
    -- The new list has one member, and no other list is touched.
    have hfresh := h.fresh hy
    refine ⟨h.valid.rewrite (List.nodup_singleton y), fun z => ?_⟩
    show upd S.cap y (.id i) z ≠ .null ↔ ∃ l ∈ Chains.rewrite S.chains y [y], z ∈ l
    rw [upd_apply]
    split
    · rename_i heq
      exact iff_of_true (by simp) ⟨[y], new_mem_rewrite (by simp), by simp [heq]⟩
    · rename_i hne
      rw [h.mem]
      constructor
      · rintro ⟨l, hl, hz⟩
        exact ⟨l, Or.inl ⟨hl, hfresh l hl, by simpa using hfresh l hl⟩, hz⟩
      · rintro ⟨l, ⟨hl, -, -⟩ | ⟨rfl, -⟩, hz⟩
        · exact ⟨l, hl, hz⟩
        · exact absurd (List.mem_singleton.mp hz) hne
  | @undelegate z e a m b hz hm he hl =>
    have hl' : a ++ z :: (m ++ e :: b) ∈ S.chains := hl
    obtain ⟨hza, hzb, hnd⟩ := h.nodup hl
    have hzm : z ∉ b ∧ z ∉ m ∧ z ≠ e := by
      simp only [List.mem_append, List.mem_cons, not_or] at hzb
      exact ⟨hzb.2.2, hzb.1, hzb.2.1⟩
    -- The slots that become empty are neither in front of `z` nor behind `e`.
    have hdisj : ∀ w, w ∈ m ∨ w = e → w ∉ a ∧ w ∉ b := by
      have hl'' : (a ++ [z]) ++ (m ++ e :: b) ∈ S.chains := by simpa using hl
      have hnd' := h.valid.nodup _ hl''
      rw [List.nodup_append] at hnd'
      obtain ⟨-, hnd₁, hd₁⟩ := hnd'
      rw [List.nodup_append] at hnd₁
      obtain ⟨-, hnd₂, hd₂⟩ := hnd₁
      rw [List.nodup_cons] at hnd₂
      rintro w (hw | rfl)
      · exact ⟨fun hwa => hd₁ w (by simp [hwa]) w (by simp [hw]) rfl,
          fun hwb => hd₂ w hw w (by simp [hwb]) rfl⟩
      · exact ⟨fun hwa => hd₁ w (by simp [hwa]) w (by simp) rfl, hnd₂.1⟩
    refine h.rewrite hl' ?_ rfl (fun w hw => Or.inl ?_) fun w => ?_
    · have hsub : (a ++ z :: b).Sublist (a ++ z :: (m ++ e :: b)) := by
        refine List.Sublist.append_left (List.Sublist.cons_cons z ?_) a
        exact (List.sublist_cons_self e b).trans (List.sublist_append_right m _)
      exact (h.valid.nodup _ hl').sublist hsub
    · simp only [List.mem_append, List.mem_cons] at hw ⊢
      tauto
    · show (if w = z then S.cap e else if w ∈ m ∨ w = e then .null else S.cap w) ≠ .null ↔ _
      have hw : S.cap w = .null → w ∉ a ++ z :: (m ++ e :: b) := fun hw => h.fresh hw _ hl'
      have hdw := hdisj w
      simp only [List.mem_append, List.mem_cons] at hw ⊢
      by_cases hwz : w = z
      · simp [hwz, he.1]
      · by_cases hwm : w ∈ m ∨ w = e
        · obtain ⟨hwa, hwb⟩ := hdw hwm
          simp [hwz, hwm, hwa, hwb]
        · simp only [hwz, hwm, if_false]
          tauto
  | @destroy s a b hs hl hp => exact h.clear hl rfl rfl
  | @drop s a b hs hl hp => exact h.clear hl rfl rfl
  | selfDestroy => exact ⟨h.valid, h.mem⟩
  | @mapTable x y p c index hx hy => exact hset rfl rfl (by simp [hy]) (by simp)
  | @unmapTable x y p c index hx hy => exact hset rfl rfl (by simp [hy]) (by simp)
  | @mapPage x y p c index r w e hx hy => exact hset rfl rfl (by simp [hy]) (by simp)
  | @unmapPage x y p c index hx hy => exact hset rfl rfl (by simp [hy]) (by simp)
  | @remapPage x o y p q c index r w e hx ho hy => exact hset rfl rfl (by simp [hy]) (by simp)
  | @attach x y c p table index number hx hy => exact hset rfl rfl (by simp [hy]) (by simp)
  | @extend x y c p table parentTable index level va hx hy => exact hset rfl rfl (by simp [hy]) (by simp)

/-! ### No list ends in a zombie -/

/-- The last slot of a derivation list is no zombie. -/
def TailInv (S : CapStore) : Prop :=
  ∀ l ∈ S.chains, ∀ z, l.getLast? = some z → S.cap z ≠ .zombie

namespace TailInv

variable (h : TailInv S)

include h

/-- The last slot behind a known one. -/
theorem last (hl : a ++ x :: b ∈ S.chains) (hz : b.getLast? = some z) : S.cap z ≠ .zombie :=
  h _ hl z (getLast?_split.mpr (Or.inr hz))

/-- The lists that a move leaves alone, and the one that it makes. -/
theorem rewrite (hchains : S'.chains = Chains.rewrite S.chains x l)
    (hold : ∀ z, z ∉ l → z ≠ x → S.cap z ≠ .zombie → S'.cap z ≠ .zombie)
    (hnew : ∀ z, l.getLast? = some z → S'.cap z ≠ .zombie) : TailInv S' := by
  intro l' hl' z hz
  rw [hchains] at hl'
  rcases hl' with ⟨hl', hx, hdisj⟩ | ⟨rfl, -⟩
  · have hmem : z ∈ l' := List.mem_of_getLast? hz
    exact hold z (fun hzl => hdisj z hzl hmem) (fun heq => hx (heq ▸ hmem)) (h l' hl' z hz)
  · exact hnew z hz

/-- A move that keeps the lists makes no zombies. -/
theorem of_cap (hchains : S'.chains = S.chains)
    (hcap : ∀ z, S'.cap z = .zombie → S.cap z = .zombie) : TailInv S' := by
  intro l hl z hz heq
  rw [hchains] at hl
  exact h l hl z hz (hcap z heq)

theorem derive (hS : StoreOk S) (hy : S.cap y = .null) (hl : a ++ x :: b ∈ S.chains)
    (hc : c ≠ .zombie) : TailInv (S.derive x y a b c c') := by
  have hyl : y ∉ a ++ x :: b := hS.fresh hy _ hl
  simp only [List.mem_append, List.mem_cons, not_or] at hyl
  refine h.rewrite rfl (fun z hz hzx hne => ?_) fun z hz => ?_
  · have hzy : z ≠ y := fun heq => hz (by simp [heq])
    show upd (upd S.cap y c) x c' z ≠ _
    rwa [upd_ne _ _ hzx, upd_ne _ _ hzy]
  · show upd (upd S.cap y c) x c' z ≠ _
    rw [List.append_cons, getLast?_split] at hz
    rcases hz with ⟨-, rfl⟩ | hz
    · rw [upd_ne _ _ hyl.2.1, upd_same]
      exact hc
    · have hmem : z ∈ b := List.mem_of_getLast? hz
      have hzx : z ≠ x := fun heq => (hS.nodup hl).2.1 (heq ▸ hmem)
      have hzy : z ≠ y := fun heq => hyl.2.2 (heq ▸ hmem)
      rw [upd_ne _ _ hzx, upd_ne _ _ hzy]
      exact h.last hl hz

theorem clear (hl : a ++ s :: b ∈ S.chains)
    (hp : ∀ p, a.getLast? = some p → S.cap p ≠ .zombie) (hcap : S'.cap = upd S.cap s .null)
    (hchains : S'.chains = Chains.rewrite S.chains s (a ++ b)) : TailInv S' := by
  have hne : ∀ z, S.cap z ≠ .zombie → S'.cap z ≠ .zombie := by
    intro z hz
    rw [hcap, upd_apply]
    split
    · simp
    · exact hz
  refine h.rewrite hchains (fun z _ _ hz => hne z hz) fun z hz => hne z ?_
  cases hb : b with
  | nil =>
    rw [hb, List.append_nil] at hz
    exact hp z hz
  | cons y b' =>
    refine h.last hl ?_
    rw [hb, getLast?_split] at hz
    rw [hb]
    exact (getLast?_split (a := [])).mpr hz

theorem trans (hS : StoreOk S) (ht : Trans S act S') : TailInv S' := by
  -- A move that changes the capability of one slot must only not make it a zombie.
  have hset : ∀ {s c} {S' : CapStore}, S'.chains = S.chains → S'.cap = upd S.cap s c →
      c ≠ .zombie → TailInv S' := by
    intro s c S' hchains hcap hc
    refine h.of_cap hchains fun z hz => ?_
    rw [hcap, upd_apply] at hz
    split at hz
    · exact absurd hz hc
    · exact hz
  cases ht with
  | @create x y a b m size alignment base c hx hy hl hcarve hobject =>
    have hc : c ≠ .zombie := by
      cases hobject <;> simp [makeTaskCap, makeEndpointCap, makeCapSpaceCap]
    exact (h.derive hS hy hl hc : TailInv (S.derive x y a b c _))
  | adopt => exact h.of_cap rfl fun z hz => (adopts_adoptCaps.iff (by simp)).mp hz
  | @copy x y a b hx hy hl =>
    have hc : S.cap x ≠ .zombie := fun heq => by simp [heq, Capability.Linked] at hx
    exact h.derive hS hy hl hc
  | @delegate x y a b hx hy hl => exact h.derive hS hy hl hx.2
  | @move x y a b hx hy hl =>
    have hyl : y ∉ a ++ x :: b := hS.fresh hy _ hl
    simp only [List.mem_append, List.mem_cons, not_or] at hyl
    refine h.rewrite rfl (fun z hz hzx hne => ?_) fun z hz => ?_
    · have hzy : z ≠ y := fun heq => hz (by simp [heq])
      show upd (upd S.cap y (S.cap x)) x .null z ≠ _
      rwa [upd_ne _ _ hzx, upd_ne _ _ hzy]
    · show upd (upd S.cap y (S.cap x)) x .null z ≠ _
      -- The last slot of the list is `y`, or the one that was last before.
      rcases getLast?_split.mp hz with ⟨-, rfl⟩ | hz
      · rw [upd_ne _ _ hyl.2.1, upd_same]
        exact hx.2
      · have hmem : z ∈ b := List.mem_of_getLast? hz
        have hzx : z ≠ x := fun heq => (hS.nodup hl).2.1 (heq ▸ hmem)
        have hzy : z ≠ y := fun heq => hyl.2.2 (heq ▸ hmem)
        rw [upd_ne _ _ hzx, upd_ne _ _ hzy]
        exact h.last hl hz
  | @newRoot y i hy =>
    refine h.rewrite rfl (fun z hz hzy hne => ?_) fun z hz => ?_
    · show upd S.cap y (.id i) z ≠ _
      rwa [upd_ne _ _ hzy]
    · obtain rfl : y = z := by simpa using hz
      show upd S.cap y (.id i) y ≠ _
      simp
  | @undelegate z e a m b hz hm he hl =>
    have hcap : ∀ w, S.cap w ≠ .zombie →
        (if w = z then S.cap e else if w ∈ m ∨ w = e then .null else S.cap w) ≠ .zombie := by
      intro w hw
      split
      · exact he.2
      · split
        · simp
        · exact hw
    refine h.rewrite rfl (fun w _ _ hw => hcap w hw) fun w hw => ?_
    show (if w = z then S.cap e else if w ∈ m ∨ w = e then .null else S.cap w) ≠ .zombie
    -- The last slot is `z`, which gets the capability back, or the one that was last before.
    rcases getLast?_split.mp hw with ⟨-, rfl⟩ | hw
    · rw [if_pos rfl]
      exact he.2
    · refine hcap w (h.last hl ?_)
      rw [getLast?_split]
      exact Or.inr hw
  | @destroy s a b hs hl hp => exact h.clear hl hp rfl rfl
  | @drop s a b hs hl hp => exact h.clear hl hp rfl rfl
  | selfDestroy => exact h.of_cap rfl fun _ hz => hz
  | mapTable => exact hset rfl rfl (by simp)
  | unmapTable => exact hset rfl rfl (by simp)
  | mapPage => exact hset rfl rfl (by simp)
  | unmapPage => exact hset rfl rfl (by simp)
  | remapPage => exact hset rfl rfl (by simp)
  | attach => exact hset rfl rfl (by simp)
  | extend => exact hset rfl rfl (by simp)

end TailInv

theorem TailInv.moves {acts : List Act} (h : TailInv S) (hS : StoreOk S)
    (hm : Moves S acts S') : TailInv S' :=
  (hm.invariant (I := fun S => StoreOk S ∧ TailInv S)
    (fun _ _ _ h ht => ⟨h.1.trans ht, h.2.trans h.1 ht⟩) ⟨hS, h⟩).2

/-! ### The invariant of the machine -/

/-- What every move of the machine preserves. -/
structure CapInv (S : CapStore) : Prop where
  ok : StoreOk S
  tail : TailInv S
  mem : MemInv S

theorem CapInv.trans (h : CapInv S) (ht : Trans S act S') : CapInv S' :=
  ⟨h.ok.trans ht, h.tail.trans h.ok ht, h.mem.trans ht⟩

theorem CapInv.moves {acts : List Act} (h : CapInv S) (hm : Moves S acts S') : CapInv S' :=
  hm.invariant (fun _ _ _ h ht => h.trans ht) h

end Caprese

import Caprese.Store.Machine

/-!
# `Caprese.Store.Memory`: no two objects share memory

`MemInv S` says that the ranges of the capabilities are disjoint, where only copies of one
task or endpoint capability may name the same range, and that no memory capability has a
byte left of a task in use or of an attached capability space. What the memory capabilities
have left never grows (`CapStore.Free` and `Trans.free`), because nothing gives memory back.
-/

set_option autoImplicit false

namespace Caprese

open Lib Chains

/-- Two capabilities share no address, unless they are of one object. -/
def Compat (c c' : Capability) : Prop := ∀ a, c.Covers a → c'.Covers a → sameObject c c' = true

/-- Some memory capability has the address `a` left. -/
def CapStore.Free (S : CapStore) (a : Nat) : Prop :=
  ∃ s m, S.cap s = .memory m ∧ (S.cap s).Covers a

/-- The memory discipline. -/
structure MemInv (S : CapStore) : Prop where
  bounds : ∀ s m, S.cap s = .memory m → m.usedSize ≤ m.size ∧
    m.physAddr < CONFIG_MAX_PHYSICAL_ADDRESS ∧ m.size < CONFIG_MAX_PHYSICAL_ADDRESS
  disjoint : ∀ s s', s ≠ s' → Compat (S.cap s) (S.cap s')
  aligned : ∀ s p, S.cap s = .pageTable p →
    PAGE_SIZE ∣ p.table ∧ p.table < CONFIG_MAX_PHYSICAL_ADDRESS
  tasks : ∀ t r a, S.root t = some r → Between t (t + PAGE_SIZE) a → ¬ S.Free a
  spaces : ∀ p t a, S.space p = some t → Between p (p + PAGE_SIZE) a → ¬ S.Free a

variable {S S' : CapStore} {act : Act} {s s' x y z e : SlotPtr} {c c' : Capability}
  {m : MemoryCap} {a : Nat}

/-! ### Ranges -/

theorem sameObject_comm (c c' : Capability) : sameObject c c' = sameObject c' c := by
  cases c <;> cases c' <;> simp [sameObject, eq_comm]

theorem sameObject_self (h : c.Linked) : sameObject c c = true := by
  cases c <;> simp_all [Capability.Linked, sameObject]

theorem sameObject_memory : sameObject (.memory m) c = false := by
  cases c <;> rfl

theorem Compat.symm (h : Compat c c') : Compat c' c := by
  intro a ha ha'
  rw [sameObject_comm]
  exact h a ha' ha

theorem compat_null : Compat .null c := fun _ h => absurd h (by simp [Capability.Covers])

theorem compat_zombie : Compat .zombie c := fun _ h => absurd h (by simp [Capability.Covers])

theorem compat_id {i : IdCap} : Compat (.id i) c :=
  fun _ h => absurd h (by simp [Capability.Covers])

/-- A capability with the range of one that is never copied is as compatible as that. -/
theorem Compat.congr (h : Compat c c') (hcov : ∀ a, c'.Covers a → c'.Covers a)
    {d : Capability} (hd : ∀ a, d.Covers a → c.Covers a) (hc : ∀ c', sameObject c c' = false) :
    Compat d c' := by
  intro a ha ha'
  have htrue := h a (hd a ha) (hcov a ha')
  rw [hc c'] at htrue
  exact absurd htrue (by simp)

/-- A store of a capability that is compatible with all others. -/
theorem disjoint_upd {cap : SlotPtr → Capability} (h : ∀ s s', s ≠ s' → Compat (cap s) (cap s'))
    (hc : ∀ s', s' ≠ x → Compat c (cap s')) :
    ∀ s s', s ≠ s' → Compat (upd cap x c s) (upd cap x c s') := by
  intro s s' hne
  by_cases hs : s = x
  · subst hs
    rw [upd_same, upd_ne _ _ (Ne.symm hne)]
    exact hc s' (Ne.symm hne)
  · rw [upd_ne _ _ hs]
    by_cases hs' : s' = x
    · subst hs'
      rw [upd_same]
      exact (hc s hs).symm
    · rw [upd_ne _ _ hs']
      exact h s s' hne

theorem upd_comm {κ τ : Type} [DecidableEq κ] (f : κ → τ) {i j : κ} (v w : τ) (h : i ≠ j) :
    upd (upd f i v) j w = upd (upd f j w) i v := by
  funext l
  simp only [upd_apply]
  split <;> split <;> simp_all

/-- What a new object covers was left in the memory capability. -/
theorem NewObject.covers {device : Bool} {base size alignment : Nat}
    (h : NewObject device base size alignment c) (ha : c.Covers a) :
    base ≤ a ∧ a < base + size := by
  cases h <;> simpa [Capability.Covers, Between, makeTaskCap, makeEndpointCap,
    makeCapSpaceCap] using ha

/-- What is left after an object was made was left before, behind the object. -/
theorem Carve.covers_carve {size alignment base : Nat} (h : Carve m size alignment base)
    (ha : (Capability.memory (m.carve base size)).Covers a) :
    base + size ≤ a ∧ (Capability.memory m).Covers a := by
  have hlow := h.low
  have hpos := h.pos
  simp only [Capability.Covers, MemoryCap.carve, Between] at ha ⊢
  omega

theorem Carve.covers_object {size alignment base : Nat} (h : Carve m size alignment base)
    (hlo : base ≤ a) (hhi : a < base + size) : (Capability.memory m).Covers a := by
  have hlow := h.low
  have hhigh := h.high
  simp only [Capability.Covers, Between]
  omega

/-! ### The record of a table in a capability -/

/-- Two capabilities that differ in what they record about maps. -/
inductive SameRange : Capability → Capability → Prop
  | pageTable (p q : PageTableCap) : q.table = p.table → SameRange (.pageTable p) (.pageTable q)
  | virtPage (p q : VirtPageCap) : q.physAddr = p.physAddr → q.level = p.level →
      SameRange (.virtPage p) (.virtPage q)
  | capSpace (p q : CapSpaceCap) : q.space = p.space → SameRange (.capSpace p) (.capSpace q)

theorem SameRange.covers (h : SameRange c c') : c'.Covers a ↔ c.Covers a := by
  cases h <;> simp_all [Capability.Covers]

theorem SameRange.not_same (h : SameRange c c') (d : Capability) : sameObject c d = false := by
  cases h <;> cases d <;> rfl

theorem SameRange.not_memory (h : SameRange c c') : c' ≠ .memory m ∧ c ≠ .memory m := by
  cases h <;> simp

/-- A store of a record keeps the memory discipline. -/
theorem MemInv.setRecord (h : MemInv S) (hr : SameRange (S.cap x) c)
    (hcap : S'.cap = upd S.cap x c) (hroot : S'.root = S.root) (hspace : S'.space = S.space) :
    MemInv S' := by
  have hmem : ∀ s m, S'.cap s = .memory m → s ≠ x ∧ S.cap s = .memory m := by
    intro s m hs
    rw [hcap, upd_apply] at hs
    split at hs
    · exact absurd hs hr.not_memory.1
    · exact ⟨by assumption, hs⟩
  have hfree : ∀ a, S'.Free a → S.Free a := by
    rintro a ⟨s, m, hs, ha⟩
    obtain ⟨hne, hs'⟩ := hmem s m hs
    exact ⟨s, m, hs', by rwa [hcap, upd_ne _ _ hne] at ha⟩
  refine ⟨fun s m hs => h.bounds s m (hmem s m hs).2, ?_, fun s p hs => ?_,
    fun t r a ht hin hf => ?_, fun p t a hp hin hf => ?_⟩
  · rw [hcap]
    refine disjoint_upd h.disjoint fun s' hs' => ?_
    exact (h.disjoint x s' (Ne.symm hs')).congr (fun _ h => h) (fun a ha => hr.covers.mp ha)
      hr.not_same
  · rw [hcap, upd_apply] at hs
    split at hs
    · generalize hq : S.cap x = q at hr
      subst hs
      cases hr with
      | pageTable p' q htable => exact htable ▸ h.aligned x p' hq
    · exact h.aligned s p hs
  · exact h.tasks t r a (hroot ▸ ht) hin (hfree a hf)
  · exact h.spaces p t a (hspace ▸ hp) hin (hfree a hf)

/-- The page at `lo` is that of an object that some slot names. -/
def CapStore.Holds (S : CapStore) (lo : Nat) : Prop :=
  ∃ s, (∀ m, S.cap s ≠ .memory m) ∧ ∀ a, Between lo (lo + PAGE_SIZE) a → (S.cap s).Covers a

/-- An object that a slot names has no byte left in a memory capability. -/
theorem MemInv.not_free (h : MemInv S) {lo : Nat} (hs : S.Holds lo)
    (ha : Between lo (lo + PAGE_SIZE) a) : ¬ S.Free a := by
  rintro ⟨s', m, hs', ha'⟩
  obtain ⟨s, hne, hcov⟩ := hs
  have hsame := h.disjoint s' s (fun heq => hne m (heq ▸ hs')) a ha' (hcov a ha)
  rw [hs', sameObject_memory] at hsame
  exact absurd hsame (by simp)

/-- A task comes into use, or a space is attached, whose object a slot names. -/
theorem MemInv.enter (h : MemInv S) (hcap : S'.cap = S.cap)
    (hroot : ∀ t r, S'.root t = some r → S.root t = some r ∨ S.Holds t)
    (hspace : ∀ p t, S'.space p = some t → S.space p = some t ∨ S.Holds p) : MemInv S' := by
  have hfree : ∀ a, S'.Free a → S.Free a := by
    rintro a ⟨s, m, hs, ha⟩
    exact ⟨s, m, hcap ▸ hs, hcap ▸ ha⟩
  refine ⟨by rw [hcap]; exact h.bounds, by rw [hcap]; exact h.disjoint,
    by rw [hcap]; exact h.aligned, fun t r a ht hin hf => ?_, fun p t a hp hin hf => ?_⟩
  · rcases hroot t r ht with hold | hnew
    · exact h.tasks t r a hold hin (hfree a hf)
    · exact h.not_free hnew hin (hfree a hf)
  · rcases hspace p t hp with hold | hnew
    · exact h.spaces p t a hold hin (hfree a hf)
    · exact h.not_free hnew hin (hfree a hf)

/-! ### The moves -/

/-- A move that only carries capabilities about keeps the memory discipline. -/
theorem MemInv.of_origin (h : MemInv S) (hroot : S'.root = S.root) (hspace : S'.space = S.space)
    (hdisjoint : ∀ s s', s ≠ s' → Compat (S'.cap s) (S'.cap s'))
    (horigin : ∀ s, (∀ a, ¬ (S'.cap s).Covers a) ∧ (∀ m, S'.cap s ≠ .memory m) ∧
      (∀ p, S'.cap s ≠ .pageTable p) ∨ ∃ s', S'.cap s = S.cap s') : MemInv S' := by
  have hmem : ∀ {s m}, S'.cap s = .memory m → ∃ s', S.cap s' = .memory m := by
    intro s m hs
    rcases horigin s with ⟨-, hne, -⟩ | ⟨s', hs'⟩
    · exact absurd hs (hne m)
    · exact ⟨s', hs' ▸ hs⟩
  have hfree : ∀ a, S'.Free a → S.Free a := by
    rintro a ⟨s, m, hs, ha⟩
    obtain ⟨s', hs'⟩ := hmem hs
    exact ⟨s', m, hs', by rw [hs'] ; rwa [hs] at ha⟩
  refine ⟨fun s m hs => ?_, hdisjoint, fun s p hs => ?_, fun t r a ht hin hf => ?_,
    fun p t a hp hin hf => ?_⟩
  · obtain ⟨s', hs'⟩ := hmem hs
    exact h.bounds s' m hs'
  · rcases horigin s with ⟨-, -, hne⟩ | ⟨s', hs'⟩
    · exact absurd hs (hne p)
    · exact h.aligned s' p (hs' ▸ hs)
  · exact h.tasks t r a (hroot ▸ ht) hin (hfree a hf)
  · exact h.spaces p t a (hspace ▸ hp) hin (hfree a hf)

theorem MemInv.create (h : MemInv S) {size alignment base : Nat} (hx : S.cap x = .memory m)
    (hy : S.cap y = .null) (carve : Carve m size alignment base)
    (object : NewObject m.device base size alignment c)
    (hcap : S'.cap = upd (upd S.cap y c) x (.memory (m.carve base size)))
    (hroot : S'.root = S.root) (hspace : S'.space = S.space) : MemInv S' := by
  have hne : y ≠ x := fun heq => by simp [← heq, hy] at hx
  obtain ⟨hused, hphys, hsize⟩ := h.bounds x m hx
  have hlow := carve.low
  have hhigh := carve.high
  -- What the new store covers was covered by `x` before, or by a slot that the move leaves alone.
  have hcovers : ∀ {s a}, (S'.cap s).Covers a →
      (s = x ∧ base + size ≤ a ∧ (S.cap x).Covers a) ∨
      (s = y ∧ base ≤ a ∧ a < base + size ∧ (S.cap x).Covers a) ∨
      (s ≠ x ∧ s ≠ y ∧ S'.cap s = S.cap s ∧ (S.cap s).Covers a) := by
    intro s a ha
    by_cases hsx : s = x
    · subst hsx
      rw [hcap, upd_same] at ha
      rw [hx]
      exact Or.inl ⟨rfl, carve.covers_carve ha⟩
    · rw [hcap, upd_ne _ _ hsx] at ha
      by_cases hsy : s = y
      · subst hsy
        rw [upd_same] at ha
        obtain ⟨hlo, hhi⟩ := object.covers ha
        rw [hx]
        exact Or.inr (Or.inl ⟨rfl, hlo, hhi, carve.covers_object hlo hhi⟩)
      · rw [upd_ne _ _ hsy] at ha
        exact Or.inr (Or.inr ⟨hsx, hsy, by rw [hcap, upd_ne _ _ hsx, upd_ne _ _ hsy], ha⟩)
  have hmem : ∀ {s n}, S'.cap s = .memory n → n.usedSize ≤ n.size ∧
      n.physAddr < CONFIG_MAX_PHYSICAL_ADDRESS ∧ n.size < CONFIG_MAX_PHYSICAL_ADDRESS := by
    intro s n hs
    rw [hcap, upd_apply, upd_apply] at hs
    split at hs
    · cases hs
      refine ⟨?_, hphys, hsize⟩
      show base + size - m.physAddr ≤ m.size
      omega
    · split at hs
      · subst hs
        cases object
        have hb := carve.base_lt
        refine ⟨Nat.zero_le _, hb, ?_⟩
        show size < _
        omega
      · exact h.bounds s n hs
  -- No other slot covers a byte of the memory of `x`, which is not an object.
  have hexcl : ∀ {s a}, s ≠ x → (S.cap x).Covers a → ¬ (S.cap s).Covers a := by
    intro s a hs ha ha'
    have hsame := h.disjoint x s (Ne.symm hs) a ha ha'
    rw [hx, sameObject_memory] at hsame
    exact absurd hsame (by simp)
  have hfree : ∀ a, S'.Free a → S.Free a := by
    rintro a ⟨s, n, hs, ha⟩
    rcases hcovers ha with ⟨-, -, ha'⟩ | ⟨-, -, -, ha'⟩ | ⟨-, -, heq, ha'⟩
    · exact ⟨x, m, hx, ha'⟩
    · exact ⟨x, m, hx, ha'⟩
    · exact ⟨s, n, heq ▸ hs, ha'⟩
  -- Two slots of the new store lie in the rest of the memory, in the new object, or outside.
  refine ⟨fun s n hs => hmem hs, fun s s' hss a ha ha' => ?_, fun s p hs => ?_,
    fun t r a ht hin hf => ?_, fun p t a hp hin hf => ?_⟩
  · rcases hcovers ha with ⟨rfl, h1, h2⟩ | ⟨rfl, h1, h2, h3⟩ | ⟨h1, h2, heq, h3⟩
    · rcases hcovers ha' with ⟨rfl, h1', h2'⟩ | ⟨rfl, h1', h2', h3'⟩ | ⟨h1', h2', heq', h3'⟩
      · exact absurd rfl hss
      · omega
      · exact absurd h3' (hexcl h1' h2)
    · rcases hcovers ha' with ⟨rfl, h1', h2'⟩ | ⟨rfl, h1', h2', h3'⟩ | ⟨h1', h2', heq', h3'⟩
      · omega
      · exact absurd rfl hss
      · exact absurd h3' (hexcl h1' h3)
    · rcases hcovers ha' with ⟨rfl, h1', h2'⟩ | ⟨rfl, h1', h2', h3'⟩ | ⟨h1', h2', heq', h3'⟩
      · exact absurd h3 (hexcl h1 h2')
      · exact absurd h3 (hexcl h1 h3')
      · rw [heq, heq']
        exact h.disjoint s s' hss a h3 h3'
  · rw [hcap, upd_apply, upd_apply] at hs
    split at hs
    · exact absurd hs (by simp)
    · split at hs
      · subst hs
        cases object
        exact ⟨by simpa using carve.aligned, carve.base_lt⟩
      · exact h.aligned s p hs
  · exact h.tasks t r a (hroot ▸ ht) hin (hfree a hf)
  · exact h.spaces p t a (hspace ▸ hp) hin (hfree a hf)

/-- What is emptied and filled from other slots keeps the memory discipline if no capability
comes to lie in two slots that was in one. -/
theorem MemInv.clear (h : MemInv S) {L : Set (List SlotPtr)} {tables : TablePtr → Nat → Pte}
    {trace : List Event} : MemInv { S with
      cap := upd S.cap s .null, chains := L, tables := tables, trace := trace } := by
  refine h.of_origin rfl rfl (disjoint_upd h.disjoint fun _ _ => compat_null) fun s' => ?_
  by_cases hs : s' = s
  · simp [hs, Capability.Covers]
  · exact Or.inr ⟨s', upd_ne _ _ hs⟩

theorem MemInv.adoptCap (h : MemInv S) (slot : SlotPtr) (level virtAddrBase : Nat) :
    MemInv { S with cap := adoptCap S.cap slot level virtAddrBase } := by
  unfold Caprese.adoptCap
  split
  · rename_i p hp
    exact h.setRecord (x := slot) (hp ▸ .pageTable p _ rfl) rfl rfl rfl
  · exact h

/-- The capability of a task is none of those that `create_task_object` marks. -/
theorem adoptCap_eq {cap : SlotPtr → Capability} {slot : SlotPtr} {level virtAddrBase : Nat}
    (hs : ∀ p, cap s ≠ .pageTable p) : Caprese.adoptCap cap slot level virtAddrBase s = cap s := by
  unfold Caprese.adoptCap
  cases hcap : cap slot with
  | pageTable p =>
    refine upd_ne _ _ fun heq => hs p ?_
    rw [heq, hcap]
  | _ => rfl

theorem adoptCaps_eq {cap : SlotPtr → Capability} {root slot0 slot1 : SlotPtr}
    (hs : ∀ p, cap s ≠ .pageTable p) : adoptCaps cap root slot0 slot1 s = cap s := by
  unfold adoptCaps
  have h1 : Caprese.adoptCap cap root MAX_PAGE_TABLE_LEVEL 0 s = cap s := adoptCap_eq hs
  have h2 : Caprese.adoptCap (Caprese.adoptCap cap root MAX_PAGE_TABLE_LEVEL 0) slot0 0
      CONFIG_CAPABILITY_SPACE_BASE s = cap s :=
    (adoptCap_eq fun p => h1 ▸ hs p).trans h1
  exact (adoptCap_eq fun p => h2 ▸ hs p).trans h2

/-- All moves keep the memory discipline. -/
theorem MemInv.trans (h : MemInv S) (ht : Trans S act S') : MemInv S' := by
  cases ht with
  | create hx hy _ carve object => exact h.create hx hy carve object rfl rfl rfl
  | @adopt y capSpace root slot0 slot1 task p r t0 t1 tables hy hp hr h0 h1 _ _ _ _ =>
    have hcaps : MemInv { S with cap := adoptCaps S.cap root slot0 slot1 } :=
      ((h.adoptCap root _ _).adoptCap slot0 _ _).adoptCap slot1 _ _
    -- The task and its space come into the tables: each is covered by the slot that made it.
    refine hcaps.enter rfl (fun t r ht => ?_) fun q t hq => ?_
    · change upd S.root task (some _) t = some r at ht
      by_cases heq : t = task
      · have hcap : adoptCaps S.cap root slot0 slot1 y = makeTaskCap task :=
          (adoptCaps_eq (by simp [hy, makeTaskCap])).trans hy
        refine Or.inr ⟨y, fun m hm => ?_, fun a ha => ?_⟩
        · change adoptCaps S.cap root slot0 slot1 y = _ at hm
          simp [hcap, makeTaskCap] at hm
        · show (adoptCaps S.cap root slot0 slot1 y).Covers a
          rw [hcap]
          exact heq ▸ ha
      · exact Or.inl (by rwa [upd_ne _ _ heq] at ht)
    · change upd S.space p.space (some _) q = some t at hq
      by_cases heq : q = p.space
      · have hcap : adoptCaps S.cap root slot0 slot1 capSpace = .capSpace p :=
          (adoptCaps_eq (by simp [hp])).trans hp
        refine Or.inr ⟨capSpace, fun m hm => ?_, fun a ha => ?_⟩
        · change adoptCaps S.cap root slot0 slot1 capSpace = _ at hm
          simp [hcap] at hm
        · show (adoptCaps S.cap root slot0 slot1 capSpace).Covers a
          subst heq
          rw [hcap]
          exact ha
      · exact Or.inl (by rwa [upd_ne _ _ heq] at hq)
  | @copy x y a b hx hy hl =>
    have hxy : y ≠ x := fun heq => by simp [← heq, hy, Capability.Linked] at hx
    have hcap : upd (upd S.cap y (S.cap x)) x (S.cap x) = upd S.cap y (S.cap x) := by
      rw [upd_comm _ _ _ hxy, upd_self]
    -- The copy overlaps its original only, and they are of the same object.
    refine h.of_origin rfl rfl ?_ fun s => ?_
    · show ∀ s s', s ≠ s' → Compat (upd (upd S.cap y (S.cap x)) x (S.cap x) s)
        (upd (upd S.cap y (S.cap x)) x (S.cap x) s')
      rw [hcap]
      refine disjoint_upd h.disjoint fun s' hs' => ?_
      by_cases hs : s' = x
      · rw [hs]
        exact fun _ _ _ => sameObject_self hx
      · exact h.disjoint x s' (Ne.symm hs)
    · right
      show ∃ s', upd (upd S.cap y (S.cap x)) x (S.cap x) s = S.cap s'
      rw [hcap, upd_apply]
      split
      · exact ⟨x, rfl⟩
      · exact ⟨s, rfl⟩
  | @delegate x y a b hx hy hl =>
    have hxy : y ≠ x := fun heq => hx.1 (heq ▸ hy)
    refine h.of_origin rfl rfl ?_ fun s => ?_
    · show ∀ s s', s ≠ s' → Compat (upd (upd S.cap y (S.cap x)) x .zombie s)
        (upd (upd S.cap y (S.cap x)) x .zombie s')
      rw [upd_comm _ _ _ hxy]
      refine disjoint_upd (disjoint_upd h.disjoint fun _ _ => compat_zombie) fun s' hs' => ?_
      rw [upd_apply]
      split
      · exact compat_zombie.symm
      · exact h.disjoint x s' (Ne.symm ‹_›)
    · show _ ∨ ∃ s', upd (upd S.cap y (S.cap x)) x .zombie s = S.cap s'
      by_cases hs : s = x
      · simp [CapStore.derive, hs, Capability.Covers]
      · rw [upd_ne _ _ hs, upd_apply]
        right
        split
        · exact ⟨x, rfl⟩
        · exact ⟨s, rfl⟩
  | @move x y a b hx hy hl =>
    have hxy : y ≠ x := fun heq => hx.1 (heq ▸ hy)
    refine h.of_origin rfl rfl ?_ fun s => ?_
    · show ∀ s s', s ≠ s' → Compat (upd (upd S.cap y (S.cap x)) x .null s)
        (upd (upd S.cap y (S.cap x)) x .null s')
      -- The cleared slot covers nothing, so `y` covers what `x` covered.
      rw [upd_comm _ _ _ hxy]
      refine disjoint_upd (disjoint_upd h.disjoint fun _ _ => compat_null) fun s' hs' => ?_
      rw [upd_apply]
      split
      · exact compat_null.symm
      · exact h.disjoint x s' (Ne.symm ‹_›)
    · show _ ∨ ∃ s', upd (upd S.cap y (S.cap x)) x .null s = S.cap s'
      by_cases hs : s = x
      · simp [hs, Capability.Covers]
      · rw [upd_ne _ _ hs, upd_apply]
        right
        split
        · exact ⟨x, rfl⟩
        · exact ⟨s, rfl⟩
  | @newRoot y i hy =>
    refine h.of_origin rfl rfl (disjoint_upd h.disjoint fun _ _ => compat_id) fun s => ?_
    by_cases hs : s = y
    · simp [hs, Capability.Covers]
    · exact Or.inr ⟨s, upd_ne _ _ hs⟩
  | @undelegate z e a m b hz hm he hl =>
    -- The capability of the last borrower goes back to `z`, and the slots up to it are empty.
    have hez : e ≠ z := fun heq => he.2 (heq ▸ hz)
    refine h.of_origin rfl rfl (fun s s' hss => ?_) fun s => ?_
    · show Compat (if s = z then _ else _) (if s' = z then _ else _)
      by_cases hs : s = z
      · rw [if_pos hs, if_neg fun hs' => hss (hs.trans hs'.symm)]
        split
        · exact compat_null.symm
        · rename_i hn
          exact h.disjoint e s' fun heq => hn (Or.inr heq.symm)
      · rw [if_neg hs]
        by_cases hs' : s' = z
        · rw [if_pos hs']
          split
          · exact compat_null
          · rename_i hn
            exact h.disjoint s e fun heq => hn (Or.inr heq)
        · rw [if_neg hs']
          split
          · exact compat_null
          · split
            · exact compat_null.symm
            · exact h.disjoint s s' hss
    · show _ ∨ ∃ s', (if s = z then _ else _) = S.cap s'
      by_cases hs : s = z
      · exact Or.inr ⟨e, if_pos hs⟩
      · by_cases hn : s ∈ m ∨ s = e
        · simp [hs, hn, Capability.Covers]
        · exact Or.inr ⟨s, by rw [if_neg hs, if_neg hn]⟩
  | destroy => exact h.clear
  | drop => exact h.clear
  | selfDestroy => exact h.enter rfl (fun _ _ ht => Or.inl ht) fun _ _ hp => Or.inl hp
  | @mapTable x y p c index hx hy =>
    -- A change of the record of a mapping covers the same bytes as before.
    exact h.setRecord (x := y) (hy ▸ .pageTable c _ rfl) rfl rfl rfl
  | @unmapTable x y p c index hx hy =>
    exact h.setRecord (x := y) (hy ▸ .pageTable c _ rfl) rfl rfl rfl
  | @mapPage x y p c index r w e hx hy =>
    exact h.setRecord (x := y) (hy ▸ .virtPage c _ rfl rfl) rfl rfl rfl
  | @unmapPage x y p c index hx hy =>
    exact h.setRecord (x := y) (hy ▸ .virtPage c _ rfl rfl) rfl rfl rfl
  | @remapPage x o y p q c index r w e hx ho hy =>
    exact h.setRecord (x := y) (hy ▸ .virtPage c _ rfl rfl) rfl rfl rfl
  | @attach x y c p table index number hx hy =>
    have hrec : MemInv (S.setCap y (.capSpace { p with used := true })) :=
      h.setRecord (x := y) (hy ▸ .capSpace p _ rfl) rfl rfl rfl
    refine hrec.enter rfl (fun _ _ ht => Or.inl ht) fun q t hq => ?_
    change upd S.space p.space (some _) q = some t at hq
    by_cases heq : q = p.space
    · have hcap : upd S.cap y (.capSpace { p with used := true }) y = _ := upd_same _ _ _
      refine Or.inr ⟨y, fun m hm => ?_, fun a ha => ?_⟩
      · change upd S.cap y (.capSpace _) y = _ at hm
        simp at hm
      · show (upd S.cap y _ y).Covers a
        rw [hcap]
        exact heq ▸ ha
    · exact Or.inl (by rwa [upd_ne _ _ heq] at hq)
  | @extend x y c p table parentTable index level va hx hy =>
    exact h.setRecord (x := y) (hy ▸ .pageTable p _ rfl) rfl rfl rfl

end Caprese

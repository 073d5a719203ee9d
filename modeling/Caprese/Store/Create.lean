import Caprese.Store.Refine

/-!
# `Caprese.Store.Create`: objects are carved out of memory

`create_memory_object` rounds the first free address up to the alignment and subtracts it
from the end of the memory, both on 64-bit values. `MemoryCap.Fits` says that neither wraps
around: then a successful call carves a range out of what the memory capability has left
(`Carve`), and the objects of all types but tasks follow. A task also takes over its tables
and its first capability space (`Store/CreateTask.lean`).
-/

set_option autoImplicit false

namespace Caprese

open Lib Prog Chains

/-- Where `create_memory_object` puts an object. -/
def MemoryCap.baseAddr (cap : MemoryCap) (alignment : Nat) : Nat :=
  roundUp (cap.physAddr + cap.usedSize) alignment

/-- The address of a new object is computed without a wrap-around, and it does not lie behind
the end of the memory. -/
structure MemoryCap.Fits (cap : MemoryCap) (alignment : Nat) : Prop where
  noWrap : cap.physAddr + cap.usedSize + alignment ≤ 2 ^ 64
  inside : cap.baseAddr alignment ≤ cap.physAddr + cap.size

instance (cap : MemoryCap) (alignment : Nat) : Decidable (cap.Fits alignment) :=
  decidable_of_iff (cap.physAddr + cap.usedSize + alignment ≤ 2 ^ 64 ∧
      cap.baseAddr alignment ≤ cap.physAddr + cap.size)
    ⟨fun h => ⟨h.1, h.2⟩, fun h => ⟨h.noWrap, h.inside⟩⟩

/-- `create_memory_object` carves out the object and does not stop. -/
def MemoryCap.Grants (cap : MemoryCap) (size alignment : Nat) : Prop :=
  size ≠ 0 ∧
  size ≤ (cap.physAddr + cap.size + 2 ^ 64 - cap.baseAddr alignment) % 2 ^ 64 ∧
  cap.baseAddr alignment < CONFIG_MAX_PHYSICAL_ADDRESS ∧ size < CONFIG_MAX_PHYSICAL_ADDRESS

instance (cap : MemoryCap) (size alignment : Nat) : Decidable (cap.Grants size alignment) :=
  inferInstanceAs (Decidable (_ ∧ _ ∧ _ ∧ _))

/-- If the request is granted, nothing wraps around. -/
def MemoryCap.Safe (cap : MemoryCap) (size alignment : Nat) : Prop :=
  cap.Grants size alignment → cap.Fits alignment

instance (cap : MemoryCap) (size alignment : Nat) : Decidable (cap.Safe size alignment) :=
  inferInstanceAs (Decidable (_ → _))

/-- What is promised of a memory capability. -/
structure MemoryCap.Bounds (cap : MemoryCap) : Prop where
  used : cap.usedSize ≤ cap.size
  phys : cap.physAddr < CONFIG_MAX_PHYSICAL_ADDRESS
  size : cap.size < CONFIG_MAX_PHYSICAL_ADDRESS

theorem MemInv.memory {S : CapStore} (h : MemInv S) {s : SlotPtr} {m : MemoryCap}
    (hs : S.cap s = .memory m) : m.Bounds :=
  ⟨(h.bounds s m hs).1, (h.bounds s m hs).2.1, (h.bounds s m hs).2.2⟩

variable {cfg : Config} {k k' k₁ : Kernel} {t : TaskPtr} {x y s : SlotPtr} {a b : List SlotPtr}
  {c c' : Capability} {m : MemoryCap} {size alignment : Nat}

/-! ### Addresses -/

/-- Rounding up does not go down and reaches a multiple. -/
theorem roundUp_spec {v : Nat} (h : v + alignment ≤ 2 ^ 64) :
    v ≤ roundUp v alignment ∧ (alignment = 0 ∨ alignment ∣ roundUp v alignment) := by
  unfold roundUp
  split
  · rename_i hzero
    exact ⟨Nat.le_refl v, Or.inl hzero⟩
  · rename_i hpos
    have hpos' : 0 < alignment := Nat.pos_of_ne_zero hpos
    rw [Nat.mod_eq_of_lt (by omega)]
    refine ⟨?_, Or.inr (Nat.dvd_mul_left _ _)⟩
    have hdiv := Nat.div_add_mod (v + alignment - 1) alignment
    have hmod := Nat.mod_lt (v + alignment - 1) hpos'
    rw [Nat.mul_comm] at hdiv
    omega

/-- The remaining size, if the base address does not lie behind the memory. -/
theorem MemoryCap.Fits.remSize (h : m.Fits alignment) (hb : m.Bounds) :
    (m.physAddr + m.size + 2 ^ 64 - m.baseAddr alignment) % 2 ^ 64
      = m.physAddr + m.size - m.baseAddr alignment := by
  have hinside := h.inside
  have hphys : m.physAddr < 2 ^ 36 := hb.phys
  have hsize : m.size < 2 ^ 36 := hb.size
  omega

/-- A request that the remaining size covers carves out a range. -/
theorem MemoryCap.Fits.carve (h : m.Fits alignment) (hsize : size ≠ 0)
    (hrem : ¬ m.physAddr + m.size - m.baseAddr alignment < size)
    (hlt : m.baseAddr alignment < CONFIG_MAX_PHYSICAL_ADDRESS) :
    Carve m size alignment (m.baseAddr alignment) := by
  obtain ⟨hle, hdvd⟩ := roundUp_spec h.noWrap
  have hinside := h.inside
  exact ⟨by omega, hdvd, hle, by omega, hlt⟩

/-- The used size that is stored, without a wrap-around. -/
theorem Carve.usedSize {base : Nat} (h : Carve m size alignment base) (hb : m.Bounds) :
    (base + size + 2 ^ 64 - m.physAddr) % 2 ^ 64 % CONFIG_MAX_PHYSICAL_ADDRESS
      = base + size - m.physAddr := by
  have hlow := h.low
  have hhigh := h.high
  have hphys : m.physAddr < 2 ^ 36 := hb.phys
  have hsize : m.size < 2 ^ 36 := hb.size
  have hlt : base + size - m.physAddr < CONFIG_MAX_PHYSICAL_ADDRESS := by
    show _ < 2 ^ 36
    omega
  have heq : base + size + 2 ^ 64 - m.physAddr = base + size - m.physAddr + 2 ^ 64 := by omega
  have hlt' : base + size - m.physAddr < 2 ^ 64 := by omega
  rw [heq, Nat.add_mod_right, Nat.mod_eq_of_lt hlt', Nat.mod_eq_of_lt hlt]

/-! ### `create_memory_object` -/

/-- The new memory capability. -/
def newMemory (m : MemoryCap) (size base : Nat) : Capability := .memory ⟨m.device, size, base, 0⟩

/-- What is left when `create_memory_object` succeeded. -/
structure Carved (k : Kernel) (x y : SlotPtr) (a b : List SlotPtr) (m : MemoryCap)
    (size base : Nat) (c : Capability) (k' : Kernel) : Prop where
  inv : StoreInv k' ∅
  store : k'.store = k.store.derive x y a b c (.memory (m.carve base size))

theorem wp_checkUnused {Q : Unit → Kernel → Prop} (h : Q () k) :
    wp (checkUnused s) (.debug cfg) Q NoSwitch k := by
  unfold checkUnused
  rw [wp_bind, wp_get, wp_kassert]
  split
  · exact h
  · exact Stop.noConfusion

theorem wp_createMemoryObject (h : Popped k t y k₁) (hx : k.cap x = .memory m)
    (hl : a ++ x :: b ∈ k.chains) (hb : m.Bounds) (hsafe : m.Safe size alignment)
    {Q : Option SlotPtr → Kernel → Prop} (hnone : ∀ k', Popped k t y k' → Q none k')
    (hsome : ∀ base k', Carve m size alignment base →
      Carved k x y a b m size base (newMemory m size base) k' → Q (some y) k') :
    wp (createMemoryObject y x size alignment) (.debug cfg) Q NoSwitch k₁ := by
  have hx₁ : k₁.cap x = .memory m := by rw [h.cap, hx]
  have hfail : ∀ e, Q none { k₁ with errno := e } := fun e => hnone _ (h.errno e)
  unfold createMemoryObject
  rw [wp_bind]
  refine wp_memoryCap hx₁ ?_
  rw [wp_bind]
  refine wp_checkUnused ?_
  rw [wp_ite]
  split
  · exact hfail _
  · rename_i hsize
    rw [wp_ite]
    split
    · exact hfail _
    · rename_i hrem
      unfold makeMemoryCap storeCap
      simp only [wp_bind, wp_kassert]
      split
      · rename_i hbase
        split
        · rename_i hsize'
          have hfit := hsafe ⟨hsize, Nat.le_of_not_lt hrem, hbase, hsize'⟩
          have hle : ¬ m.physAddr + m.size - m.baseAddr alignment < size := by
            rwa [← hfit.remSize hb]
          have hcarve := hfit.carve hsize hle hbase
          simp only [wp_pure, wp_modify]
          unfold MemoryCap.baseAddr at hcarve
          rw [Nat.mod_eq_of_lt hbase, Nat.mod_eq_of_lt hsize', hcarve.usedSize hb]
          refine h.wp_derive (by simp) noSwitch_diverged (by simp) hl fun k' hinv hstore => ?_
          exact hsome _ k' hcarve ⟨hinv, hstore⟩
        · exact Stop.noConfusion
      · exact Stop.noConfusion

/-! ### Spaces that are attached nowhere -/

/-- All slots of a space that is not attached are empty and on no list. -/
theorem StoreInv.detached {held : Set SlotPtr} {p : SpacePtr} (h : StoreInv k held)
    (hp : (k.capSpaces p).task = none) (hs : s.space = p) : k.slots s = ⟨.null, none, none⟩ := by
  have hown : k.owner s = none := by
    unfold Kernel.owner
    rw [hs, hp, ite_self]
  obtain ⟨hcap, hl⟩ := h.outside s hown
  obtain ⟨hprev, hnext⟩ := Links.isList_singleton.mp hl
  cases hslot : k.slots s with
  | mk cap prev next =>
    unfold Kernel.cap at hcap
    unfold Kernel.links at hprev hnext
    simp only [hslot] at hcap hprev hnext
    rw [hcap, hprev, hnext]

/-- To zero such a space is seen by nobody. -/
theorem StoreInv.zeroCapSpace {held : Set SlotPtr} {p : SpacePtr} (h : StoreInv k held)
    (hp : (k.capSpaces p).task = none) :
    StoreInv (k.zeroCapSpace p) held ∧ (k.zeroCapSpace p).store = k.store := by
  have hslots : (k.zeroCapSpace p).slots = k.slots := by
    funext s
    show (if s.space = p then _ else _) = _
    split
    · rename_i hs
      exact (h.detached hp hs).symm
    · rfl
  have hcap : (k.zeroCapSpace p).cap = k.cap := by
    unfold Kernel.cap
    rw [hslots]
  have hlinks : (k.zeroCapSpace p).links = k.links := by
    unfold Kernel.links
    rw [hslots]
  have htask : ∀ q, ((k.zeroCapSpace p).capSpaces q).task = (k.capSpaces q).task := by
    intro q
    show (upd k.capSpaces p ⟨none, 0⟩ q).task = _
    by_cases hq : q = p
    · rw [hq, upd_same, hp]
    · rw [upd_ne _ _ hq]
  have hown : (k.zeroCapSpace p).owner = k.owner := by
    funext s
    unfold Kernel.owner
    rw [htask]
    by_cases hs : s.space = p
    · rw [hs, hp, ite_self, ite_self]
    · have heq : (k.zeroCapSpace p).capSpaces s.space = k.capSpaces s.space := upd_ne _ _ hs
      rw [heq]
  refine ⟨⟨hlinks ▸ h.links, fun s hs => ?_, fun s hs => ?_, fun q t hq => ?_, fun t ht => ?_⟩, ?_⟩
  · rw [hcap, hlinks]
    exact h.outside s (hown ▸ hs)
  · rw [hcap, hlinks]
    exact h.isolated s hs
  · exact h.inUse q t (htask q ▸ hq)
  · obtain ⟨l, hl⟩ := h.free t ht
    exact ⟨l, hlinks ▸ hl.list, hl.head, hl.count, fun s => by rw [hown, hcap]; exact hl.mem s⟩
  · have hchains : (k.zeroCapSpace p).chains = k.chains := by
      unfold Kernel.chains
      rw [hlinks, hcap]
    have hspace : (fun q => ((k.zeroCapSpace p).capSpaces q).task)
        = fun q => (k.capSpaces q).task := funext htask
    unfold Kernel.store
    rw [hcap, hchains, hspace]
    rfl

/-! ### Objects of the other types -/

/-- An object of the given size and alignment was carved out of the memory in `x` for `y`. -/
def Created (S : CapStore) (x y : SlotPtr) (size alignment : Nat) (S' : CapStore) : Prop :=
  ∃ (a b : List SlotPtr) (m : MemoryCap) (base : Nat) (c : Capability),
    S.cap x = .memory m ∧ S.cap y = .null ∧ a ++ x :: b ∈ S.chains ∧
    Carve m size alignment base ∧ NewObject m.device base size alignment c ∧
    S' = { S.derive x y a b c (.memory (m.carve base size)) with
      tables := c.initTables S.tables }

theorem Created.trans {S S' : CapStore} (h : Created S x y size alignment S') :
    Trans S (.create x y) S' := by
  obtain ⟨a, b, m, base, c, hx, hy, hl, hcarve, hobject, rfl⟩ := h
  exact .create hx hy hl hcarve hobject

namespace Carved

variable {base : Nat} (h : Carved k x y a b m size base c k')

include h

theorem cap_dst (hxy : x ≠ y) : k'.cap y = c := by
  have hcap : k'.cap = upd (upd k.cap y c) x (.memory (m.carve base size)) :=
    congrArg CapStore.cap h.store
  rw [hcap, upd_ne _ _ (Ne.symm hxy), upd_same]

/-- A store to other parts of the kernel. -/
theorem frame {k'' : Kernel} (hf : StoreFrame k' k'') (hs : k''.store = k'.store) :
    Carved k x y a b m size base c k'' := ⟨hf.storeInv h.inv, hs.trans h.store⟩

/-- The capability of the object replaces that of its memory. -/
theorem setCap {d : Capability} (hxy : x ≠ y) (hc : c ≠ .null) (hd : d ≠ .null) :
    Carved k x y a b m size base d (k'.setCap y d) := by
  have hy : k'.cap y ≠ .null := h.cap_dst hxy ▸ hc
  exact ⟨h.inv.update hy hd, by rw [setCap_store hy hd, h.store, CapStore.derive_setCap hxy]⟩

/-- The object is there. -/
theorem created {alignment : Nat} (hx : k.cap x = .memory m) (hy : k.cap y = .null)
    (hl : a ++ x :: b ∈ k.chains) (hcarve : Carve m size alignment base)
    (hobject : NewObject m.device base size alignment c) :
    Created k.store x y size alignment
      { k'.store with tables := c.initTables k.store.tables } :=
  ⟨a, b, m, base, c, hx, hy, hl, hcarve, hobject, by rw [h.store]⟩

/-- The object is there, if it is no table. -/
theorem created_store {alignment : Nat} (hx : k.cap x = .memory m) (hy : k.cap y = .null)
    (hl : a ++ x :: b ∈ k.chains) (hcarve : Carve m size alignment base)
    (hobject : NewObject m.device base size alignment c)
    (hc : c.initTables k.store.tables = k.store.tables) :
    Created k.store x y size alignment k'.store := by
  have hcreated := h.created hx hy hl hcarve hobject
  have htables : k'.store.tables = k.store.tables := by
    rw [h.store]
    rfl
  rwa [hc, ← htables] at hcreated

end Carved

theorem wp_createKernelObject (h : Popped k t y k₁) (hx : k.cap x = .memory m)
    (hl : a ++ x :: b ∈ k.chains) (hb : m.Bounds) (hsafe : m.device = false → m.Safe size alignment)
    {Q : Option PhysAddr → Kernel → Prop} (hnone : ∀ k', Popped k t y k' → Q none k')
    (hsome : ∀ base k', m.device = false → Carve m size alignment base →
      Carved k x y a b m size base (newMemory m size base) k' → Q (some base) k') :
    wp (createKernelObject y x size alignment) (.debug cfg) Q NoSwitch k₁ := by
  have hx₁ : k₁.cap x = .memory m := by rw [h.cap, hx]
  have hxy : x ≠ y := h.ne (by simp [hx])
  unfold createKernelObject
  rw [wp_bind]
  refine wp_memoryCap hx₁ ?_
  rw [wp_bind]
  refine wp_checkUnused ?_
  rw [wp_ite]
  split
  · exact hnone _ (h.errno _)
  · rename_i hdevice
    have hdevice : m.device = false := by simpa using hdevice
    rw [wp_bind]
    refine wp_createMemoryObject h hx hl hb (hsafe hdevice) hnone fun base k' hcarve hk' => ?_
    rw [wp_bind]
    exact wp_memoryCap (hk'.cap_dst hxy) (hsome base k' hdevice hcarve hk')

/-- The size and the alignment of an object that the kernel itself stores into. -/
def kernelRequest (device : Bool) (size : Nat) : Option (Nat × Nat) :=
  if device then none else some (size, size)

/-- The size and the alignment of a page. -/
def pageRequest (level : Nat) : Option (Nat × Nat) :=
  if level ≤ MAX_PAGE_TABLE_LEVEL then some (getPageSize level, getPageSize level) else none

/-- The size and the alignment that `create_object` asks for, unless it refuses first. -/
def objectRequest (device : Bool) (type : CapType) (args : List Nat) : Option (Nat × Nat) :=
  match type with
  | .mem => some (args.getD 0 0, args.getD 1 0)
  | .task | .pageTable | .capSpace => kernelRequest device PAGE_SIZE
  | .endpoint => kernelRequest device ENDPOINT_SIZE
  | .virtPage => pageRequest (args.getD 3 0)
  | _ => none

/-- A request that wraps around nowhere. -/
def MemoryCap.SafeRequest (cap : MemoryCap) (request : Option (Nat × Nat)) : Prop :=
  ∀ size alignment, request = some (size, alignment) → cap.Safe size alignment

instance (cap : MemoryCap) (request : Option (Nat × Nat)) : Decidable (cap.SafeRequest request) :=
  match request with
  | none => isTrue (by simp [MemoryCap.SafeRequest])
  | some (size, alignment) => decidable_of_iff (cap.Safe size alignment)
      ⟨fun h _ _ heq => by cases heq; exact h, fun h => h size alignment rfl⟩

theorem MemoryCap.SafeRequest.kernel {size : Nat}
    (h : m.SafeRequest (kernelRequest m.device size)) (hdevice : m.device = false) :
    m.Safe size size := h size size (by simp [kernelRequest, hdevice])

/-- What the creation of an object in `y` ends in. -/
def Creates (k : Kernel) (t : TaskPtr) (x y : SlotPtr) (request : Option (Nat × Nat)) :
    Option SlotPtr → Kernel → Prop
  | none, k' => Popped k t y k'
  | some z, k' => z = y ∧ StoreInv k' ∅ ∧ ∃ size alignment, request = some (size, alignment) ∧
      Created k.store x y size alignment k'.store

theorem Creates.kernel {size : Nat} (hdevice : m.device = false) (hinv : StoreInv k' ∅)
    (h : Created k.store x y size size k'.store) :
    Creates k t x y (kernelRequest m.device size) (some y) k' :=
  ⟨rfl, hinv, size, size, by simp [kernelRequest, hdevice], h⟩

section Objects

variable (h : Popped k t y k₁) (hx : k.cap x = .memory m) (hb : m.Bounds)

include h hx hb

theorem wp_createMemory (hsafe : m.SafeRequest (some (size, alignment))) :
    wp (createMemoryObject y x size alignment) (.debug cfg)
      (Creates k t x y (some (size, alignment))) NoSwitch k₁ := by
  obtain ⟨a, b, hl⟩ := h.exists_chain (x := x) (by simp [hx])
  refine wp_createMemoryObject h hx hl hb (hsafe _ _ rfl) (fun _ hk' => hk')
    fun base k' hcarve hk' => ?_
  exact ⟨rfl, hk'.inv, _, _, rfl, hk'.created_store hx h.null hl hcarve (.memory _ _) rfl⟩

theorem wp_createEndpointObject (hsafe : m.SafeRequest (kernelRequest m.device ENDPOINT_SIZE)) :
    wp (createEndpointObject y x) (.debug cfg) (Creates k t x y (kernelRequest m.device ENDPOINT_SIZE))
      NoSwitch k₁ := by
  have hxy : x ≠ y := h.ne (by simp [hx])
  obtain ⟨a, b, hl⟩ := h.exists_chain (x := x) (by simp [hx])
  unfold createEndpointObject storeCap
  rw [wp_bind]
  refine wp_createKernelObject h hx hl hb hsafe.kernel (fun _ hk' => hk')
    fun base k' hdevice hcarve hk' => ?_
  simp only [wp_bind, wp_modify, wp_pure]
  have hf : CapFrame k' { k' with
      endpoints := upd k'.endpoints base ⟨⟨none, none⟩, ⟨none, none⟩⟩ } :=
    .of_eq rfl rfl rfl rfl rfl rfl
  have hk₂ := (hk'.frame hf.toStoreFrame hf.store).setCap (d := makeEndpointCap base) hxy
    (by simp [newMemory]) (by simp [makeEndpointCap])
  exact .kernel hdevice hk₂.inv (hk₂.created_store hx h.null hl hcarve (.endpoint hdevice) rfl)

theorem wp_createPageTableObject (hsafe : m.SafeRequest (kernelRequest m.device PAGE_SIZE)) :
    wp (createPageTableObject y x) (.debug cfg) (Creates k t x y (kernelRequest m.device PAGE_SIZE))
      NoSwitch k₁ := by
  have hxy : x ≠ y := h.ne (by simp [hx])
  obtain ⟨a, b, hl⟩ := h.exists_chain (x := x) (by simp [hx])
  unfold createPageTableObject makePageTableCap storeCap
  rw [wp_bind]
  refine wp_createKernelObject h hx hl hb hsafe.kernel (fun _ hk' => hk')
    fun base k' hdevice hcarve hk' => ?_
  simp only [wp_bind, wp_modify, wp_pure, wp_kassert, true_or, if_true]
  rw [Nat.zero_mod, Nat.zero_mod]
  have hk₂ := hk'.setCap (d := .pageTable ⟨false, 0, 0, base, none⟩) hxy
    (by simp [newMemory]) (by simp)
  have hf : StoreFrame (k'.setCap y (.pageTable ⟨false, 0, 0, base, none⟩))
      ((k'.zeroTable base).setCap y (.pageTable ⟨false, 0, 0, base, none⟩)) :=
    ⟨rfl, rfl, fun _ => rfl, fun _ => rfl, fun _ => Iff.rfl⟩
  refine Creates.kernel (t := t) hdevice (hf.storeInv hk₂.inv) ?_
  have htables : k.store.tables = k'.store.tables := by
    rw [hk'.store]
    rfl
  have hcreated := hk₂.created hx h.null hl hcarve (.pageTable hdevice)
  rwa [htables] at hcreated

theorem wp_createVirtPageObject {readable writable executable : Bool} {level : Nat}
    (hsafe : m.SafeRequest (pageRequest level)) :
    wp (createVirtPageObject y x readable writable executable level) (.debug cfg)
      (Creates k t x y (pageRequest level)) NoSwitch k₁ := by
  have hxy : x ≠ y := h.ne (by simp [hx])
  have hx₁ : k₁.cap x = .memory m := by rw [h.cap, hx]
  obtain ⟨a, b, hl⟩ := h.exists_chain (x := x) (by simp [hx])
  unfold createVirtPageObject makeVirtPageCap storeCap
  rw [wp_bind]
  refine wp_memoryCap hx₁ ?_
  rw [wp_bind]
  refine wp_checkUnused ?_
  rw [wp_ite]
  split
  · exact h.errno _
  · rename_i hlevel
    have hlevel : level ≤ MAX_PAGE_TABLE_LEVEL := Nat.le_of_not_lt hlevel
    rw [wp_bind]
    refine wp_createMemoryObject h hx hl hb (hsafe _ _ (if_pos hlevel)) (fun _ hk' => hk')
      fun base k' hcarve hk' => ?_
    rw [wp_bind]
    refine wp_memoryCap (hk'.cap_dst hxy) ?_
    have hbase := hcarve.base_lt
    have hzero : getPageTableIndex 0 level = 0 := by
      unfold getPageTableIndex
      rw [Nat.zero_div]
    have hmod : level % 4 = level := Nat.mod_eq_of_lt (Nat.lt_of_le_of_lt hlevel (by decide))
    simp only [wp_bind, wp_modify, wp_pure, wp_kassert, if_pos hbase, if_pos hlevel,
      Nat.mod_eq_of_lt hbase, hzero, hmod]
    have hk₂ := hk'.setCap (d := .virtPage ⟨false, m.device, readable, writable, executable,
      level, 0, base, 0, none⟩) hxy (by simp [newMemory]) (by simp)
    exact ⟨rfl, hk₂.inv, _, _, if_pos hlevel,
      hk₂.created_store hx h.null hl hcarve (.virtPage _ _ _ level hlevel) rfl⟩

theorem wp_createCapSpaceObject (hsafe : m.SafeRequest (kernelRequest m.device PAGE_SIZE))
    (hspace : ∀ base, Carve m PAGE_SIZE PAGE_SIZE base → k.store.space base = none) :
    wp (createCapSpaceObject y x) (.debug cfg) (Creates k t x y (kernelRequest m.device PAGE_SIZE))
      NoSwitch k₁ := by
  have hxy : x ≠ y := h.ne (by simp [hx])
  obtain ⟨a, b, hl⟩ := h.exists_chain (x := x) (by simp [hx])
  unfold createCapSpaceObject storeCap
  rw [wp_bind]
  refine wp_createKernelObject h hx hl hb hsafe.kernel (fun _ hk' => hk')
    fun base k' hdevice hcarve hk' => ?_
  simp only [wp_bind, wp_modify, wp_pure]
  have hdetached : (k'.capSpaces base).task = none := by
    have hs : k'.store.space = k.store.space := by
      rw [hk'.store]
      rfl
    exact (congrFun hs base).trans (hspace base hcarve)
  have hz := hk'.inv.zeroCapSpace hdetached
  have hk₁ : Carved k x y a b m PAGE_SIZE base (newMemory m PAGE_SIZE base)
      (k'.zeroCapSpace base) := ⟨hz.1, hz.2.trans hk'.store⟩
  have hk₂ := hk₁.setCap (d := makeCapSpaceCap base false) hxy (by simp [newMemory])
    (by simp [makeCapSpaceCap])
  exact .kernel hdevice hk₂.inv (hk₂.created_store hx h.null hl hcarve (.capSpace hdevice) rfl)

end Objects

end Caprese

import Caprese.Kernel.Setup

/-!
# `Caprese.Proofs.Regions`: what the memory capabilities of the root task have in common

`insert_memory_region_caps` cuts exactly what a region has outside of the reserved ones into
blocks (`cuts_cutBlocks`), so that the capabilities of two regions have an address in common only
where the regions have. `push_device_region` rounds a range up to the end of its last page, which
may belong to another range, and nothing looks out for that (`memory_caps_isolated_iff`).
-/

set_option autoImplicit false

namespace Caprese.Setup

open Lib Prog

variable {limits : RegionLimits} {env : Env} {k k' : Kernel} {rootTask : TaskPtr}
  {device : Bool} {tree : DeviceTree} {a b region : Span} {p : Nat}

/-! ### Parts of regions -/

/-- The two parts are what `a` has outside of `b`. -/
theorem mem_subtractRegion (hb : b.start ≤ b.stop) :
    p ∈ (subtractRegion a b).1 ∨ p ∈ (subtractRegion a b).2 ↔ p ∈ a ∧ p ∉ b := by
  unfold subtractRegion
  simp only [Span.mem_iff]
  split_ifs <;> dsimp only <;> omega

theorem subtractRegion_apart (hb : b.start ≤ b.stop) :
    (subtractRegion a b).1.Apart (subtractRegion a b).2 := by
  intro p
  unfold subtractRegion
  simp only [Span.mem_iff]
  split_ifs <;> dsimp only <;> omega

/-- The blocks of the parts. -/
def partBlocks (cut : Span → List Block) (dst : Span × Span) : List Block :=
  [dst.1, dst.2].flatMap fun reg => if reg.start < reg.stop then cut reg else []

/-- Cuts of the parts are a cut of the difference. -/
theorem cuts_partBlocks {cut : Span → List Block} {P : Nat → Prop} (hb : b.start ≤ b.stop)
    (hcut : ∀ dst : Span, dst.start < dst.stop → (∀ p ∈ dst, p ∈ a) →
      Cuts ((cut dst).map Block.span) fun p => p ∈ dst ∧ P p) :
    Cuts ((partBlocks cut (subtractRegion a b)).map Block.span)
      fun p => (p ∈ a ∧ p ∉ b) ∧ P p := by
  have hpart : ∀ dst : Span, (∀ p ∈ dst, p ∈ a) →
      Cuts ((if dst.start < dst.stop then cut dst else []).map Block.span)
        fun p => p ∈ dst ∧ P p := by
    intro dst hsub
    split
    · rename_i hlt
      exact hcut dst hlt hsub
    · rename_i hge
      refine Cuts.nil fun p hp => ?_
      have hin := Span.mem_iff.mp hp.1
      omega
  have hmem := fun p => @mem_subtractRegion a b p hb
  unfold partBlocks
  rw [List.flatMap_cons, List.flatMap_singleton, List.map_append]
  refine ((hpart _ fun p hp => ((hmem p).mp (Or.inl hp)).1).append
    (hpart _ fun p hp => ((hmem p).mp (Or.inr hp)).1) fun p hp hp' => ?_).congr fun p => ?_
  · exact subtractRegion_apart hb p hp.1 hp'.1
  · rw [← hmem p]
    tauto

/-! ### Blocks -/

theorem Block.start_mem (block : Block) : block.start ∈ block.span :=
  ⟨Nat.le_refl _, Nat.lt_add_of_pos_right (Nat.two_pow_pos _)⟩

theorem cuts_fallingBlocks {sizeBit : Nat} (h : region.start ≤ region.stop) :
    Cuts ((fallingBlocks sizeBit region).map Block.span) fun p => p ∈ region := by
  fun_induction fallingBlocks sizeBit region with
  | case1 sizeBit region hlt hroom ih =>
    refine ((ih ?_).cons (Nat.le_add_right _ _) rfl ?_).congr fun p => Iff.rfl
    all_goals
      dsimp only
      omega
  | case2 sizeBit region hlt hroom ih => exact ih h
  | case3 sizeBit region hge =>
    refine Cuts.nil fun p hp => ?_
    have hin := Span.mem_iff.mp hp
    omega

/-- The first loop leaves a region. -/
theorem risingBlocks_le (bits sizeBit : Nat) (h : region.start ≤ region.stop) :
    (risingBlocks bits sizeBit region).2.2.start ≤ (risingBlocks bits sizeBit region).2.2.stop := by
  induction bits generalizing sizeBit region with
  | zero => exact h
  | succ bits ih =>
    unfold risingBlocks
    split
    · split
      · split
        · refine ih _ ?_
          dsimp only
          omega
        · exact h
      · exact ih _ h
    · exact h

/-- It cuts off what is in front of the region that it leaves. -/
theorem cuts_risingBlocks (bits sizeBit : Nat) (h : region.start ≤ region.stop) {l : List Span}
    (hl : Cuts l fun p => p ∈ (risingBlocks bits sizeBit region).2.2) :
    Cuts ((risingBlocks bits sizeBit region).1.map Block.span ++ l) (fun p => p ∈ region) := by
  induction bits generalizing sizeBit region with
  | zero => exact hl
  | succ bits ih =>
    unfold risingBlocks at hl ⊢
    split
    · rename_i hlt
      rw [if_pos hlt] at hl
      split
      · rename_i hbit
        rw [if_pos hbit] at hl
        split
        · rename_i hroom
          rw [if_pos hroom] at hl
          have hrest : region.start + 2 ^ sizeBit ≤ region.stop := by omega
          have hcuts := @ih ⟨region.start + 2 ^ sizeBit, region.stop⟩ (sizeBit + 1) hrest hl
          exact hcuts.cons (Nat.le_add_right _ _ :
            (Block.span ⟨region.start, sizeBit⟩).start ≤ _) rfl hrest
        · rename_i hroom
          rw [if_neg hroom] at hl
          exact hl
      · rename_i hbit
        rw [if_neg hbit] at hl
        exact ih _ h hl
    · rename_i hge
      rw [if_neg hge] at hl
      exact hl

/-- The loops cut the whole region. -/
theorem cuts_regionBlocks (h : region.start ≤ region.stop) :
    Cuts ((regionBlocks region).map Block.span) fun p => p ∈ region := by
  unfold regionBlocks
  rw [List.map_append]
  exact cuts_risingBlocks 64 0 h (cuts_fallingBlocks (risingBlocks_le 64 0 h))

/-- The blocks of `insert_memory_region_caps`. -/
def cutBlocks : List Span → Span → List Block
  | [], region => if isInvalid region then [] else regionBlocks region
  | reserved :: rest, region =>
    if isInvalid region then []
    else partBlocks (cutBlocks rest) (subtractRegion region reserved)

/-- They are what the region has outside of the reserved ones. -/
theorem cuts_cutBlocks {reserved : List Span} (hreserved : ∀ r ∈ reserved, r.start ≤ r.stop)
    (hpos : 0 < region.start) :
    Cuts ((cutBlocks reserved region).map Block.span)
      fun p => p ∈ region ∧ ∀ r ∈ reserved, p ∉ r := by
  have hinvalid : ∀ {region : Span}, 0 < region.start → isInvalid region → ∀ p, p ∉ region := by
    rintro region hpos (hge | hzero) p hp
    · have hin := Span.mem_iff.mp hp
      omega
    · omega
  induction reserved generalizing region with
  | nil =>
    unfold cutBlocks
    split
    · rename_i hbad
      exact Cuts.nil fun p hp => hinvalid hpos hbad p hp.1
    · rename_i hgood
      have hle : region.start ≤ region.stop := by
        unfold isInvalid at hgood
        omega
      exact (cuts_regionBlocks hle).congr fun p => by simp
  | cons reserved rest ih =>
    unfold cutBlocks
    split
    · rename_i hbad
      exact Cuts.nil fun p hp => hinvalid hpos hbad p hp.1
    · refine (cuts_partBlocks (P := fun p => ∀ r ∈ rest, p ∉ r) (hreserved _ List.mem_cons_self)
        fun dst hlt hsub => ?_).congr fun p => ?_
      · refine ih (fun r hr => hreserved r (List.mem_cons_of_mem _ hr)) ?_
        exact Nat.lt_of_lt_of_le hpos (hsub _ (Span.start_mem hlt)).1
      · rw [List.forall_mem_cons, and_assoc]

/-! ### Runs -/

/-- The capability of a block. -/
def memoryCap (device : Bool) (block : Block) : Capability :=
  .memory ⟨device, 2 ^ block.sizeBit, block.start, 0⟩

/-- The blocks do not lose bits in a capability, unless an assertion fails. -/
def Fitting (env : Env) (blocks : List Block) : Prop :=
  env.ndebug = true → ∀ block ∈ blocks, block.start < CONFIG_MAX_PHYSICAL_ADDRESS ∧
    2 ^ block.sizeBit < CONFIG_MAX_PHYSICAL_ADDRESS

theorem wp_kassert_of {q : Prop} [Decidable q] {Q : Unit → Kernel → Prop}
    (hq : env.ndebug = true → q) (hQ : q → Q () k) :
    wp (kassert q) env Q (fun _ _ => True) k := by
  unfold kassert
  rw [wp_bind, wp_ask, wp_ite, wp_ite]
  split
  · rename_i hndebug
    exact hQ (hq hndebug)
  · split
    · rename_i hholds
      exact hQ hholds
    · trivial

theorem wp_createMemoryCap {block : Block} (hfit : env.ndebug = true →
    block.start < CONFIG_MAX_PHYSICAL_ADDRESS ∧ 2 ^ block.sizeBit < CONFIG_MAX_PHYSICAL_ADDRESS) :
    wp (createMemoryCap rootTask device block) env (fun cap _ => cap = memoryCap device block)
      (fun _ _ => True) k := by
  unfold createMemoryCap makeMemoryCap insertRootCap
  rw [wp_bind, wp_bind]
  refine wp_kassert_of (fun hndebug => (hfit hndebug).1) fun hstart => ?_
  rw [wp_bind]
  refine wp_kassert_of (fun hndebug => (hfit hndebug).2) fun hsize => ?_
  rw [wp_pure, Nat.mod_eq_of_lt hstart, Nat.mod_eq_of_lt hsize, wp_bind]
  exact wp_any (fun _ _ => rfl) fun _ _ => trivial

/-- The run creates the capabilities of the blocks. -/
def Creates (env : Env) (body : K (List Capability)) (device : Bool) (blocks : List Block) : Prop :=
  Fitting env blocks → ∀ k, wp body env
    (fun caps _ => caps = blocks.map (memoryCap device)) (fun _ _ => True) k

namespace Creates

variable {body body' : K (List Capability)} {blocks blocks' : List Block}

theorem nothing : Creates env (return []) device [] := fun _ _ => rfl

theorem append (h : Creates env body device blocks) (h' : Creates env body' device blocks') :
    Creates env (do return (← body) ++ (← body')) device (blocks ++ blocks') := by
  intro hfit k
  rw [wp_bind]
  refine wp_mono (h (fun hndebug block hb => hfit hndebug block (List.mem_append_left _ hb)) k) ?_
    fun _ _ _ => trivial
  rintro caps k₁ rfl
  rw [wp_bind]
  refine wp_mono (h' (fun hndebug block hb => hfit hndebug block (List.mem_append_right _ hb)) k₁) ?_
    fun _ _ _ => trivial
  rintro caps k₂ rfl
  rw [List.map_append]
  exact rfl

theorem collect {α : Type} {body : α → K (List Capability)} {cut : α → List Block} {as : List α}
    (h : ∀ a ∈ as, Creates env (body a) device (cut a)) :
    Creates env (Setup.collect body as) device (as.flatMap cut) := by
  induction as with
  | nil => exact nothing
  | cons a as ih =>
    exact (h a List.mem_cons_self).append (ih fun a' ha' => h a' (List.mem_cons_of_mem _ ha'))

theorem forParts {body : Span → K (List Capability)} {cut : Span → List Block} {dst : Span × Span}
    (h : ∀ dst, Creates env (body dst) device (cut dst)) :
    Creates env (Setup.forParts body dst) device (partBlocks cut dst) := by
  refine collect fun reg _ => ?_
  split
  · exact h reg
  · exact nothing

theorem insertMemoryRegionCaps (reserved : List Span) (region : Span) :
    Creates env (Setup.insertMemoryRegionCaps rootTask device reserved region) device
      (cutBlocks reserved region) := by
  induction reserved generalizing region with
  | nil =>
    unfold Setup.insertMemoryRegionCaps cutBlocks
    split
    · exact nothing
    · have hblock : ∀ block ∈ regionBlocks region,
          Creates env (do return [← createMemoryCap rootTask device block]) device [block] := by
        intro block _ hfit k
        rw [wp_bind]
        refine wp_mono (wp_createMemoryCap fun hndebug => hfit hndebug block List.mem_cons_self) ?_
          fun _ _ _ => trivial
        rintro cap k₁ rfl
        exact rfl
      have hall := collect hblock
      rwa [List.flatMap_singleton'] at hall
  | cons reserved rest ih =>
    unfold Setup.insertMemoryRegionCaps cutBlocks
    split
    · exact nothing
    · exact forParts ih

end Creates

/-! ### The tables -/

/-- The regions of the nodes of a kind. -/
def kindRegions (kind : NodeKind) (nodes : List DtbNode) : List Span :=
  (nodes.filter (·.kind = kind)).flatMap fun node => node.reg.map regRegion

/-- The tables with more regions of a kind. -/
def RegionTables.grow (tables : RegionTables) : NodeKind → List Span → RegionTables
  | .skipped, _ => tables
  | .reserved, regions => { tables with reserved := tables.reserved ++ regions }
  | .memory, regions => { tables with memory := tables.memory ++ regions }
  | .device, regions => { tables with device := tables.device ++ regions.map roundRegion }

namespace RegionTables

variable (tables : RegionTables) (kind : NodeKind)

theorem grow_nil : tables.grow kind [] = tables := by
  cases kind <;> simp [grow]

theorem grow_append (l l' : List Span) : (tables.grow kind l).grow kind l' = tables.grow kind (l ++ l') := by
  cases kind <;> simp [grow]

end RegionTables

/-- A run of a push adds the region, unless the table is full. -/
def Pushes (env : Env) (push : RegionTables → Span → K RegionTables) (kind : NodeKind) : Prop :=
  ∀ tables region k, wp (push tables region) env
    (fun tables' _ => tables' = tables.grow kind [region]) (fun _ _ => True) k

theorem pushes_pushReservedRegion : Pushes env (pushReservedRegion limits) .reserved := by
  intro tables region k
  unfold pushReservedRegion
  rw [wp_ite]
  split
  · trivial
  · exact rfl

theorem pushes_pushMemoryRegion : Pushes env (pushMemoryRegion limits) .memory := by
  intro tables region k
  unfold pushMemoryRegion
  rw [wp_ite]
  split
  · trivial
  · exact rfl

theorem pushes_pushDeviceRegion : Pushes env (pushDeviceRegion limits) .device := by
  intro tables region k
  unfold pushDeviceRegion
  rw [wp_ite]
  split
  · trivial
  · exact rfl

theorem Pushes.wp_forEachReg {push : RegionTables → Span → K RegionTables} {kind : NodeKind}
    (h : Pushes env push kind) (regs : List Region) (tables : RegionTables) (k : Kernel) :
    wp (forEachReg push regs tables) env
      (fun tables' _ => tables' = tables.grow kind (regs.map regRegion)) (fun _ _ => True) k := by
  induction regs generalizing tables k with
  | nil => exact (tables.grow_nil kind).symm
  | cons reg regs ih =>
    unfold forEachReg
    rw [wp_bind]
    refine wp_mono (h tables (regRegion reg) k) ?_ fun _ _ _ => trivial
    rintro _ k₁ rfl
    refine wp_mono (ih _ k₁) ?_ fun _ _ _ => trivial
    rintro _ k₂ rfl
    exact tables.grow_append kind _ _

theorem wp_pushNode (node : DtbNode) (tables : RegionTables) (k : Kernel) :
    wp (pushNode limits node tables) env
      (fun tables' _ => tables' = tables.grow node.kind (node.reg.map regRegion))
      (fun _ _ => True) k := by
  unfold pushNode
  cases node.kind with
  | skipped => exact rfl
  | reserved => exact pushes_pushReservedRegion.wp_forEachReg _ _ _
  | memory => exact pushes_pushMemoryRegion.wp_forEachReg _ _ _
  | device => exact pushes_pushDeviceRegion.wp_forEachReg _ _ _

/-- The tables with the regions of all nodes. -/
def RegionTables.growAll (tables : RegionTables) (nodes : List DtbNode) : RegionTables :=
  ((tables.grow .reserved (kindRegions .reserved nodes)).grow .memory
    (kindRegions .memory nodes)).grow .device (kindRegions .device nodes)

theorem growAll_cons (tables : RegionTables) (node : DtbNode) (nodes : List DtbNode) :
    (tables.grow node.kind (node.reg.map regRegion)).growAll nodes = tables.growAll (node :: nodes) := by
  unfold RegionTables.growAll kindRegions
  cases hkind : node.kind <;> simp [hkind, RegionTables.grow]

theorem wp_pushNodes (nodes : List DtbNode) (tables : RegionTables) (k : Kernel) :
    wp (pushNodes limits nodes tables) env (fun tables' _ => tables' = tables.growAll nodes)
      (fun _ _ => True) k := by
  induction nodes generalizing tables k with
  | nil =>
    unfold pushNodes RegionTables.growAll kindRegions
    rw [wp_pure]
    simp [RegionTables.grow]
  | cons node nodes ih =>
    unfold pushNodes
    rw [wp_bind]
    refine wp_mono (wp_pushNode node tables k) ?_ fun _ _ _ => trivial
    rintro _ k₁ rfl
    rw [← growAll_cons]
    exact ih _ k₁

namespace DeviceTree

variable (tree : DeviceTree)

/-- The ranges of the memory nodes. -/
def memory : List Span := kindRegions .memory tree.nodes

/-- The ranges of the devices. -/
def devices : List Span := kindRegions .device tree.nodes

/-- The kernel image, the payload, its stack and the ranges of `mmode_resv` nodes. -/
def reserved : List Span :=
  [tree.kernel, tree.payload, tree.stack] ++ kindRegions .reserved tree.nodes

/-- The blocks of a memory region. -/
def memoryBlocks (region : Span) : List Block :=
  partBlocks (cutBlocks tree.reserved) (subtractRegion region tree.dtbRegion)

/-- The blocks of a device. -/
def deviceBlocks (region : Span) : List Block := cutBlocks tree.reserved (roundRegion region)

/-- The capabilities that `setup_memory_capabilities` creates. -/
def caps : List Capability :=
  (tree.memory.flatMap tree.memoryBlocks).map (memoryCap false) ++
    (tree.devices.flatMap tree.deviceBlocks).map (memoryCap true)

end DeviceTree

theorem wp_setupMemoryCapabilities (hmemory : Fitting env (tree.memory.flatMap tree.memoryBlocks))
    (hdevices : Fitting env (tree.devices.flatMap tree.deviceBlocks)) :
    wp (setupMemoryCapabilities limits rootTask tree) env (fun caps _ => caps = tree.caps)
      (fun _ _ => True) k := by
  unfold setupMemoryCapabilities
  rw [wp_bind]
  refine wp_mono (pushes_pushReservedRegion ⟨[], [], []⟩ tree.kernel k) ?_ fun _ _ _ => trivial
  rintro _ k₁ rfl
  rw [wp_bind]
  refine wp_mono (pushes_pushReservedRegion _ tree.payload k₁) ?_ fun _ _ _ => trivial
  rintro _ k₂ rfl
  rw [wp_bind]
  refine wp_mono (pushes_pushReservedRegion _ tree.stack k₂) ?_ fun _ _ _ => trivial
  rintro _ k₃ rfl
  rw [wp_bind]
  refine wp_mono (wp_pushNodes tree.nodes _ k₃) ?_ fun _ _ _ => trivial
  rintro _ k₄ rfl
  have hcaps : Creates env (collect (fun region =>
        forParts (insertMemoryRegionCaps rootTask false tree.reserved)
          (subtractRegion region tree.dtbRegion)) tree.memory) false
      (tree.memory.flatMap tree.memoryBlocks) :=
    Creates.collect fun _ _ => Creates.forParts (Creates.insertMemoryRegionCaps tree.reserved)
  have hcaps' : Creates env (collect (insertMemoryRegionCaps rootTask true tree.reserved)
      (tree.devices.map roundRegion)) true
      ((tree.devices.map roundRegion).flatMap (cutBlocks tree.reserved)) :=
    Creates.collect fun region _ => Creates.insertMemoryRegionCaps tree.reserved region
  rw [wp_bind]
  refine wp_mono (hcaps hmemory k₄) ?_ fun _ _ _ => trivial
  rintro _ k₅ rfl
  rw [wp_bind]
  rw [List.flatMap_map] at hcaps'
  refine wp_mono (hcaps' hdevices k₅) ?_ fun _ _ _ => trivial
  rintro _ k₆ rfl
  exact rfl

/-! ### The claim -/

/-- The addresses of a memory capability. -/
def capSpan : Capability → Span
  | .memory cap => ⟨cap.physAddr, cap.physAddr + cap.size⟩
  | _ => ⟨0, 0⟩

/-- The flag of a memory capability. -/
def isDevice : Capability → Bool
  | .memory cap => cap.device
  | _ => false

namespace DeviceTree

variable (tree : DeviceTree)

/-- What the linker and a device tree that describes a machine promise: regions are regions, no
range is empty, starts at zero or goes round the address space, and the ranges of the memory and
of the devices lie apart. -/
structure WellFormed : Prop where
  kernel : tree.kernel.start ≤ tree.kernel.stop
  payload : tree.payload.start ≤ tree.payload.stop
  stack : tree.stack.start ≤ tree.stack.stop
  dtb : tree.dtb.start ≤ tree.dtb.stop ∧ tree.dtb.stop + PAGE_SIZE ≤ 2 ^ 64
  reg : ∀ node ∈ tree.nodes, node.kind ≠ .skipped → ∀ reg ∈ node.reg,
    0 < reg.start ∧ 0 < reg.size ∧ reg.start + reg.size < 2 ^ 64
  apart : (tree.memory ++ tree.devices).Pairwise Span.Apart

/-- The ranges fit into a capability. -/
def Narrow : Prop :=
  ∀ node ∈ tree.nodes, node.kind ≠ .skipped → ∀ reg ∈ node.reg,
    reg.start + reg.size ≤ CONFIG_MAX_PHYSICAL_ADDRESS

/-- An address that no capability is created for. -/
def Reserved (p : PhysAddr) : Prop := ∃ r ∈ tree.reserved, p ∈ r

/-- The devices have no page in common with each other and with the memory, as far as capabilities
are created for it. -/
structure RoundedApart : Prop where
  devices : (tree.devices.map roundRegion).Pairwise fun d d' => ∀ p ∈ d, p ∈ d' → tree.Reserved p
  memory : ∀ m ∈ tree.memory, ∀ d ∈ tree.devices, ∀ p ∈ m, p ∈ roundRegion d →
    tree.Reserved p ∨ p ∈ tree.dtbRegion

/-- No two capabilities have an address in common, none has a reserved one, and those of memory
stay within the memory and outside of the device tree blob. -/
structure Isolated (caps : List Capability) : Prop where
  apart : (caps.map capSpan).Pairwise Span.Apart
  reserved : ∀ cap ∈ caps, ∀ p ∈ capSpan cap, ¬ tree.Reserved p
  memory : ∀ cap ∈ caps, isDevice cap = false →
    (∃ m ∈ tree.memory, ∀ p ∈ capSpan cap, p ∈ m) ∧ ∀ p ∈ capSpan cap, p ∉ tree.dtbRegion

end DeviceTree

theorem mem_kindRegions {kind : NodeKind} {nodes : List DtbNode} {region : Span}
    (h : region ∈ kindRegions kind nodes) :
    ∃ node ∈ nodes, node.kind = kind ∧ ∃ reg ∈ node.reg, regRegion reg = region := by
  obtain ⟨node, hnode, hregion⟩ := List.mem_flatMap.mp h
  obtain ⟨reg, hreg, heq⟩ := List.mem_map.mp hregion
  obtain ⟨hmem, hkind⟩ := List.mem_filter.mp hnode
  exact ⟨node, hmem, of_decide_eq_true hkind, reg, hreg, heq⟩

theorem not_reserved_iff : ¬ tree.Reserved p ↔ ∀ r ∈ tree.reserved, p ∉ r := by
  unfold DeviceTree.Reserved
  push Not
  rfl

namespace DeviceTree.WellFormed

variable (h : tree.WellFormed)

include h

theorem bounds {kind : NodeKind} (hkind : kind ≠ .skipped)
    (hr : region ∈ kindRegions kind tree.nodes) :
    0 < region.start ∧ region.start < region.stop ∧
      (tree.Narrow → region.stop ≤ CONFIG_MAX_PHYSICAL_ADDRESS) := by
  obtain ⟨node, hnode, rfl, reg, hreg, rfl⟩ := mem_kindRegions hr
  obtain ⟨hpos, hsize, hwrap⟩ := h.reg node hnode hkind reg hreg
  unfold regRegion
  rw [Nat.mod_eq_of_lt hwrap]
  exact ⟨hpos, Nat.lt_add_of_pos_right hsize, fun hnarrow => hnarrow node hnode hkind reg hreg⟩

theorem reserved_le : ∀ r ∈ tree.reserved, r.start ≤ r.stop := by
  intro r hr
  rcases List.mem_append.mp hr with hr | hr
  · simp only [List.mem_cons, List.not_mem_nil, or_false] at hr
    rcases hr with rfl | rfl | rfl
    · exact h.kernel
    · exact h.payload
    · exact h.stack
  · exact Nat.le_of_lt (h.bounds (by decide) hr).2.1

theorem dtbRegion_le : tree.dtbRegion.start ≤ tree.dtbRegion.stop := by
  obtain ⟨hle, hwrap⟩ := h.dtb
  change tree.dtb.stop + 4096 ≤ 2 ^ 64 at hwrap
  show tree.dtb.start ≤ (tree.dtb.start + (tree.dtb.stop - tree.dtb.start + 4096 - 1) % 2 ^ 64
    / 4096 * 4096) % 2 ^ 64
  omega

/-- What the blocks of a memory region make up. -/
theorem cuts_memory (hr : region ∈ tree.memory) :
    Cuts ((tree.memoryBlocks region).map Block.span)
      fun p => (p ∈ region ∧ p ∉ tree.dtbRegion) ∧ ¬ tree.Reserved p := by
  refine cuts_partBlocks h.dtbRegion_le fun dst hlt hsub => ?_
  refine (cuts_cutBlocks h.reserved_le ?_).congr fun p => and_congr_right fun _ => not_reserved_iff
  exact Nat.lt_of_lt_of_le (h.bounds (by decide) hr).1 (hsub _ (Span.start_mem hlt)).1

/-- What the blocks of a device make up. -/
theorem cuts_device (hr : region ∈ tree.devices) :
    Cuts ((tree.deviceBlocks region).map Block.span)
      fun p => p ∈ roundRegion region ∧ ¬ tree.Reserved p := by
  have hpos : 0 < (roundRegion region).start := (h.bounds (by decide) hr).1
  exact (cuts_cutBlocks h.reserved_le hpos).congr fun _ => and_congr_right fun _ => not_reserved_iff

end DeviceTree.WellFormed

/-- Blocks among the addresses that a capability has room for. -/
theorem fits_of_cuts {l : List Block} {P : Nat → Prop} (h : Cuts (l.map Block.span) P)
    (hP : ∀ p, P p → 0 < p ∧ p < CONFIG_MAX_PHYSICAL_ADDRESS) :
    ∀ block ∈ l, block.start < CONFIG_MAX_PHYSICAL_ADDRESS ∧
      2 ^ block.sizeBit < CONFIG_MAX_PHYSICAL_ADDRESS := by
  intro block hb
  have hin : ∀ p ∈ block.span, 0 < p ∧ p < CONFIG_MAX_PHYSICAL_ADDRESS := fun p hp =>
    hP p (h.sound (List.mem_map_of_mem hb) hp)
  have hsize := Nat.two_pow_pos block.sizeBit
  obtain ⟨hpos, hstart⟩ := hin _ block.start_mem
  have hlast : block.start + (2 ^ block.sizeBit - 1) ∈ block.span :=
    ⟨Nat.le_add_right _ _, Nat.add_lt_add_left (Nat.sub_lt hsize Nat.one_pos) _⟩
  have hend := (hin _ hlast).2
  have hlength : 1 + (2 ^ block.sizeBit - 1) = 2 ^ block.sizeBit := Nat.add_sub_cancel' hsize
  exact ⟨hstart, Nat.lt_of_le_of_lt
    (Nat.le_trans (Nat.le_of_eq hlength.symm) (Nat.add_le_add_right (Nat.succ_le_of_lt hpos) _)) hend⟩

theorem roundUp_le {n m : Nat} (h : n ≤ PAGE_SIZE * m) (hm : PAGE_SIZE * m + PAGE_SIZE ≤ 2 ^ 64) :
    roundUp n PAGE_SIZE ≤ PAGE_SIZE * m := by
  change n ≤ 4096 * m at h
  change 4096 * m + 4096 ≤ 2 ^ 64 at hm
  show (n + 4096 - 1) % 2 ^ 64 / 4096 * 4096 ≤ 4096 * m
  omega

namespace DeviceTree.WellFormed

variable (h : tree.WellFormed)

include h

theorem fitting_memory (hnarrow : env.ndebug = true → tree.Narrow) :
    Fitting env (tree.memory.flatMap tree.memoryBlocks) := by
  intro hndebug block hb
  obtain ⟨region, hr, hblock⟩ := List.mem_flatMap.mp hb
  have hbounds := h.bounds (by decide) hr
  refine fits_of_cuts (h.cuts_memory hr) (fun p hp => ?_) block hblock
  obtain ⟨hstart, hstop⟩ := hp.1.1
  exact ⟨Nat.lt_of_lt_of_le hbounds.1 hstart,
    Nat.lt_of_lt_of_le hstop (hbounds.2.2 (hnarrow hndebug))⟩

theorem fitting_devices (hnarrow : env.ndebug = true → tree.Narrow) :
    Fitting env (tree.devices.flatMap tree.deviceBlocks) := by
  intro hndebug block hb
  obtain ⟨region, hr, hblock⟩ := List.mem_flatMap.mp hb
  have hbounds := h.bounds (by decide) hr
  refine fits_of_cuts (h.cuts_device hr) (fun p hp => ?_) block hblock
  obtain ⟨hstart, hstop⟩ := hp.1
  have hround := @roundUp_le region.stop (2 ^ 24) (hbounds.2.2 (hnarrow hndebug)) (by decide)
  exact ⟨Nat.lt_of_lt_of_le hbounds.1 hstart, Nat.lt_of_lt_of_le hstop hround⟩

end DeviceTree.WellFormed

theorem capSpan_memoryCap (device : Bool) : capSpan ∘ memoryCap device = Block.span := rfl

theorem map_capSpan_caps : tree.caps.map capSpan =
    (tree.memory.flatMap fun region => (tree.memoryBlocks region).map Block.span) ++
      tree.devices.flatMap fun region => (tree.deviceBlocks region).map Block.span := by
  unfold DeviceTree.caps
  rw [List.map_append, List.map_map, List.map_map, capSpan_memoryCap, capSpan_memoryCap,
    List.map_flatMap, List.map_flatMap]

/-- Whether the capabilities lie apart is up to what they are created for. -/
theorem caps_apart_iff (h : tree.WellFormed) :
    (tree.caps.map capSpan).Pairwise Span.Apart ↔ tree.RoundedApart := by
  obtain ⟨hmemory, -, hcross⟩ := List.pairwise_append.mp h.apart
  rw [map_capSpan_caps, List.pairwise_append,
    pairwise_flatMap_iff fun _ hr => h.cuts_memory hr, pairwise_flatMap_iff fun _ hr => h.cuts_device hr]
  constructor
  · rintro ⟨-, hdevices, hboth⟩
    refine ⟨?_, fun m hm d hd p hp hp' => ?_⟩
    · rw [List.pairwise_map]
      refine hdevices.imp fun hdd p hp hp' => ?_
      by_contra hreserved
      exact hdd p ⟨hp, hreserved⟩ ⟨hp', hreserved⟩
    · by_contra hnone
      obtain ⟨hreserved, hdtb⟩ := not_or.mp hnone
      refine ((h.cuts_memory hm).apart_iff (h.cuts_device hd)).mp (fun s hs s' hs' => ?_) p
        ⟨⟨hp, hdtb⟩, hreserved⟩ ⟨hp', hreserved⟩
      exact hboth s (List.mem_flatMap.mpr ⟨m, hm, hs⟩) s' (List.mem_flatMap.mpr ⟨d, hd, hs'⟩)
  · rintro ⟨hdevices, hboth⟩
    refine ⟨?_, ?_, fun s hs s' hs' => ?_⟩
    · exact hmemory.imp fun hmm p hp hp' => hmm p hp.1.1 hp'.1.1
    · rw [List.pairwise_map] at hdevices
      exact hdevices.imp fun hdd p hp hp' => hp.2 (hdd p hp.1 hp'.1)
    · obtain ⟨m, hm, hs⟩ := List.mem_flatMap.mp hs
      obtain ⟨d, hd, hs'⟩ := List.mem_flatMap.mp hs'
      refine ((h.cuts_memory hm).apart_iff (h.cuts_device hd)).mpr (fun p hp hp' => ?_) s hs s' hs'
      exact (hboth m hm d hd p hp.1.1 hp'.1).elim hp.2 hp.1.2

/-- The other parts hold of all device trees. -/
theorem caps_isolated_iff (h : tree.WellFormed) : tree.Isolated tree.caps ↔ tree.RoundedApart := by
  rw [← caps_apart_iff h]
  refine ⟨fun hisolated => hisolated.apart, fun hapart => ⟨hapart, fun cap hcap p hp => ?_,
    fun cap hcap hmem => ?_⟩⟩
  · rcases List.mem_append.mp hcap with hcap | hcap
    · obtain ⟨block, hblock, rfl⟩ := List.mem_map.mp hcap
      obtain ⟨region, hr, hb⟩ := List.mem_flatMap.mp hblock
      exact ((h.cuts_memory hr).sound (List.mem_map_of_mem hb) hp).2
    · obtain ⟨block, hblock, rfl⟩ := List.mem_map.mp hcap
      obtain ⟨region, hr, hb⟩ := List.mem_flatMap.mp hblock
      exact ((h.cuts_device hr).sound (List.mem_map_of_mem hb) hp).2
  · rcases List.mem_append.mp hcap with hcap | hcap
    · obtain ⟨block, hblock, rfl⟩ := List.mem_map.mp hcap
      obtain ⟨region, hr, hb⟩ := List.mem_flatMap.mp hblock
      have hin : ∀ p ∈ capSpan (memoryCap false block), p ∈ region ∧ p ∉ tree.dtbRegion :=
        fun p hp => ((h.cuts_memory hr).sound (List.mem_map_of_mem hb) hp).1
      exact ⟨⟨region, hr, fun p hp => (hin p hp).1⟩, fun p hp => (hin p hp).2⟩
    · obtain ⟨block, hblock, rfl⟩ := List.mem_map.mp hcap
      exact nomatch hmem

/-- The memory capabilities of the root task are isolated if the devices have no page in common
with each other and with the memory, and only then. -/
theorem memory_caps_isolated_iff {caps : List Capability} (h : tree.WellFormed)
    (hnarrow : env.ndebug = true → tree.Narrow)
    (hrun : setupMemoryCapabilities limits rootTask tree env k = .ok caps k') :
    tree.Isolated caps ↔ tree.RoundedApart := by
  obtain rfl : caps = tree.caps := wp_ok
    (wp_setupMemoryCapabilities (h.fitting_memory hnarrow) (h.fitting_devices hnarrow)) hrun
  exact caps_isolated_iff h

/-! ### Two machines -/

/-- The default limits. -/
def defaultLimits : RegionLimits := ⟨5, 1, 32⟩

/-- A machine with some memory and two devices. -/
def sampleTree (serial test : PhysAddr) : DeviceTree where
  kernel := ⟨0x80200000, 0x80300000⟩
  payload := ⟨0x80300000, 0x80301000⟩
  stack := ⟨0x80301000, 0x80302000⟩
  dtb := ⟨0x82200000, 0x82201000⟩
  nodes := [⟨"memory", 2, [⟨0x80000000, 0x8000000⟩]⟩, ⟨"serial", 2, [⟨serial, 0x100⟩]⟩,
    ⟨"test", 2, [⟨test, 0x100⟩]⟩]

/-- A new task gets the capabilities. -/
def sampleSetup (serial test : PhysAddr) : K (List Capability) := do
  initTask 0x1000 0x2000 0x3000 0x4000 0x5000
  setupMemoryCapabilities defaultLimits 0x1000 (sampleTree serial test)

def sampleEnv : Env :=
  .debug ⟨0, 0, 0, fun _ => ⟨0, 0, 0, 0, 0, []⟩, fun _ => [], 0, 0⟩

theorem sampleEnv_debug : ¬ sampleEnv.ndebug = true := Bool.false_ne_true

theorem sampleSetup_returns {serial test : PhysAddr}
    (h : (sampleSetup serial test sampleEnv .powerOn).returns (fun _ _ => true) = true) :
    ∃ caps k k',
    setupMemoryCapabilities defaultLimits 0x1000 (sampleTree serial test) sampleEnv k
      = .ok caps k' := by
  obtain ⟨caps, k', hrun, -⟩ := Outcome.returns_iff.mp h
  obtain ⟨⟨⟩, k, -, hsetup⟩ := ok_of_bind hrun
  exact ⟨caps, k, k', hsetup⟩

theorem sampleTree_wellFormed {serial test : PhysAddr}
    (hreg : ∀ node ∈ (sampleTree serial test).nodes, node.kind ≠ .skipped → ∀ reg ∈ node.reg,
      0 < reg.start ∧ 0 < reg.size ∧ reg.start + reg.size < 2 ^ 64)
    (hapart : ((sampleTree serial test).memory ++ (sampleTree serial test).devices).Pairwise
      Span.Apart) : (sampleTree serial test).WellFormed where
  kernel := show 0x80200000 ≤ 0x80300000 by decide
  payload := show 0x80300000 ≤ 0x80301000 by decide
  stack := show 0x80301000 ≤ 0x80302000 by decide
  dtb := show 0x82200000 ≤ 0x82201000 ∧ 0x82201000 + 4096 ≤ 2 ^ 64 by decide
  reg := hreg
  apart := hapart

/-- Devices on pages of their own. -/
theorem memory_caps_isolated_pages : ∃ caps k k',
    setupMemoryCapabilities defaultLimits 0x1000 (sampleTree 0x10000000 0x10001000) sampleEnv k
      = .ok caps k' ∧
    (sampleTree 0x10000000 0x10001000).Isolated caps := by
  obtain ⟨caps, k, k', hrun⟩ := @sampleSetup_returns 0x10000000 0x10001000 (by decide +kernel)
  have hwell := @sampleTree_wellFormed 0x10000000 0x10001000 (by decide +kernel) (by decide +kernel)
  have hdevices : ((sampleTree 0x10000000 0x10001000).devices.map roundRegion).Pairwise
      Span.Apart := by decide +kernel
  have hmemory : ∀ m ∈ (sampleTree 0x10000000 0x10001000).memory,
      ∀ d ∈ (sampleTree 0x10000000 0x10001000).devices, m.Apart (roundRegion d) := by
    decide +kernel
  exact ⟨caps, k, k', hrun, (memory_caps_isolated_iff hwell (fun h => absurd h sampleEnv_debug) hrun).mpr
    ⟨hdevices.imp fun h p hp hp' => absurd hp' (h p hp),
      fun m hm d hd p hp hp' => absurd hp' (hmemory m hm d hd p hp)⟩⟩

/-- Two devices of one page get capabilities for the rest of the page both. -/
theorem memory_caps_share_page :
    ¬ ∀ (limits : RegionLimits) (tree : DeviceTree) (rootTask : TaskPtr) (env : Env) (k k' : Kernel)
        (caps : List Capability), tree.WellFormed → tree.Narrow →
      setupMemoryCapabilities limits rootTask tree env k = .ok caps k' → tree.Isolated caps := by
  intro hall
  obtain ⟨caps, k, k', hrun⟩ := @sampleSetup_returns 0x10000000 0x10000100 (by decide +kernel)
  have hwell := @sampleTree_wellFormed 0x10000000 0x10000100 (by decide +kernel) (by decide +kernel)
  have hisolated := hall _ _ _ _ _ _ _ hwell (by unfold DeviceTree.Narrow; decide +kernel) hrun
  obtain rfl : caps = (sampleTree 0x10000000 0x10000100).caps := wp_ok
    (wp_setupMemoryCapabilities (hwell.fitting_memory fun h => absurd h sampleEnv_debug)
      (hwell.fitting_devices fun h => absurd h sampleEnv_debug)) hrun
  have hrounded := ((caps_isolated_iff hwell).mp hisolated).devices
  rw [show (sampleTree 0x10000000 0x10000100).devices.map roundRegion
    = [⟨0x10000000, 0x10001000⟩, ⟨0x10000100, 0x10001000⟩] by decide +kernel] at hrounded
  have hreserved := List.rel_of_pairwise_cons hrounded List.mem_cons_self 0x10000100
    (by decide) (by decide)
  exact absurd hreserved (by unfold DeviceTree.Reserved; decide +kernel)

end Caprese.Setup

import Caprese.Kernel.Mapping
import Caprese.Lib.Steps
import Caprese.Store.Invariant

/-!
# `Caprese.Store.Machine`: the capability store as an abstract machine

A `CapStore` is what the capabilities are about: what each slot holds, the derivation lists,
the page tables, the tasks in use with their root tables, the attached capability spaces and
the history. Free lists, links and all other fields of tasks are gone.

`Trans S act S'` are the moves of the machine. An object is carved out of a memory capability
and enters the list behind it (`create`), a new task takes over its tables and its first
space (`adopt`), a capability is copied, delegated, moved or taken back, a slot is cleared
(`remove`), and entries of tables and the records of them in capabilities change together.
The kernel's operations are sequences of these moves (`Store/Refine.lean`). The invariants of
the capability store are proved about the moves.
-/

set_option autoImplicit false

namespace Caprese

open Lib Chains

/-- The state of the abstract machine. -/
structure CapStore where
  cap : SlotPtr → Capability
  chains : Set (List SlotPtr)
  tables : TablePtr → Nat → Pte
  root : TaskPtr → Option TablePtr
  space : SpacePtr → Option TaskPtr
  trace : List Event

/-! ### Memory -/

/-- The address `a` lies in `[lo, hi)`. -/
def Between (lo hi a : Nat) : Prop := lo ≤ a ∧ a < hi

/-- The addresses that a capability speaks about. Of a memory capability these are the ones
that no object has been made of. -/
def Capability.Covers : Capability → Nat → Prop
  | .memory cap => Between (cap.physAddr + cap.usedSize) (cap.physAddr + cap.size)
  | .task cap => Between cap.task (cap.task + PAGE_SIZE)
  | .endpoint cap => Between cap.endpoint (cap.endpoint + ENDPOINT_SIZE)
  | .pageTable cap => Between cap.table (cap.table + PAGE_SIZE)
  | .virtPage cap => Between cap.physAddr (cap.physAddr + getPageSize cap.level)
  | .capSpace cap => Between cap.space (cap.space + PAGE_SIZE)
  | _ => fun _ => False

/-- `[base, base + size)` is a range that a memory capability has left. -/
structure Carve (cap : MemoryCap) (size alignment base : Nat) : Prop where
  pos : 0 < size
  aligned : alignment = 0 ∨ alignment ∣ base
  low : cap.physAddr + cap.usedSize ≤ base
  high : base + size ≤ cap.physAddr + cap.size
  base_lt : base < CONFIG_MAX_PHYSICAL_ADDRESS

/-- The memory capability after an object was made. -/
def MemoryCap.carve (cap : MemoryCap) (base size : Nat) : MemoryCap :=
  { cap with usedSize := base + size - cap.physAddr }

/-- The capability of a new object, with the size and the alignment that it asks for. -/
inductive NewObject (device : Bool) (base : PhysAddr) :
    (size alignment : Nat) → Capability → Prop
  | memory (size alignment : Nat) :
      NewObject device base size alignment (.memory ⟨device, size, base, 0⟩)
  | task : device = false →
      NewObject device base PAGE_SIZE PAGE_SIZE (makeTaskCap base)
  | endpoint : device = false →
      NewObject device base ENDPOINT_SIZE ENDPOINT_SIZE (makeEndpointCap base)
  | pageTable : device = false →
      NewObject device base PAGE_SIZE PAGE_SIZE (.pageTable ⟨false, 0, 0, base, none⟩)
  | virtPage (readable writable executable : Bool) (level : Nat) :
      level ≤ MAX_PAGE_TABLE_LEVEL →
      NewObject device base (getPageSize level) (getPageSize level) (.virtPage
        ⟨false, device, readable, writable, executable, level, 0, base, 0, none⟩)
  | capSpace : device = false →
      NewObject device base PAGE_SIZE PAGE_SIZE (makeCapSpaceCap base false)

/-! ### Tables -/

/-- A store to one entry. -/
def setEntry (tables : TablePtr → Nat → Pte) (table : TablePtr) (index : Nat) (pte : Pte) :
    TablePtr → Nat → Pte :=
  upd tables table (upd (tables table) index pte)

/-- The tables after an object was made: a new page table is zeroed. -/
def Capability.initTables (tables : TablePtr → Nat → Pte) : Capability → TablePtr → Nat → Pte
  | .pageTable cap => upd tables cap.table fun _ => Pte.zero
  | _ => tables

/-- The entry that a capability records as the one that maps its object. -/
def Capability.entry : Capability → Option (TablePtr × Nat)
  | .pageTable cap => cap.parentTable.map fun table =>
      (table, getPageTableIndex cap.virtAddrBase (cap.level + 1))
  | .virtPage cap => cap.parentTable.map fun table =>
      (table, getPageTableIndex cap.address cap.level)
  | _ => none

/-- The tables after the object of a capability was destroyed. -/
def Capability.clearTables (tables : TablePtr → Nat → Pte) (cap : Capability) :
    TablePtr → Nat → Pte :=
  match cap.entry with
  | some (table, index) => setEntry tables table index (tables table index).disable
  | none => tables

/-- `create_task_object` marks the capability of a table as used. -/
def adoptCap (cap : SlotPtr → Capability) (slot : SlotPtr) (level virtAddrBase : Nat) :
    SlotPtr → Capability :=
  match cap slot with
  | .pageTable table => upd cap slot (.pageTable (table.adopt level virtAddrBase))
  | _ => cap

/-- The capabilities after `create_task_object`. -/
def adoptCaps (cap : SlotPtr → Capability) (root slot0 slot1 : SlotPtr) :
    SlotPtr → Capability :=
  adoptCap (adoptCap (adoptCap cap root MAX_PAGE_TABLE_LEVEL 0) slot0 0
    CONFIG_CAPABILITY_SPACE_BASE) slot1 1 CONFIG_CAPABILITY_SPACE_BASE

/-- What `init_task` leaves in the tables of a task: no entry for the user, none below the
kernel's half of the root table, and one that points to a table, the table of level 0. -/
structure InitTables (tables : TablePtr → Nat → Pte) (root table0 table1 : TablePtr)
    (tables' : TablePtr → Nat → Pte) : Prop where
  other : ∀ t, t ≠ root → t ≠ table0 → t ≠ table1 → tables' t = tables t
  user : ∀ t i, t = root ∨ t = table0 ∨ t = table1 → (tables' t i).isUser = false
  inner : ∀ t i, t = root ∨ t = table0 ∨ t = table1 → (tables' t i).isTable = true →
    (tables' t i).getNextPage = table0
  window : ∀ i, (tables' root i).isEnabled = true → root ≠ table0 → root ≠ table1 → 128 ≤ i

/-! ### Objects -/

/-- Neither empty nor a zombie: a capability that names an object. -/
def Capability.Names (c : Capability) : Prop := c ≠ .null ∧ c ≠ .zombie

/-- The types that `copy_cap` links to their source. -/
def Capability.Linked : Capability → Prop
  | .task _ => True
  | .endpoint _ => True
  | _ => False

/-- Whether the nearest capability behind zombies at one of the ends of `a` and `b` is of the
same object as `c`, the capability between them. -/
def SameNeighbor (cap : SlotPtr → Capability) (a b : List SlotPtr) (c : Capability) : Prop :=
  (∃ p, a.getLast? = some p ∧ sameObject (cap p) c = true) ∨
  ∃ n, b.find? (fun s => cap s ≠ .zombie) = some n ∧ sameObject (cap n) c = true

/-- The events of the destructor of an object. -/
def Capability.destroyEvents : Capability → List Event
  | .task cap => [.destroyTask cap.task]
  | .endpoint cap => [.destroyEndpoint cap.endpoint]
  | _ => []

namespace CapStore

variable (S : CapStore)

/-- `y` gets the capability `c` and its place behind `x`, which keeps `c'`. -/
def derive (x y : SlotPtr) (a b : List SlotPtr) (c c' : Capability) : CapStore :=
  { S with
    cap := upd (upd S.cap y c) x c'
    chains := rewrite S.chains x (a ++ x :: y :: b) }

/-- A store to one capability. -/
def setCap (s : SlotPtr) (c : Capability) : CapStore := { S with cap := upd S.cap s c }

/-- The slot `s` is emptied and leaves its list. -/
def clear (s : SlotPtr) (a b : List SlotPtr) : CapStore :=
  { S with
    cap := upd S.cap s .null
    chains := rewrite S.chains s (a ++ b) }

end CapStore

/-! ### The moves -/

/-- What a move does to the derivation of capabilities. -/
inductive Act where
  | create (src dst : SlotPtr)
  | copy (src dst : SlotPtr)
  | delegate (src dst : SlotPtr)
  | move (src dst : SlotPtr)
  | newRoot (dst : SlotPtr)
  | undelegate (zombie : SlotPtr)
  | remove (slot : SlotPtr)
  | selfDestroy
  | adopt
  | attach
  | extend
  | map
deriving DecidableEq, Repr

inductive Trans (S : CapStore) : Act → CapStore → Prop
  /-- `create_memory_object` and its callers. -/
  | create {x y : SlotPtr} {a b : List SlotPtr} {m : MemoryCap} {size alignment base : Nat}
      {c : Capability} (hx : S.cap x = .memory m) (hy : S.cap y = .null)
      (hl : a ++ x :: b ∈ S.chains) (carve : Carve m size alignment base)
      (object : NewObject m.device base size alignment c) :
      Trans S (.create x y)
        { S.derive x y a b c (.memory (m.carve base size)) with tables := c.initTables S.tables }
  /-- The rest of `create_task_object`. -/
  | adopt {y capSpace root slot0 slot1 : SlotPtr} {task : TaskPtr} {p : CapSpaceCap}
      {r t0 t1 : PageTableCap} {tables : TablePtr → Nat → Pte} (hy : S.cap y = makeTaskCap task)
      (hp : S.cap capSpace = .capSpace p) (hr : S.cap root = .pageTable r)
      (h0 : S.cap slot0 = .pageTable t0) (h1 : S.cap slot1 = .pageTable t1)
      (unmapped : r.mapped = false ∧ t0.mapped = false ∧ t1.mapped = false)
      (unused : S.root task = none) (detached : S.space p.space = none)
      (init : InitTables S.tables r.table t0.table t1.table tables) :
      Trans S .adopt
        { S with
          cap := adoptCaps S.cap root slot0 slot1
          tables := tables
          root := upd S.root task (some r.table)
          space := upd S.space p.space (some task)
          trace := S.trace ++ [.attach task 0 p.space] }
  | copy {x y : SlotPtr} {a b : List SlotPtr} (hx : (S.cap x).Linked) (hy : S.cap y = .null)
      (hl : a ++ x :: b ∈ S.chains) :
      Trans S (.copy x y) (S.derive x y a b (S.cap x) (S.cap x))
  | delegate {x y : SlotPtr} {a b : List SlotPtr} (hx : (S.cap x).Names) (hy : S.cap y = .null)
      (hl : a ++ x :: b ∈ S.chains) :
      Trans S (.delegate x y) (S.derive x y a b (S.cap x) .zombie)
  | move {x y : SlotPtr} {a b : List SlotPtr} (hx : (S.cap x).Names) (hy : S.cap y = .null)
      (hl : a ++ x :: b ∈ S.chains) :
      Trans S (.move x y)
        { S with
          cap := upd (upd S.cap y (S.cap x)) x .null
          chains := rewrite S.chains x (a ++ y :: b) }
  /-- The creation of an identifier, and its copy, which is not linked. -/
  | newRoot {y : SlotPtr} {i : IdCap} (hy : S.cap y = .null) :
      Trans S (.newRoot y)
        { S with cap := upd S.cap y (.id i), chains := rewrite S.chains y [y] }
  /-- A zombie gets the capability back over the zombies between it and its holder. -/
  | undelegate {z e : SlotPtr} {a m b : List SlotPtr} (hz : S.cap z = .zombie)
      (hm : ∀ s ∈ m, S.cap s = .zombie) (he : (S.cap e).Names)
      (hl : a ++ z :: (m ++ e :: b) ∈ S.chains) :
      Trans S (.undelegate z)
        { S with
          cap := fun s => if s = z then S.cap e else if s ∈ m ∨ s = e then .null else S.cap s
          chains := rewrite S.chains z (a ++ z :: b) }
  /-- The last slot of an object is cleared: the object is destroyed. -/
  | destroy {s : SlotPtr} {a b : List SlotPtr} (hs : (S.cap s).Names) (hl : a ++ s :: b ∈ S.chains)
      (hp : ∀ p, a.getLast? = some p → S.cap p ≠ .zombie)
      (last : ¬ SameNeighbor S.cap a b (S.cap s)) :
      Trans S (.remove s)
        { S.clear s a b with
          tables := (S.cap s).clearTables S.tables
          trace := S.trace ++ (S.cap s).destroyEvents }
  /-- A slot is cleared beside another one of its object. -/
  | drop {s : SlotPtr} {a b : List SlotPtr} (hs : (S.cap s).Names) (hl : a ++ s :: b ∈ S.chains)
      (hp : ∀ p, a.getLast? = some p → S.cap p ≠ .zombie)
      (same : SameNeighbor S.cap a b (S.cap s)) : Trans S (.remove s) (S.clear s a b)
  /-- A task destroys itself: the destructor does not return. -/
  | selfDestroy {task : TaskPtr} : Trans S .selfDestroy
      { S with trace := S.trace ++ [.destroyTask task] }
  | mapTable {x y : SlotPtr} {p c : PageTableCap} {index : Nat} (hx : S.cap x = .pageTable p)
      (hy : S.cap y = .pageTable c) (hi : index < NUM_PAGE_TABLE_ENTRY)
      (va : entryAddr p p.level index < CONFIG_KERNEL_SPACE_BASE) (level : p.level ≠ 0)
      (free : (S.tables p.table index).isEnabled = false) (unmapped : c.mapped = false) :
      Trans S .map
        { S.setCap y (.pageTable { c with
            mapped := true
            level := p.level - 1
            virtAddrBase := entryAddr p p.level index % CONFIG_MAX_VIRTUAL_ADDRESS
            parentTable := some p.table }) with
          tables := setEntry S.tables p.table index
            ((S.tables p.table index).fill .table c.table) }
  | unmapTable {x y : SlotPtr} {p c : PageTableCap} {index : Nat} (hx : S.cap x = .pageTable p)
      (hy : S.cap y = .pageTable c) (hi : index < NUM_PAGE_TABLE_ENTRY)
      (va : entryAddr p p.level index < CONFIG_KERNEL_SPACE_BASE)
      (enabled : (S.tables p.table index).isEnabled = true) (mapped : c.mapped = true)
      (same : (S.tables p.table index).getNextPage = c.table) :
      Trans S .map
        { S.setCap y (.pageTable { c with mapped := false, parentTable := none }) with
          tables := setEntry S.tables p.table index (S.tables p.table index).disable }
  | mapPage {x y : SlotPtr} {p : PageTableCap} {c : VirtPageCap} {index : Nat} {r w e : Bool}
      (hx : S.cap x = .pageTable p) (hy : S.cap y = .virtPage c)
      (hi : index < NUM_PAGE_TABLE_ENTRY)
      (va : entryAddr p c.level index < CONFIG_KERNEL_SPACE_BASE)
      (free : (S.tables p.table index).isEnabled = false) (unmapped : c.mapped = false)
      (level : c.level = p.level) :
      Trans S .map
        { S.setCap y (.virtPage (c.mapTo r w e index (entryAddr p c.level index) p.table)) with
          tables := setEntry S.tables p.table index
            ((S.tables p.table index).fill (.userPage r w e) c.physAddr) }
  | unmapPage {x y : SlotPtr} {p : PageTableCap} {c : VirtPageCap} {index : Nat}
      (hx : S.cap x = .pageTable p) (hy : S.cap y = .virtPage c)
      (hi : index < NUM_PAGE_TABLE_ENTRY)
      (va : entryAddr p c.level index < CONFIG_KERNEL_SPACE_BASE)
      (enabled : (S.tables p.table index).isEnabled = true) (mapped : c.mapped = true)
      (same : (S.tables p.table index).getNextPage = c.physAddr) :
      Trans S .map
        { S.setCap y (.virtPage { c with mapped := false, parentTable := none }) with
          tables := setEntry S.tables p.table index (S.tables p.table index).disable }
  | remapPage {x o y : SlotPtr} {p q : PageTableCap} {c : VirtPageCap} {index : Nat}
      {r w e : Bool} (hx : S.cap x = .pageTable p) (ho : S.cap o = .pageTable q)
      (hy : S.cap y = .virtPage c) (hi : index < NUM_PAGE_TABLE_ENTRY)
      (va : entryAddr p c.level index < CONFIG_KERNEL_SPACE_BASE) (mapped : c.mapped = true)
      (level : p.level = q.level ∧ p.level = c.level)
      (free : (S.tables p.table index).isEnabled = false)
      (enabled : (S.tables q.table c.index).isEnabled = true)
      (same : (S.tables q.table c.index).getNextPage = c.physAddr) :
      Trans S .map
        { S.setCap y (.virtPage (c.mapTo r w e index (entryAddr p c.level index) p.table)) with
          tables :=
            let tables := setEntry S.tables q.table c.index (S.tables q.table c.index).disable
            setEntry tables p.table index
              ((tables p.table index).fill (.userPage r w e) c.physAddr) }
  /-- `insert_cap_space` enters a space that is not used yet. -/
  | attach {x y : SlotPtr} {c : TaskCap} {p : CapSpaceCap} {table : TablePtr}
      {index number : Nat} (hx : S.cap x = .task c) (hy : S.cap y = .capSpace p)
      (unused : p.used = false) (detached : S.space p.space = none)
      (free : (S.tables table index).isEnabled = false) :
      Trans S .attach
        { S.setCap y (.capSpace { p with used := true }) with
          tables := setEntry S.tables table index
            ((S.tables table index).fill .capSpace p.space)
          space := upd S.space p.space (some c.task)
          trace := S.trace ++ [.attach c.task number p.space] }
  | extend {x y : SlotPtr} {c : TaskCap} {p : PageTableCap} {table parentTable : TablePtr}
      {index level va : Nat} (hx : S.cap x = .task c) (hy : S.cap y = .pageTable p)
      (unmapped : p.mapped = false) (free : (S.tables table index).isEnabled = false) :
      Trans S .extend
        { S.setCap y (.pageTable { p with
            mapped := true
            level := level
            virtAddrBase := va
            parentTable := some parentTable }) with
          tables := setEntry S.tables table index ((S.tables table index).fill .table p.table) }

/-- A sequence of moves. -/
abbrev Moves (S : CapStore) (acts : List Act) (S' : CapStore) : Prop := Steps Trans S acts S'

/-- The abstract state of the kernel. -/
def Kernel.store (k : Kernel) : CapStore where
  cap := k.cap
  chains := k.chains
  tables := k.pageTables
  root t := if (k.tasks t).state = .unused then none else some (k.tasks t).rootPageTable
  space p := (k.capSpaces p).task
  trace := k.trace

end Caprese

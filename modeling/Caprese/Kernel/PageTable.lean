import Caprese.Kernel.Types

/-!
# `Caprese.Kernel.PageTable`: page tables

`page_table_t::walk` of `arch/page.h`, which only computes the index of an entry, the entries
themselves, and the descent through the levels that `init_task`, `insert_cap_space` and
`extend_cap_space` share.
-/

set_option autoImplicit false

namespace Caprese

open Lib Prog

/-- An entry of a zeroed table. -/
def Pte.zero : Pte := ⟨false, false, false, false, false, false, false, false, 0⟩

namespace Kernel

def pte (k : Kernel) (table : TablePtr) (index : Nat) : Pte := k.pageTables table index

def setPte (k : Kernel) (table : TablePtr) (index : Nat) (e : Pte) : Kernel :=
  { k with pageTables := upd k.pageTables table (upd (k.pageTables table) index e) }

/-- `memset` of a whole table. -/
def zeroTable (k : Kernel) (table : TablePtr) : Kernel :=
  { k with pageTables := upd k.pageTables table fun _ => Pte.zero }

end Kernel

/-- `page_table_t::walk`: the index of the entry. -/
def pageTableWalk (va level : Nat) : K Nat := do
  kassert (va < CONFIG_MAX_VIRTUAL_ADDRESS)
  kassert (level ≤ MAX_PAGE_TABLE_LEVEL)
  return getPageTableIndex va level

/-- The loops that go down from a root table, through entries that must be enabled. -/
def walkEnabled (va : Nat) : List Nat → TablePtr → K TablePtr
  | [], table => pure table
  | level :: levels, table => do
    let index ← pageTableWalk va level
    kassert (((← get).pte table index).isEnabled = true)
    walkEnabled va levels (((← get).pte table index).getNextPage)

/-- `set_flags`, `set_next_page` and `enable`, the three stores that fill an entry. -/
def Pte.fill (e : Pte) (flags : PteFlags) (nextPage : PhysAddr) : Pte :=
  ((e.setFlags flags).setNextPage nextPage).enable

/-- The flags of an entry that points to a table: `set_flags({})`. -/
def PteFlags.table : PteFlags := ⟨false, false, false, false, false⟩

/-- The flags of the kernel's own entries in the capability space. -/
def PteFlags.capSpace : PteFlags := ⟨true, true, false, false, false⟩

/-- The flags of the kernel's window on the physical memory. -/
def PteFlags.mappedSpace : PteFlags := ⟨true, true, true, false, true⟩

/-- The flags of a user mapping. -/
def PteFlags.userPage (readable writable executable : Bool) : PteFlags :=
  ⟨readable, writable, executable, true, false⟩

end Caprese

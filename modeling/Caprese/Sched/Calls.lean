import Caprese.Kernel.Call
import Caprese.Sched.Run
import Caprese.Sched.Start

/-!
# `Caprese.Sched.Calls`: the calls that no task notices

The calls on capabilities that create or destroy no task and no endpoint keep `SchedFrame`: they
copy and hand over capabilities, carve memory, and store to page tables.
-/

set_option autoImplicit false

namespace Caprese

open Lib Prog

/-! ### Readers -/

section Readers

variable {R : Kernel → Kernel → Prop} [IsPreorder Kernel R] (slot : SlotPtr)

theorem keeps_memoryCap : Keeps R (memoryCap slot) := by
  refine keeps_bind keeps_get fun k => ?_
  cases k.cap slot <;> first | exact keeps_pure _ | exact keeps_stop _

theorem keeps_taskCap : Keeps R (taskCap slot) := by
  refine keeps_bind keeps_get fun k => ?_
  cases k.cap slot <;> first | exact keeps_pure _ | exact keeps_stop _

theorem keeps_pageTableCap : Keeps R (pageTableCap slot) := by
  refine keeps_bind keeps_get fun k => ?_
  cases k.cap slot <;> first | exact keeps_pure _ | exact keeps_stop _

theorem keeps_virtPageCap : Keeps R (virtPageCap slot) := by
  refine keeps_bind keeps_get fun k => ?_
  cases k.cap slot <;> first | exact keeps_pure _ | exact keeps_stop _

theorem keeps_capSpaceCap : Keeps R (capSpaceCap slot) := by
  refine keeps_bind keeps_get fun k => ?_
  cases k.cap slot <;> first | exact keeps_pure _ | exact keeps_stop _

theorem keeps_idCap : Keeps R (idCap slot) := by
  refine keeps_bind keeps_get fun k => ?_
  cases k.cap slot <;> first | exact keeps_pure _ | exact keeps_stop _

theorem keeps_checkUnused : Keeps R (checkUnused slot) :=
  keeps_bind keeps_get fun _ => keeps_kassert _

theorem keeps_skipZombies : Keeps R (skipZombies slot) := by
  refine keeps_kloop (fun slot => ?_) slot
  refine keeps_bind keeps_get fun _ => keeps_ite ?_ (keeps_pure _)
  exact keeps_bind keeps_get fun _ => keeps_bind (keeps_deref _) fun _ => keeps_pure _

end Readers

namespace SchedFrame

theorem keeps_storeCap (slot : SlotPtr) (c : Capability) : Keeps SchedFrame (storeCap slot c) :=
  keeps_setCap slot c

/-! ### Copies -/

theorem keeps_copyLinked (srcTask : TaskPtr) (srcSlot : SlotPtr) :
    Keeps SchedFrame (copyLinked srcTask srcSlot) := by
  refine keeps_bind keeps_get fun _ => keeps_bind (keeps_insertCap _ _) fun dstSlot => ?_
  refine keeps_bind (keeps_kassert _) fun _ => keeps_bind (keeps_deref _) fun _ => ?_
  exact keeps_bind (keeps_insertAfter _ _) fun _ => keeps_pure _

theorem keeps_copyCap (srcSlot : SlotPtr) : Keeps SchedFrame (copyCap srcSlot) := by
  unfold copyCap
  have hend : ∀ dstSlot : Option SlotPtr, Keeps SchedFrame (do
      if dstSlot = none then
        setErrno .eCapType
        return none
      return dstSlot : K (Option SlotPtr)) := fun dstSlot =>
    keeps_ite (keeps_fail _ _) (keeps_pure _)
  refine keeps_bind keeps_get fun _ => keeps_bind (keeps_deref _) fun srcTask => ?_
  refine keeps_bind keeps_get fun k => ?_
  cases getCapType (k.cap srcSlot) with
  | task => exact keeps_bind (keeps_copyLinked _ _) hend
  | endpoint => exact keeps_bind (keeps_copyLinked _ _) hend
  | id =>
    exact keeps_bind keeps_get fun _ => keeps_bind (keeps_insertCap _ _) hend
  | _ => exact keeps_bind (keeps_pure _) hend

/-! ### Creation -/

theorem keeps_makeMemoryCap (device : Bool) (size baseAddr : Nat) :
    Keeps SchedFrame (makeMemoryCap device size baseAddr) :=
  keeps_bind (keeps_kassert _) fun _ => keeps_bind (keeps_kassert _) fun _ => keeps_pure _

theorem keeps_createMemoryObject (dst src : SlotPtr) (size alignment : Nat) :
    Keeps SchedFrame (createMemoryObject dst src size alignment) := by
  refine keeps_bind (keeps_memoryCap src) fun memCap => ?_
  refine keeps_bind (keeps_checkUnused dst) fun _ => keeps_ite (keeps_fail _ _) ?_
  refine keeps_ite (keeps_fail _ _) (keeps_bind (keeps_makeMemoryCap _ _ _) fun _ => ?_)
  refine keeps_bind (keeps_storeCap _ _) fun _ => keeps_bind (keeps_storeCap _ _) fun _ => ?_
  exact keeps_bind (keeps_insertAfter _ _) fun _ => keeps_pure _

theorem keeps_createKernelObject (dst src : SlotPtr) (size alignment : Nat) :
    Keeps SchedFrame (createKernelObject dst src size alignment) := by
  refine keeps_bind (keeps_memoryCap src) fun memCap => ?_
  refine keeps_bind (keeps_checkUnused dst) fun _ => keeps_ite (keeps_fail _ _) ?_
  refine keeps_bind (keeps_createMemoryObject _ _ _ _) fun slot => ?_
  cases slot with
  | none => exact keeps_pure _
  | some slot => exact keeps_bind (keeps_memoryCap slot) fun _ => keeps_pure _

theorem keeps_createPageTableObject (dst src : SlotPtr) :
    Keeps SchedFrame (createPageTableObject dst src) := by
  refine keeps_bind (keeps_createKernelObject _ _ _ _) fun pageTable => ?_
  cases pageTable with
  | none => exact keeps_pure _
  | some pageTable =>
    refine keeps_bind (keeps_same (fun _ => rfl) fun _ => ⟨rfl, rfl, rfl, rfl, rfl⟩) fun _ => ?_
    refine keeps_bind (keeps_makePageTableCap _ _ _ _ _) fun _ => ?_
    exact keeps_bind (keeps_storeCap _ _) fun _ => keeps_pure _

theorem keeps_createVirtPageObject (dst src : SlotPtr) (r w x : Bool) (level : Nat) :
    Keeps SchedFrame (createVirtPageObject dst src r w x level) := by
  refine keeps_bind (keeps_memoryCap src) fun _ => keeps_bind (keeps_checkUnused dst) fun _ => ?_
  refine keeps_ite (keeps_fail _ _) (keeps_bind (keeps_createMemoryObject _ _ _ _) fun slot => ?_)
  cases slot with
  | none => exact keeps_pure _
  | some slot =>
    refine keeps_bind (keeps_memoryCap slot) fun _ => keeps_bind ?_ fun _ =>
      keeps_bind (keeps_storeCap _ _) fun _ => keeps_pure _
    exact keeps_bind (keeps_kassert _) fun _ => keeps_bind (keeps_kassert _) fun _ => keeps_pure _

theorem keeps_createCapSpaceObject (dst src : SlotPtr) :
    Keeps SchedFrame (createCapSpaceObject dst src) := by
  refine keeps_bind (keeps_createKernelObject _ _ _ _) fun capSpace => ?_
  cases capSpace with
  | none => exact keeps_pure _
  | some capSpace =>
    refine keeps_bind (keeps_same (fun _ => rfl) fun _ => ⟨rfl, rfl, rfl, rfl, rfl⟩) fun _ => ?_
    exact keeps_bind (keeps_storeCap _ _) fun _ => keeps_pure _

theorem keeps_idCapCreate : Keeps SchedFrame idCapCreate := by
  refine keeps_bind keeps_get fun _ => keeps_bind (keeps_popFreeSlots _) fun slot => ?_
  cases slot with
  | none => exact keeps_pure _
  | some slot =>
    refine keeps_bind (keeps_checkUnused slot) fun _ => keeps_bind ?_ fun _ =>
      keeps_bind (keeps_storeCap _ _) fun _ => keeps_pure _
    refine keeps_bind keeps_get fun _ => keeps_bind ?_ fun _ => ?_
    · exact keeps_same (fun _ => rfl) fun _ => ⟨rfl, rfl, rfl, rfl, rfl⟩
    · exact keeps_bind (keeps_kassert _) fun _ => keeps_pure _

/-! ### Tables -/

theorem keeps_failWith (e : SysError) : Keeps SchedFrame (failWith e) := keeps_fail e false

theorem keeps_checkArgs (index : Nat) (slot : Option SlotPtr) (type : CapType) :
    Keeps SchedFrame (checkArgs index slot type) := by
  unfold checkArgs
  refine keeps_ite (keeps_fail _ _) ?_
  cases slot with
  | none => exact keeps_fail _ _
  | some slot =>
    exact keeps_bind keeps_get fun _ => keeps_ite (keeps_fail _ _) (keeps_pure _)

theorem keeps_mapPageTableCap (s : SlotPtr) (i : Nat) (child : Option SlotPtr) :
    Keeps SchedFrame (mapPageTableCap s i child) := by
  refine keeps_bind (keeps_pageTableCap s) fun _ => ?_
  refine keeps_bind (keeps_checkArgs _ _ _) fun slot => ?_
  cases slot with
  | none => exact keeps_pure _
  | some slot =>
    refine keeps_bind (keeps_pageTableCap slot) fun _ => keeps_ite (keeps_failWith _) ?_
    refine keeps_ite (keeps_failWith _) (keeps_bind keeps_get fun _ => ?_)
    refine keeps_ite (keeps_failWith _) (keeps_ite (keeps_failWith _) ?_)
    exact keeps_bind keeps_setPte fun _ => keeps_bind (keeps_storeCap _ _) fun _ => keeps_pure _

theorem keeps_unmapPageTableCap (s : SlotPtr) (i : Nat) (child : Option SlotPtr) :
    Keeps SchedFrame (unmapPageTableCap s i child) := by
  refine keeps_bind (keeps_pageTableCap s) fun _ => ?_
  refine keeps_bind (keeps_checkArgs _ _ _) fun slot => ?_
  cases slot with
  | none => exact keeps_pure _
  | some slot =>
    refine keeps_bind (keeps_pageTableCap slot) fun _ => keeps_bind keeps_get fun _ => ?_
    refine keeps_ite (keeps_failWith _) (keeps_ite (keeps_failWith _) ?_)
    refine keeps_ite (keeps_failWith _) (keeps_ite (keeps_failWith _) ?_)
    exact keeps_bind keeps_setPte fun _ => keeps_bind (keeps_storeCap _ _) fun _ => keeps_pure _

theorem keeps_mapVirtPageCap (s : SlotPtr) (i : Nat) (page : Option SlotPtr) (r w x : Bool) :
    Keeps SchedFrame (mapVirtPageCap s i page r w x) := by
  refine keeps_bind (keeps_pageTableCap s) fun _ => ?_
  refine keeps_bind (keeps_checkArgs _ _ _) fun slot => ?_
  cases slot with
  | none => exact keeps_pure _
  | some slot =>
    refine keeps_bind (keeps_virtPageCap slot) fun _ => keeps_ite (keeps_failWith _) ?_
    refine keeps_bind keeps_get fun _ => keeps_ite (keeps_failWith _) ?_
    refine keeps_ite (keeps_failWith _) (keeps_ite (keeps_failWith _) ?_)
    refine keeps_ite (keeps_bind (keeps_modify fun k => storeBytes k _ _) fun _ => ?_) ?_ <;>
    exact keeps_bind keeps_setPte fun _ => keeps_bind (keeps_storeCap _ _) fun _ => keeps_pure _

theorem keeps_unmapVirtPageCap (s : SlotPtr) (i : Nat) (page : Option SlotPtr) :
    Keeps SchedFrame (unmapVirtPageCap s i page) := by
  refine keeps_bind (keeps_pageTableCap s) fun _ => ?_
  refine keeps_bind (keeps_checkArgs _ _ _) fun slot => ?_
  cases slot with
  | none => exact keeps_pure _
  | some slot =>
    refine keeps_bind (keeps_virtPageCap slot) fun _ => keeps_bind keeps_get fun _ => ?_
    refine keeps_ite (keeps_failWith _) (keeps_ite (keeps_failWith _) ?_)
    refine keeps_ite (keeps_failWith _) (keeps_ite (keeps_failWith _) ?_)
    exact keeps_bind keeps_setPte fun _ => keeps_bind (keeps_storeCap _ _) fun _ => keeps_pure _

theorem keeps_remapVirtPageCap (s : SlotPtr) (i : Nat) (page : Option SlotPtr) (r w x : Bool)
    (old : Option SlotPtr) : Keeps SchedFrame (remapVirtPageCap s i page r w x old) := by
  refine keeps_bind (keeps_pageTableCap s) fun _ => ?_
  refine keeps_bind (keeps_checkArgs _ _ _) fun slot => ?_
  cases slot with
  | none => exact keeps_pure _
  | some slot =>
    refine keeps_bind (keeps_checkArgs _ _ _) fun oldSlot => ?_
    cases oldSlot with
    | none => exact keeps_pure _
    | some oldSlot =>
      refine keeps_bind (keeps_virtPageCap slot) fun _ => ?_
      refine keeps_bind (keeps_pageTableCap oldSlot) fun _ => keeps_bind keeps_get fun _ => ?_
      refine keeps_ite (keeps_failWith _) (keeps_ite (keeps_failWith _) ?_)
      refine keeps_ite (keeps_failWith _) (keeps_ite (keeps_failWith _) ?_)
      refine keeps_bind keeps_get fun _ => keeps_ite (keeps_failWith _) ?_
      refine keeps_ite (keeps_failWith _) (keeps_ite (keeps_failWith _) ?_)
      refine keeps_bind keeps_setPte fun _ => keeps_bind keeps_setPte fun _ => ?_
      exact keeps_bind (keeps_storeCap _ _) fun _ => keeps_pure _

/-! ### Capability spaces -/

theorem keeps_insertCapSpaceCap (s s' : SlotPtr) : Keeps SchedFrame (insertCapSpaceCap s s') := by
  refine keeps_bind (keeps_taskCap s) fun _ => keeps_bind (keeps_capSpaceCap s') fun _ => ?_
  refine keeps_bind keeps_get fun _ => keeps_ite (keeps_failWith _) ?_
  refine keeps_ite (keeps_failWith _) (keeps_bind (keeps_insertCapSpace _ _) fun _ => ?_)
  refine keeps_ite (keeps_bind keeps_get fun k => ?_) (keeps_pure _)
  cases k.cap s' with
  | capSpace cap => exact keeps_bind (keeps_storeCap _ _) fun _ => keeps_pure _
  | _ => exact keeps_pure _

theorem keeps_extendCapSpaceCap (s s' : SlotPtr) : Keeps SchedFrame (extendCapSpaceCap s s') := by
  refine keeps_bind (keeps_taskCap s) fun _ => keeps_bind (keeps_pageTableCap s') fun _ => ?_
  refine keeps_bind keeps_get fun _ => keeps_ite (keeps_failWith _) ?_
  refine keeps_ite (keeps_failWith _) (keeps_bind (keeps_extendCapSpace _ _) fun va => ?_)
  cases va with
  | none => exact keeps_pure _
  | some va =>
    refine keeps_bind keeps_get fun _ => keeps_bind (keeps_walkEnabled _ _ _) fun _ => ?_
    refine keeps_bind (keeps_pageTableWalk _ _) fun _ => keeps_bind keeps_get fun _ => ?_
    refine keeps_bind (keeps_kassert _) fun _ => keeps_bind keeps_ask fun _ => ?_
    exact keeps_bind keeps_get fun _ => keeps_bind (keeps_storeCap _ _) fun _ => keeps_pure _

end SchedFrame

/-! ### The calls -/

/-- The calls that create no object of the kernel and take no capability away. -/
def Call.Idle : Call → Prop
  | .createObject _ _ _ | .revokeCap _ | .destroyCap _ => False
  | _ => True

open SchedFrame in
theorem Call.Idle.keeps {call : Call} (h : call.Idle) (task : TaskPtr) :
    Keeps SchedFrame (call.serve task) := by
  have hmap : ∀ {α : Type} {f : α → Answer} {m : K α}, Keeps SchedFrame m →
      Keeps SchedFrame (f <$> m) := by
    intro _ _ _ hm env k
    rw [wp_map]
    exact hm env k
  cases call with
  | createObject => exact h.elim
  | createId => exact hmap keeps_idCapCreate
  | copyCap slot => exact hmap (keeps_copyCap slot)
  | transferCap dst slot => exact hmap (keeps_transferCap dst _)
  | delegateCap dst slot => exact hmap (keeps_delegateCap dst _)
  | revokeCap => exact h.elim
  | destroyCap => exact h.elim
  | insertCapSpace s s' => exact hmap (keeps_insertCapSpaceCap s s')
  | extendCapSpace s s' => exact hmap (keeps_extendCapSpaceCap s s')
  | mapPageTable s i child => exact hmap (keeps_mapPageTableCap s i child)
  | unmapPageTable s i child => exact hmap (keeps_unmapPageTableCap s i child)
  | mapVirtPage s i page r w x => exact hmap (keeps_mapVirtPageCap s i page r w x)
  | unmapVirtPage s i page => exact hmap (keeps_unmapVirtPageCap s i page)
  | remapVirtPage s i page r w x old => exact hmap (keeps_remapVirtPageCap s i page r w x old)

end Caprese

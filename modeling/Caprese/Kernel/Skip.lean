import Caprese.Kernel.Revoke

/-!
# `Caprese.Kernel.Skip`: `revoke_cap` and `destroy_cap` with two parts left open

The loops of `is_same_object` and `revoke_cap` follow `next` past the zombies without asking
whether there is a next slot, and `destroy_object` has nothing to do for a slot that is empty or a
zombie. The code of this module is that of the kernel, with `skip` in the place of these loops, also for
a null slot, and `other` in the place of the default of `destroy_object`. With the kernel's own
loop and panic it is the kernel's code (`revokeCapWith_kernel`, `destroyCapWith_kernel`).
-/

set_option autoImplicit false

namespace Caprese

open Lib Prog

variable (skip : Option SlotPtr → K SlotPtr) (other : SlotPtr → K Unit)

/-! ### `is_same_object` and the destructors -/

def isSameObjectWith (lhs rhs : SlotPtr) : K Bool := do
  let lhs ← skip (some lhs)
  let rhs ← skip (some rhs)
  if lhs = rhs then return true
  return sameObject ((← get).cap lhs) ((← get).cap rhs)

def checkLastWith (slot : SlotPtr) : K Unit := do
  match ((← get).slots slot).next with
  | none => pure ()
  | some next => do
    let same ← isSameObjectWith skip slot next
    kassert (same = false)

def destroyTaskObjectWith (slot : SlotPtr) : K Unit := do
  checkLastWith skip slot
  let cap ← taskCap slot
  modify fun k => k.record (.destroyTask cap.task)
  killTask cap.task 0

def destroyEndpointObjectWith (slot : SlotPtr) : K Unit := do
  checkLastWith skip slot
  let cap ← endpointCap slot
  modify fun k => k.record (.destroyEndpoint cap.endpoint)
  ipcCancel cap.endpoint

def destroyPageTableObjectWith (slot : SlotPtr) : K Unit := do
  checkLastWith skip slot
  let cap ← pageTableCap slot
  clearEntry cap.parentTable cap.virtAddrBase (cap.level + 1) cap.table

def destroyVirtPageObjectWith (slot : SlotPtr) : K Unit := do
  checkLastWith skip slot
  let cap ← virtPageCap slot
  clearEntry cap.parentTable cap.address cap.level cap.physAddr

def destroyCapSpaceObjectWith (slot : SlotPtr) : K Unit := do
  checkLastWith skip slot
  let _ ← capSpaceCap slot

def destroyIdObjectWith (slot : SlotPtr) : K Unit := do
  checkLastWith skip slot
  let _ ← idCap slot

def destroyObjectWith (slot : SlotPtr) : K Unit := do
  match getCapType ((← get).cap slot) with
  | .mem => destroyMemoryObject slot
  | .task => destroyTaskObjectWith skip slot
  | .endpoint => destroyEndpointObjectWith skip slot
  | .pageTable => destroyPageTableObjectWith skip slot
  | .virtPage => destroyVirtPageObjectWith skip slot
  | .capSpace => destroyCapSpaceObjectWith skip slot
  | .id => destroyIdObjectWith skip slot
  | _ => other slot

/-! ### `destroy_cap_slot` and `revoke_cap` -/

def destroyCapSlotWith (slot : SlotPtr) : K Unit := do
  kassert (((← get).slots slot).isTail = true)
  checkSlotTask slot
  match ((← get).slots slot).prev with
  | some prevSlot =>
    if getCapType ((← get).cap prevSlot) = .zombie then
      modify fun k => k.setCap prevSlot (k.cap slot)
    else if !(← isSameObjectWith skip prevSlot slot) then destroyObjectWith skip other slot
  | none => destroyObjectWith skip other slot
  let _ ← eraseThis slot
  freeSlot slot

def revokeCapWith (slot : SlotPtr) : K Bool := do
  let type := getCapType ((← get).cap slot)
  if type ≠ .mem ∧ type ≠ .zombie then
    setErrno .eCapType
    return false
  checkSlotTask slot
  if type = .mem then
    backTo slot (destroyCapSlotWith skip other) (← lastSlot slot)
  else
    let capSlot ← skip ((← get).slots slot).next
    let cap := (← get).cap capSlot
    backTo slot (fun capSlot => do
      let _ ← eraseThis capSlot
      freeSlot capSlot) capSlot
    storeCap slot cap
  return true

/-! ### `destroy_cap` -/

def isSameNeighborWith (neighbor : Option SlotPtr) (slot : SlotPtr) : K Bool := do
  match neighbor with
  | none => return false
  | some neighbor => isSameObjectWith skip neighbor slot

def hasSameNeighborWith (slot : SlotPtr) : K Bool := do
  if ← isSameNeighborWith skip ((← get).slots slot).prev slot then return true
  isSameNeighborWith skip ((← get).slots slot).next slot

def destroyRevokedWith (slot : SlotPtr) : K Bool := do
  if !(← hasSameNeighborWith skip slot) then
    destroyObjectWith skip other slot
    freeSlot slot
    return true
  match ((← get).slots slot).prev with
  | some prevSlot =>
    if getCapType ((← get).cap prevSlot) = .zombie then
      let same ← isSameObjectWith skip prevSlot slot
      kassert (same = true)
      return ← revokeCapWith skip other prevSlot
  | none => pure ()
  let _ ← eraseThis slot
  freeSlot slot
  return true

def destroyCapWith (slot : SlotPtr) : K Bool := do
  let type := getCapType ((← get).cap slot)
  if type = .null then
    setErrno .eCapType
    return false
  if type = .mem ∨ type = .zombie then
    if !(← revokeCapWith skip other slot) then return false
  destroyRevokedWith skip other slot

/-! ### The kernel's code -/

/-- The loop of the kernel: a null slot has no capability to look at. -/
def skipFrom (slot : Option SlotPtr) : K SlotPtr := do skipZombies (← deref slot)

theorem revokeCapWith_kernel : revokeCapWith skipFrom (fun _ => stop .panic) = revokeCap := by
  funext slot env k
  unfold revokeCapWith revokeCap
  refine bind_congr fun k₁ k₂ _ => ?_
  dsimp only
  split
  · rfl
  · refine bind_congr fun _ k₃ _ => ?_
    split
    · rfl
    · refine bind_congr fun k₄ k₅ _ => ?_
      exact bind_assoc (deref (k₄.slots slot).next) skipZombies _

theorem destroyCapWith_kernel :
    destroyCapWith skipFrom (fun _ => stop .panic) = destroyCap := by
  funext slot
  unfold destroyCapWith destroyCap destroyRevokedWith destroyRevoked
  rw [revokeCapWith_kernel]
  rfl

end Caprese

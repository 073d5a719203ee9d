import Caprese.Kernel.PageTable

/-!
# `Caprese.Kernel.UserMemory`: the kernel's access to user memory

`walk`, `read_user_memory`, `write_user_memory` and `forward_user_memory` of
`user_memory.cpp`. A copy goes page by page, and the bytes lie in `Kernel.memory`.
-/

set_option autoImplicit false

namespace Caprese

open Lib Prog

namespace Kernel

def loadBytes (k : Kernel) (addr length : Nat) : List UInt8 :=
  (List.range length).map fun i => k.memory (addr + i)

def storeBytes (k : Kernel) (addr : Nat) (bytes : List UInt8) : Kernel :=
  { k with memory := fun a =>
      if addr ≤ a ∧ a < addr + bytes.length then bytes.getD (a - addr) 0 else k.memory a }

end Kernel

/-- The loop of `walk`, from the level at the head of the list down. -/
def walkLevels (va : Nat) : List Nat → TablePtr → K (Option (Pte × Nat))
  | [], _ => pure none
  | level :: levels, table => do
    let index ← pageTableWalk va level
    let pte := (← get).pte table index
    if pte.isDisabled then return none
    else if pte.isTable then walkLevels va levels pte.getNextPage
    else if pte.isUser then return some (pte, level)
    else return none

/-- `walk` of `user_memory.cpp`: the entry that maps `va` for the user, and its level. -/
def walk (task : TaskPtr) (va : Nat) : K (Option (Pte × Nat)) := do
  walkLevels va [GIGA_PAGE_TABLE_LEVEL, MEGA_PAGE_TABLE_LEVEL, KILO_PAGE_TABLE_LEVEL]
    ((← get).tasks task).rootPageTable

/-- Where the page of an entry has the byte of `va`, and how much of the page follows. -/
def pageChunk (va level : Nat) : Nat × Nat :=
  (va % getPageSize level, getPageSize level - va % getPageSize level)

/-- `read_user_memory` with the bytes that it has left in `dst`, also where it fails. -/
def readUserMemoryTo (task : TaskPtr) (src size : Nat) : K (Bool × List UInt8) :=
  kloop (fun bytes => do
    if bytes.length < size then
      let va := (src + bytes.length) % 2 ^ 64
      match ← walk task va with
      | none => return .inr (false, bytes)
      | some (pte, level) =>
        let (offset, rest) := pageChunk va level
        let length := min rest (size - bytes.length)
        return .inl (bytes ++ (← get).loadBytes (pte.getNextPage + offset) length)
    else return .inr (true, bytes)) []

/-- `read_user_memory` for a caller that drops the bytes of a read that fails. -/
def readUserMemory (task : TaskPtr) (src size : Nat) : K (Option (List UInt8)) := do
  let (success, bytes) ← readUserMemoryTo task src size
  return if success then some bytes else none

def writeUserMemory (task : TaskPtr) (src : List UInt8) (dst : Nat) : K Bool :=
  kloop (fun written => do
    if written < src.length then
      let va := (dst + written) % 2 ^ 64
      match ← walk task va with
      | none => return .inr false
      | some (pte, level) =>
        let (offset, rest) := pageChunk va level
        let length := min rest (src.length - written)
        modify fun k => k.storeBytes (pte.getNextPage + offset) ((src.drop written).take length)
        return .inl (written + length)
    else return .inr true) 0

/-- The length of a chunk is that of the source page, also where the destination page ends
before it. -/
def forwardUserMemory (srcTask dstTask : TaskPtr) (src dst size : Nat) : K Bool :=
  kloop (fun forwarded => do
    if forwarded < size then
      let srcVa := (src + forwarded) % 2 ^ 64
      let dstVa := (dst + forwarded) % 2 ^ 64
      match ← walk srcTask srcVa with
      | none => return .inr false
      | some (srcPte, srcLevel) =>
        match ← walk dstTask dstVa with
        | none => return .inr false
        | some (dstPte, dstLevel) =>
          let (srcOffset, srcRest) := pageChunk srcVa srcLevel
          let (dstOffset, _) := pageChunk dstVa dstLevel
          let srcLength := min srcRest (size - forwarded)
          modify fun k => k.storeBytes (dstPte.getNextPage + dstOffset)
            (k.loadBytes (srcPte.getNextPage + srcOffset) srcLength)
          return .inl (forwarded + srcLength)
    else return .inr true) 0

end Caprese

import Caprese.Kernel.Types
import Caprese.Lib.Steps

/-!
# `Caprese.Kernel.Lock`: the lock that a task may take again

`recursive_spinlock_t` of `lock.cpp`. The code runs on one lock, by the task whose `tid` is
given. A call is atomic: what other cores do to the lock stands between calls. A `lock` that
finds the flag set waits for another core, so as an atomic call it does not end.
-/

set_option autoImplicit false

namespace Caprese

open Lib Prog

/-- `owner` is the `tid` of the holder, and 0 in a free lock. -/
structure RecursiveSpinlock where
  state : Bool
  owner : Nat
  count : Nat
deriving DecidableEq, Repr

/-- A new lock, as its constructor and `memset` leave it. -/
def RecursiveSpinlock.free : RecursiveSpinlock := ⟨false, 0, 0⟩

/-- Code on a lock. The parameter is a bound on the turns of the loop. -/
abbrev LockCode := Prog Nat Stop RecursiveSpinlock

/-- `std::atomic_flag::test_and_set`. -/
def testAndSet : LockCode Bool := do
  let old := (← get).state
  modify fun l => { l with state := true }
  return old

/-- `std::atomic_flag::clear`. -/
def clearFlag : LockCode Unit := modify fun l => { l with state := false }

/-- `++count`, on 32 bits. -/
def countUp : LockCode Unit := modify fun l => { l with count := (l.count + 1) % 2 ^ 32 }

/-- `--count`. -/
def countDown : LockCode Unit :=
  modify fun l => { l with count := (l.count + 2 ^ 32 - 1) % 2 ^ 32 }

def lock (currentTid : Nat) : LockCode Unit := do
  if (← get).owner = currentTid then countUp
  else
    -- The busy waiting and the loop around it.
    loop .diverged (fun _ => do
      if ← testAndSet then return .inl ()
      if (← get).owner = 0 then
        modify fun l => { l with owner := currentTid, count := 1 }
        return .inr ()
      else return .inl ()) (← ask) ()

def unlock (currentTid : Nat) : LockCode Unit := do
  if (← get).owner ≠ currentTid then stop .panic
  else
    countDown
    if (← get).count = 0 then
      modify fun l => { l with owner := 0 }
      clearFlag
    else pure ()

def tryLock (currentTid : Nat) : LockCode Bool := do
  if (← get).owner = currentTid then
    countUp
    return true
  else
    if ← testAndSet then return false
    if (← get).owner = 0 then modify fun l => { l with owner := currentTid, count := 1 }
    return true

/-! ### Calls -/

inductive LockCall where
  | lock | unlock | tryLock
deriving DecidableEq, Repr

/-- The function that serves a call. The answer is whether it succeeded. -/
def LockCall.serve (currentTid : Nat) : LockCall → LockCode Bool
  | .lock => do Caprese.lock currentTid; return true
  | .unlock => do Caprese.unlock currentTid; return true
  | .tryLock => Caprese.tryLock currentTid

/-- A call of a task that ended with success. -/
inductive LockStep {τ : Type} (tid : τ → Nat) (l : RecursiveSpinlock) :
    τ × LockCall → RecursiveSpinlock → Prop
  | served {t : τ} {call : LockCall} {l' : RecursiveSpinlock} (bound : Nat)
      (run : call.serve (tid t) bound l = .ok true l') : LockStep tid l (t, call) l'

/-- A sequence of calls, each of which meets the condition `ok` on the lock that it finds. -/
abbrev LockRun {τ : Type} (tid : τ → Nat) (ok : RecursiveSpinlock → τ × LockCall → Prop) :
    RecursiveSpinlock → List (τ × LockCall) → RecursiveSpinlock → Prop :=
  Steps fun l act l' => ok l act ∧ LockStep tid l act l'

end Caprese

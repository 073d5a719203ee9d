import Caprese.Kernel.Boot
import Caprese.Kernel.Mapping
import Caprese.Kernel.Revoke
import Caprese.Lib.Steps

/-!
# `Caprese.Kernel.Call`: runs of the kernel

The operations on capabilities as calls that a task makes, and one call as a step of the
kernel. A system call finds its slots with `lookup_cap`. The functions behind it check what
the slots hold themselves, so a call may name any slot. Which task has the processor at a
call is left open: a `Turn` is a task together with its call, and all interleavings of the
tasks are runs.

A call that returns is a step, and so is one that ends in `resched`, because the calling task
was killed. A failed assertion, a panic, a null dereference or a loop that exceeds the bound
end the run.
-/

set_option autoImplicit false

namespace Caprese

open Lib Prog

/-- What a call returns. -/
inductive Answer where
  | slot (slot : Option SlotPtr)
  | bool (b : Bool)
deriving DecidableEq, Repr

inductive Call where
  | createObject (capSlot : SlotPtr) (type : CapType) (args : List Nat)
  | createId
  | copyCap (srcSlot : SlotPtr)
  | transferCap (dstTask : TaskPtr) (srcSlot : SlotPtr)
  | delegateCap (task : TaskPtr) (srcSlot : SlotPtr)
  | revokeCap (slot : SlotPtr)
  | destroyCap (slot : SlotPtr)
  | insertCapSpace (taskSlot capSpaceSlot : SlotPtr)
  | extendCapSpace (taskSlot pageTableSlot : SlotPtr)
  | mapPageTable (pageTableSlot : SlotPtr) (index : Nat) (childSlot : Option SlotPtr)
  | unmapPageTable (pageTableSlot : SlotPtr) (index : Nat) (childSlot : Option SlotPtr)
  | mapVirtPage (pageTableSlot : SlotPtr) (index : Nat) (virtPageSlot : Option SlotPtr)
      (readable writable executable : Bool)
  | unmapVirtPage (pageTableSlot : SlotPtr) (index : Nat) (virtPageSlot : Option SlotPtr)
  | remapVirtPage (newPageTableSlot : SlotPtr) (index : Nat) (virtPageSlot : Option SlotPtr)
      (readable writable executable : Bool) (oldPageTableSlot : Option SlotPtr)
deriving DecidableEq, Repr

/-- The function that serves a call of `task`. -/
def Call.serve (task : TaskPtr) : Call → K Answer
  | .createObject capSlot type args => .slot <$> Caprese.createObject task capSlot type args
  | .createId => .slot <$> idCapCreate
  | .copyCap srcSlot => .slot <$> Caprese.copyCap srcSlot
  | .transferCap dstTask srcSlot => .slot <$> Caprese.transferCap dstTask (some srcSlot)
  | .delegateCap task srcSlot => .slot <$> Caprese.delegateCap task (some srcSlot)
  | .revokeCap slot => .bool <$> Caprese.revokeCap slot
  | .destroyCap slot => .bool <$> Caprese.destroyCap slot
  | .insertCapSpace taskSlot capSpaceSlot => .bool <$> insertCapSpaceCap taskSlot capSpaceSlot
  | .extendCapSpace taskSlot pageTableSlot => .bool <$> extendCapSpaceCap taskSlot pageTableSlot
  | .mapPageTable pageTableSlot index childSlot =>
    .bool <$> mapPageTableCap pageTableSlot index childSlot
  | .unmapPageTable pageTableSlot index childSlot =>
    .bool <$> unmapPageTableCap pageTableSlot index childSlot
  | .mapVirtPage pageTableSlot index virtPageSlot r w x =>
    .bool <$> mapVirtPageCap pageTableSlot index virtPageSlot r w x
  | .unmapVirtPage pageTableSlot index virtPageSlot =>
    .bool <$> unmapVirtPageCap pageTableSlot index virtPageSlot
  | .remapVirtPage newPageTableSlot index virtPageSlot r w x oldPageTableSlot =>
    .bool <$> remapVirtPageCap newPageTableSlot index virtPageSlot r w x oldPageTableSlot

/-- The arguments of a system call are 64-bit values. -/
def Call.args64 : Call → Prop
  | .createObject _ _ args => ∀ a ∈ args, a < 2 ^ 64
  | _ => True

instance : DecidablePred Call.args64
  | .createObject _ _ args => inferInstanceAs (Decidable (∀ a ∈ args, a < 2 ^ 64))
  | .createId | .copyCap _ | .transferCap _ _ | .delegateCap _ _ | .revokeCap _
  | .destroyCap _ | .insertCapSpace _ _ | .extendCapSpace _ _ | .mapPageTable _ _ _
  | .unmapPageTable _ _ _ | .mapVirtPage _ _ _ _ _ _ | .unmapVirtPage _ _ _
  | .remapVirtPage _ _ _ _ _ _ _ => isTrue trivial

/-- A task and the call that it makes. -/
structure Turn where
  task : TaskPtr
  call : Call
deriving DecidableEq, Repr

/-- The processor goes to `task`. -/
def Kernel.dispatch (k : Kernel) (task : TaskPtr) : Kernel := { k with currentTask := task }

def Turn.serve (config : Config) (turn : Turn) (k : Kernel) : Outcome Stop Kernel Answer :=
  turn.call.serve turn.task (.debug config) (k.dispatch turn.task)

/-- What a turn asks for: the task is one that can run, and its arguments are 64-bit. -/
structure Turn.Enabled (turn : Turn) (k : Kernel) : Prop where
  alive : ¬ isDead (k.tasks turn.task)
  args64 : turn.call.args64

instance (turn : Turn) (k : Kernel) : Decidable (turn.Enabled k) :=
  decidable_of_iff (¬ isDead (k.tasks turn.task) ∧ turn.call.args64)
    ⟨fun h => ⟨h.1, h.2⟩, fun h => ⟨h.alive, h.args64⟩⟩

/-- One call, with its answer unless the calling task was killed by it. -/
inductive Step (config : Config) (k : Kernel) (turn : Turn) : Option Answer → Kernel → Prop
  | returned {answer : Answer} {k' : Kernel} (enabled : turn.Enabled k)
      (run : turn.serve config k = .ok answer k') : Step config k turn (some answer) k'
  | killed {k' : Kernel} (enabled : turn.Enabled k)
      (run : turn.serve config k = .stop .switched k') : Step config k turn none k'

/-- A weakest precondition of the call is what a step ends in. -/
theorem Step.of_wp {config : Config} {k k' : Kernel} {turn : Turn} {answer : Option Answer}
    {Q : Answer → Kernel → Prop} {E : Stop → Kernel → Prop}
    (hstep : Step config k turn answer k')
    (h : wp (turn.call.serve turn.task) (.debug config) Q E (k.dispatch turn.task)) :
    match answer with
    | some answer => Q answer k'
    | none => E .switched k' := by
  cases hstep with
  | returned _ hrun => exact wp_ok h hrun
  | killed _ hrun => exact wp_stopped h hrun

/-- The step that a turn makes, computed. -/
def Turn.next (config : Config) (turn : Turn) (k : Kernel) : Option (Option Answer × Kernel) :=
  if turn.Enabled k then
    match turn.serve config k with
    | .ok answer k' => some (some answer, k')
    | .stop .switched k' => some (none, k')
    | .stop _ _ => none
  else none

theorem step_of_next {config : Config} {k k' : Kernel} {turn : Turn} {answer : Option Answer}
    (h : turn.next config k = some (answer, k')) : Step config k turn answer k' := by
  unfold Turn.next at h
  split at h
  · rename_i henabled
    split at h
    · rename_i a k₁ hrun
      obtain ⟨rfl, rfl⟩ := Prod.mk.inj (Option.some.inj h)
      exact .returned henabled hrun
    · rename_i k₁ hrun
      obtain ⟨rfl, rfl⟩ := Prod.mk.inj (Option.some.inj h)
      exact .killed henabled hrun
    · exact absurd h (by simp)
  · exact absurd h (by simp)

/-- A run: a sequence of calls with their answers, each of which meets the condition `ok` in
the state in which it is made. -/
abbrev Run (config : Config) (ok : Kernel → Turn × Option Answer → Prop) :
    Kernel → List (Turn × Option Answer) → Kernel → Prop :=
  Steps fun k call k' => ok k call ∧ Step config k call.1 call.2 k'

section Compute

variable (config : Config) (ok : Kernel → Turn × Option Answer → Prop)
  [∀ k call, Decidable (ok k call)]

/-- The run that a list of turns makes, computed. -/
def runTurns : List Turn → Kernel → Option Kernel
  | [], k => some k
  | turn :: turns, k =>
    match turn.next config k with
    | some (answer, k') => if ok k (turn, answer) then runTurns turns k' else none
    | none => none

variable {config ok}

theorem run_of_runTurns {turns : List Turn} {k k' : Kernel}
    (h : runTurns config ok turns k = some k') : ∃ calls, Run config ok k calls k' := by
  induction turns generalizing k with
  | nil =>
    obtain rfl := Option.some.inj h
    exact ⟨[], .nil⟩
  | cons turn turns ih =>
    unfold runTurns at h
    split at h
    · rename_i answer k₁ hnext
      split at h
      · rename_i hok
        obtain ⟨calls, hrun⟩ := ih h
        exact ⟨_, (Steps.single ⟨hok, step_of_next hnext⟩).append hrun⟩
      · exact absurd h (by simp)
    · exact absurd h (by simp)

end Compute

end Caprese

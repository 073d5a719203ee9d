import Caprese.Kernel.Call
import Caprese.Store.CreateTask
import Caprese.Store.Mapping
import Caprese.Store.Revoke

/-!
# `Caprese.Store.Run`: runs of the kernel are runs of the machine

Each call makes the moves that its answer tells (`Call.Makes`), as long as it meets the
condition `Turn.Safe`. So the kernel refines the abstract machine: along a run of safe calls
the links stay in order, and the invariant of the machine holds.
-/

set_option autoImplicit false

namespace Caprese

open Lib Prog

variable {cfg : Config} {k k' : Kernel} {turn : Turn} {answer : Option Answer}

/-- No address wraps around in the call. -/
def Turn.Fits (turn : Turn) (k : Kernel) : Prop :=
  match turn.call with
  | .createObject capSlot type args => CreateOk k capSlot type args
  | _ => True

/-- The call does not attach a capability space that is attached already. -/
def AttachesOnce (k : Kernel) (turn : Turn) (answer : Option Answer) : Prop :=
  match turn.call with
  | .createObject _ type args =>
    type = .task → answer ≠ some (.slot none) → TaskDetached k turn.task args
  | .insertCapSpace _ capSpaceSlot => answer = some (.bool true) → AttachOk k capSpaceSlot
  | _ => True

instance (turn : Turn) (k : Kernel) : Decidable (turn.Fits k) := by
  unfold Turn.Fits
  split <;> infer_instance

instance (k : Kernel) (turn : Turn) (answer : Option Answer) :
    Decidable (AttachesOnce k turn answer) := by
  unfold AttachesOnce
  split <;> infer_instance

/-- What a call needs for the store to stay in order. -/
def Safe (k : Kernel) (call : Turn × Option Answer) : Prop :=
  call.1.Fits k ∧ AttachesOnce k call.1 call.2

instance (k : Kernel) (call : Turn × Option Answer) : Decidable (Safe k call) :=
  inferInstanceAs (Decidable (_ ∧ _))

/-- The moves of a call that answers with the slot `y`. -/
def Call.slotActs (cap : SlotPtr → Capability) (y : SlotPtr) : Call → List Act
  | .createObject x type _ => .create x y :: if type = .task then [.adopt] else []
  | .createId => [.newRoot y]
  | .copyCap x => [copyAct (cap x) x y]
  | .transferCap _ x => [.move x y]
  | .delegateCap _ x => [.delegate x y]
  | _ => []

/-- The moves of a call that answers with true. -/
def Call.flagActs : Call → List Act
  | .insertCapSpace _ _ => [.attach]
  | .extendCapSpace _ _ => [.extend]
  | .mapPageTable _ _ _ | .unmapPageTable _ _ _ | .mapVirtPage _ _ _ _ _ _
  | .unmapVirtPage _ _ _ | .remapVirtPage _ _ _ _ _ _ _ => [.map]
  | _ => []

/-- Whether a call takes capabilities away. -/
def Call.Removes : Call → Prop
  | .revokeCap _ => True
  | .destroyCap _ => True
  | _ => False

/-- The moves that a call made, as far as its answer tells. -/
def Call.Makes (cap : SlotPtr → Capability) (call : Call) (answer : Option Answer)
    (acts : List Act) : Prop :=
  match answer with
  | some (.slot (some y)) => acts = call.slotActs cap y
  | some (.slot none) => acts = []
  | some (.bool b) =>
    call.Removes ∧ (∀ act ∈ acts, act.IsRemoval) ∨
      ¬ call.Removes ∧ acts = if b then call.flagActs else []
  | none => call.Removes ∧ ∀ act ∈ acts, act.IsRemoval ∨ act = .selfDestroy

/-- What a call did to the store. -/
def Serves (k : Kernel) (call : Call) (answer : Option Answer) (k' : Kernel) : Prop :=
  ∃ acts, call.Makes k.cap answer acts ∧ Does k acts k'

theorem StoreInv.dispatch (h : StoreInv k ∅) (task : TaskPtr) : StoreInv (k.dispatch task) ∅ :=
  (⟨rfl, rfl, fun _ => rfl, fun _ => rfl, fun _ => Iff.rfl⟩ :
    StoreFrame k (k.dispatch task)).storeInv h

theorem Does.of_dispatch {task : TaskPtr} {acts : List Act} (h : Does (k.dispatch task) acts k') :
    Does k acts k' := ⟨h.inv, h.moves⟩

section Serve

variable {call : Call} {task : TaskPtr}

/-- A call that answers with a slot. -/
theorem wp_serveSlot {m : K (Option SlotPtr)} {act : SlotPtr → Act}
    (hm : wp m (.debug cfg) (Answers (k.dispatch task) act) NoSwitch (k.dispatch task))
    (hacts : ∀ y, call.slotActs k.cap y = [act y]) :
    wp (Answer.slot <$> m) (.debug cfg)
      (fun answer k' => AttachesOnce k ⟨task, call⟩ (some answer) → Serves k call (some answer) k')
      (fun e k' => e = .switched → Serves k call none k') (k.dispatch task) := by
  rw [wp_map]
  refine wp_mono hm (fun r k' hk' _ => ?_) fun e k' he heq => absurd heq he
  cases r with
  | none => exact ⟨[], rfl, Does.of_dispatch hk'⟩
  | some y => exact ⟨[act y], (hacts y).symm, Does.of_dispatch hk'⟩

/-- A call that answers with a flag. -/
theorem wp_serveFlag {m : K Bool} {act : Act}
    (hm : wp m (.debug cfg) (Maps (k.dispatch task) act) NoSwitch (k.dispatch task))
    (hacts : call.flagActs = [act]) (hcall : ¬ call.Removes) :
    wp (Answer.bool <$> m) (.debug cfg)
      (fun answer k' => AttachesOnce k ⟨task, call⟩ (some answer) → Serves k call (some answer) k')
      (fun e k' => e = .switched → Serves k call none k') (k.dispatch task) := by
  rw [wp_map]
  refine wp_mono hm (fun r k' hk' _ => ?_) fun e k' he heq => absurd heq he
  cases r with
  | false => exact ⟨[], Or.inr ⟨hcall, rfl⟩, Does.of_dispatch hk'⟩
  | true => exact ⟨[act], Or.inr ⟨hcall, hacts.symm⟩, Does.of_dispatch hk'⟩

/-- A call that takes capabilities away. -/
theorem wp_serveRemoval {m : K Bool}
    (hm : wp m (.debug cfg) (fun _ k' => Removes (k.dispatch task) k') (Stops (k.dispatch task))
      (k.dispatch task)) (hcall : call.Removes) :
    wp (Answer.bool <$> m) (.debug cfg)
      (fun answer k' => AttachesOnce k ⟨task, call⟩ (some answer) → Serves k call (some answer) k')
      (fun e k' => e = .switched → Serves k call none k') (k.dispatch task) := by
  rw [wp_map]
  refine wp_mono hm (fun r k' hk' _ => ?_) fun e k' he heq => ?_
  · obtain ⟨acts, hacts, hdoes⟩ := hk'
    exact ⟨acts, Or.inl ⟨hcall, hacts⟩, hdoes.of_dispatch⟩
  · obtain ⟨acts, hacts, hdoes⟩ := he heq
    exact ⟨acts, ⟨hcall, hacts⟩, hdoes.of_dispatch⟩

end Serve

/-- One call, from a state in order. -/
theorem wp_serve (h : StoreInv k ∅) (hI : CapInv k.store) (henabled : turn.Enabled k)
    (hfits : turn.Fits k) :
    wp (turn.call.serve turn.task) (.debug cfg)
      (fun answer k' => AttachesOnce k turn (some answer) → Serves k turn.call (some answer) k')
      (fun e k' => e = .switched → Serves k turn.call none k') (k.dispatch turn.task) := by
  have h₀ : StoreInv (k.dispatch turn.task) ∅ := h.dispatch turn.task
  have hT : TailInv (k.dispatch turn.task).store := hI.tail
  obtain ⟨task, call⟩ := turn
  cases call with
  | createObject x type args =>
    have hok : CreateOk (k.dispatch task) x type args := hfits
    show wp (Answer.slot <$> createObject task x type args) _ _ _ _
    rw [wp_map]
    refine wp_mono (wp_createObject h₀ hI.mem hok) (fun r k' hk' hattach => ?_)
      fun e k' he heq => absurd heq he
    cases r with
    | none => exact ⟨[], rfl, Does.of_dispatch hk'⟩
    | some y =>
      obtain ⟨hinv, m, size, alignment, S, hx, -, hcreated, ⟨htype, hstore⟩ | ⟨htype, hadopt⟩⟩ :=
        hk' fun htype => hattach htype (by simp)
      · refine ⟨[.create x y], ?_, hinv, ?_⟩
        · show _ = _
          -- A creation is one move, or for a task the move and the adoption of its parts.
          simp [Call.slotActs, htype]
        · rw [hstore]
          exact .single hcreated.trans
      · refine ⟨[.create x y, .adopt], ?_, hinv, ?_⟩
        · show _ = _
          simp [Call.slotActs, htype]
        · exact .snoc (.single hcreated.trans) hadopt
  | createId =>
    -- The calls that answer with a slot, then the removals, then those on records.
    exact wp_serveSlot (wp_idCapCreate h₀ fun hu => henabled.alive (Or.inl hu)) fun _ => rfl
  | copyCap x => exact wp_serveSlot (wp_copyCap h₀) fun _ => rfl
  | transferCap t x => exact wp_serveSlot (wp_transferCap h₀) fun _ => rfl
  | delegateCap t x => exact wp_serveSlot (wp_delegateCap h₀) fun _ => rfl
  | revokeCap x =>
    refine wp_serveRemoval (wp_mono (wp_revokeCap h₀ hT) ?_ fun _ _ he => he) trivial
    exact fun _ _ hr => hr.removes
  | destroyCap x => exact wp_serveRemoval (wp_destroyCap h₀ hT) trivial
  | insertCapSpace x y =>
    show wp (Answer.bool <$> insertCapSpaceCap x y) _ _ _ _
    rw [wp_map]
    refine wp_mono (wp_insertCapSpaceCap h₀) (fun r k' hk' hattach => ?_)
      fun e k' he heq => absurd heq he
    cases r with
    | false => exact ⟨[], Or.inr ⟨by simp [Call.Removes], rfl⟩, Does.of_dispatch hk'⟩
    | true =>
      have hdoes : Does (k.dispatch task) [.attach] k' := hk' (hattach rfl)
      exact ⟨[.attach], Or.inr ⟨by simp [Call.Removes], rfl⟩, hdoes.of_dispatch⟩
  | extendCapSpace x y =>
    exact wp_serveFlag (wp_extendCapSpaceCap h₀) rfl (by simp [Call.Removes])
  | mapPageTable x i y => exact wp_serveFlag (wp_mapPageTableCap h₀) rfl (by simp [Call.Removes])
  | unmapPageTable x i y =>
    exact wp_serveFlag (wp_unmapPageTableCap h₀) rfl (by simp [Call.Removes])
  | mapVirtPage x i y r w e =>
    exact wp_serveFlag (wp_mapVirtPageCap h₀) rfl (by simp [Call.Removes])
  | unmapVirtPage x i y =>
    exact wp_serveFlag (wp_unmapVirtPageCap h₀) rfl (by simp [Call.Removes])
  | remapVirtPage x i y r w e o =>
    exact wp_serveFlag (wp_remapVirtPageCap h₀) rfl (by simp [Call.Removes])

/-- A step of the kernel is a sequence of moves of the machine. -/
theorem Step.serves (hstep : Step cfg k turn answer k') (h : StoreInv k ∅) (hI : CapInv k.store)
    (hsafe : Safe k (turn, answer)) : Serves k turn.call answer k' := by
  cases hstep with
  | returned henabled hrun => exact wp_ok (wp_serve h hI henabled hsafe.1) hrun hsafe.2
  | killed henabled hrun => exact wp_stopped (wp_serve h hI henabled hsafe.1) hrun rfl

/-! ### Runs -/

/-- A state in order: the links of the slots, and the machine that they implement. -/
structure KernelInv (k : Kernel) : Prop where
  links : StoreInv k ∅
  store : CapInv k.store

theorem Step.keeps (hstep : Step cfg k turn answer k') (h : KernelInv k)
    (hsafe : Safe k (turn, answer)) : KernelInv k' := by
  obtain ⟨acts, -, hdoes⟩ := hstep.serves h.links h.store hsafe
  exact ⟨hdoes.inv, h.store.moves hdoes.moves⟩

variable {ok : Kernel → Turn × Option Answer → Prop} {calls : List (Turn × Option Answer)}

/-- A run of safe calls. -/
theorem Run.keeps (hsafe : ∀ k call, ok k call → Safe k call) (hrun : Run cfg ok k calls k')
    (h : KernelInv k) : KernelInv k' :=
  hrun.invariant (fun k call _ hk hstep => hstep.2.keeps hk (hsafe k call hstep.1)) h

/-- The kernel refines the machine: a run of safe calls is a sequence of moves. -/
theorem Run.refines (hsafe : ∀ k call, ok k call → Safe k call) (hrun : Run cfg ok k calls k')
    (h : KernelInv k) : KernelInv k' ∧ ∃ acts, Moves k.store acts k'.store := by
  refine hrun.simulate (U := Trans) (fun k call k' hk hstep => ?_) h
  obtain ⟨acts, -, hdoes⟩ := hstep.2.serves hk.links hk.store (hsafe k call hstep.1)
  exact ⟨⟨hdoes.inv, hk.store.moves hdoes.moves⟩, acts, hdoes.moves⟩

end Caprese

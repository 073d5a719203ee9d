import Caprese.Sched.Create
import Caprese.Sched.Start
import Caprese.Store.Boot
import Caprese.Store.Lineage
import Caprese.Store.Run
import Caprese.Store.Serve
import Caprese.System.Authority

/-!
# `Caprese.System.Run`: runs of the whole system

The operations on tasks and endpoints come with an invariant on the queues, and the calls on
capabilities with one on the store. Here they meet: a state is in order (`Core.InOrder`) if both
hold, and in addition no task waits at an endpoint whose memory is free, and no capability names the
idle task. An operation may pass capabilities on with its message, and a call on capabilities may
kill tasks, give up endpoints and set up new ones, so each half of the invariant rests on the other.
Every step of the system keeps it (`SystemStep.inOrder`), and does moves of the capability machine.
-/

set_option autoImplicit false

namespace Caprese

open Lib Prog

variable {cfg : Config} {sys : SystemConfig} {k k' : Kernel} {c c' : Core} {m m' : Machine}
  {act : Action} {acts : List Act} {A B : Desk} {call : Call} {op : Op}

/-- The memory of the endpoint is not free. -/
def Kernel.Taken (k : Kernel) (e : EndpointPtr) : Prop := ¬ k.store.Free e

/-- Every task that waits to send or to receive stands in a queue. -/
def Kernel.Settled (k : Kernel) : Prop :=
  ∀ t, (k.tasks t).state = .waiting → (k.tasks t).ipcState = .calling ∨ ¬ k.InNoQueue t

/-- Both halves of the kernel are in order. -/
structure Core.InOrder (c : Core) : Prop where
  kernel : KernelInv c.kernel
  discipline : Disciplined debugAllows c
  grounded : ∃ A, Shows c.kernel A ∧ A.Grounded c.kernel.Taken
  noIdle : c.kernel.NoIdleCap

/-! ### Frames -/

/-- A kernel shows one desk. -/
theorem Shows.unique (hA : Shows k A) (hB : Shows k B) : A = B := by
  obtain ⟨tasks, ready, waiting, current, idle, deliveries⟩ := A
  obtain rfl : tasks = B.tasks := funext fun t => (hA.tasks t).symm.trans (hB.tasks t)
  obtain rfl : ready = B.ready := hA.ready.unique hB.ready
  obtain rfl : waiting = B.waiting :=
    funext fun e => funext fun side => (hA.waiting e side).unique (hB.waiting e side)
  obtain rfl : current = B.current := hA.current.symm.trans hB.current
  obtain rfl : idle = B.idle := hA.idle.symm.trans hB.idle
  obtain rfl : deliveries = B.deliveries := hA.deliveries.symm.trans hB.deliveries
  rfl

theorem Desk.Grounded.mono {G H : EndpointPtr → Prop} (h : A.Grounded G) (hGH : ∀ e, G e → H e) :
    A.Grounded H := ⟨h.spare, h.inUse, h.idle, fun e side hne => hGH e (h.queues e side hne)⟩

/-- Stores to fields that neither half looks at. -/
theorem Core.InOrder.frame {mode : Mode} (h : (⟨k, mode⟩ : Core).InOrder) (hcap : CapFrame k k')
    (hsched : SchedFrame k k') : (⟨k', mode⟩ : Core).InOrder := by
  obtain ⟨A, hA, hI, hmode⟩ := h.discipline
  obtain ⟨B, hB, hg⟩ := h.grounded
  have hstore : k'.store = k.store := hcap.store
  refine ⟨⟨hcap.storeInv h.kernel.links, ?_⟩, ⟨A, hA.frame hsched, hI, hmode⟩,
    ⟨B, hB.frame hsched, hg.mono fun e he => ?_⟩, h.noIdle.frame hcap hsched.idleTask⟩
  · show CapInv k'.store
    rw [hstore]
    exact h.kernel.store
  · show ¬ k'.store.Free e
    rw [hstore]
    exact he

theorem Kernel.Alike.frames (h : k.Alike k') : CapFrame k k' ∧ SchedFrame k k' := by
  obtain ⟨error, rfl⟩ := h
  exact ⟨.errno k error, .of_eq rfl rfl rfl rfl rfl rfl⟩

/-! ### What the two halves say of each other -/

theorem KernelInv.hands (h : KernelInv k) (hh : Hands k k') : KernelInv k' := by
  obtain ⟨hlinks, acts, hmoves⟩ := hh.does h.links
  exact ⟨hlinks, capInv_mute.mp ((capInv_mute.mpr h.store).moves hmoves)⟩

/-- An endpoint that a capability names is not free. -/
theorem KernelInv.taken (h : KernelInv k) {t : TaskPtr} {e : EndpointPtr} (he : k.HasEndpoint t e) :
    k.Taken e := by
  obtain ⟨s, cap, -, hcap, rfl⟩ := he
  exact h.store.mem.object_not_free (o := .endpoint cap.endpoint) (s := s) (congrArg _ hcap)

/-- New tasks are not the idle task, which is in use. -/
theorem KernelInv.noIdle (h : KernelInv k) (hnoIdle : k.NoIdleCap)
    (hidle : (k.tasks k.idleTask).state ≠ .unused) (hsame : k'.idleTask = k.idleTask)
    (hmoves : Moves k.store.mute acts k'.store.mute) : k'.NoIdleCap := by
  intro s cap hs heq
  rw [hsame] at heq
  have hobject : (k'.store.mute.cap s).object = some (.task k.idleTask) := by
    rw [← heq]
    exact congrArg _ hs
  rcases hmoves.denoted ⟨s, hobject⟩ with ⟨s', hs'⟩ | hfree
  · have hcap : (k.cap s').object = some (.task k.idleTask) := hs'
    cases hold : k.cap s' with
    | task cap' =>
      rw [hold] at hcap
      exact hnoIdle s' cap' hold (Object.task.inj (Option.some.inj hcap))
    | _ =>
      rw [hold] at hcap
      exact absurd hcap (by simp [Capability.object])
  · have hroot : k.store.root k.idleTask = some (k.tasks k.idleTask).rootPageTable := if_neg hidle
    exact h.store.mem.tasks _ _ k.idleTask hroot
      ⟨Nat.le_refl _, Nat.lt_add_of_pos_right (by decide)⟩ hfree

/-- What a step comes to: the state behind it is in order, and reached by moves. -/
def Core.Leads (c c' : Core) : Prop :=
  c'.InOrder ∧ ∃ acts, Moves c.kernel.store.mute acts c'.kernel.store.mute

/-- A step that made moves, and had an effect on the desk. -/
theorem Core.InOrder.leads (h : c.InOrder) (hA : Shows c.kernel A) (hg : B.Grounded c.kernel.Taken)
    (hinv : KernelInv c'.kernel) (hmoves : Moves c.kernel.store.mute acts c'.kernel.store.mute)
    (hdiscipline : Disciplined debugAllows c') (hB : Shows c'.kernel B) (hidle : B.idle = A.idle) :
    c.Leads c' := by
  obtain ⟨A', hA', hg'⟩ := h.grounded
  obtain rfl := hA.unique hA'
  refine ⟨⟨hinv, hdiscipline, ⟨B, hB, hg.mono fun e he hfree => he (hmoves.free hfree)⟩,
    h.kernel.noIdle h.noIdle ?_ ?_ hmoves⟩, acts, hmoves⟩
  · rw [hA.state, hA.idle]
    exact hg'.idle
  · rw [hB.idle, hidle, hA.idle]

/-! ### Operations -/

theorem Kernel.Orderly.admits_debug : Admits (.debug cfg) debugAllows Kernel.Orderly := by
  have hallows : (⟨True, (Env.debug cfg).ndebug = true⟩ : Desk.Allows) = debugAllows := by
    simp [debugAllows]
  rw [← hallows]
  exact Kernel.Orderly.admits

/-- What an operation of the current task does to the store. -/
theorem Core.InOrder.invoke_hands (h : c.InOrder) {answer : Option Bool}
    (hstep : CoreStep (.debug cfg) c (.invoke op, answer) c') : Hands c.kernel c'.kernel := by
  obtain ⟨A, hA, hg⟩ := h.grounded
  have hcur : (c.kernel.tasks c.kernel.currentTask).state ≠ .unused := by
    rw [hA.state, hA.current]
    exact hg.inUse
  rcases hstep.of_wp (op.hand hcur) with ⟨_, -, hhands⟩ | ⟨-, hgives⟩
  · exact hhands
  · exact hgives rfl

/-- What the task that was switched in does to it. -/
theorem CoreStep.goOn_hands {answer : Option Bool}
    (hstep : CoreStep (.debug cfg) c (.resume, answer) c') : Hands c.kernel c'.kernel := by
  cases hstep with
  | resume _ hrun =>
    have hwp : wp c.kernel.goOn (.debug cfg) (fun _ k' => Hands c.kernel k') (Gives c.kernel)
      c.kernel := Kernel.hand_goOn
    cases hout : c.kernel.goOn (.debug cfg) c.kernel with
    | ok b k' =>
      rw [hout] at hrun
      obtain ⟨-, rfl⟩ := Prod.mk.inj (Option.some.inj hrun)
      exact wp_ok hwp hout
    | stop s k' =>
      rw [hout] at hrun
      cases s with
      | switched =>
        obtain ⟨-, rfl⟩ := Prod.mk.inj (Option.some.inj hrun)
        exact wp_stopped hwp hout rfl
      | _ => exact absurd hrun (by simp [Outcome.toCore])

/-- An operation of the current task. -/
theorem Core.InOrder.invoke (h : c.InOrder) {answer : Option Bool}
    (horderly : c.kernel.Orderly (.invoke op)) (hop : ∀ e, op.endpoint = some e → c.kernel.Taken e)
    (hstep : CoreStep (.debug cfg) c (.invoke op, answer) c') : c.Leads c' := by
  obtain ⟨A, A', hA, -, -, hA', heffect, hI', hmode, hanswer⟩ :=
    h.discipline.invoke Kernel.Orderly.admits_debug horderly hstep
  obtain ⟨B, hB, hg⟩ := h.grounded
  obtain rfl := hA.unique hB
  have hhands := h.invoke_hands hstep
  obtain ⟨-, acts, hmoves⟩ := hhands.does h.kernel.links
  exact h.leads hA (heffect.grounded hg hop) (h.kernel.hands hhands) hmoves
    (.of_answered hA' hI' hmode hanswer) hA' heffect.idle

/-- The task that was switched in. -/
theorem Core.InOrder.goOn (h : c.InOrder) {answer : Option Bool}
    (hstep : CoreStep (.debug cfg) c (.resume, answer) c') : c.Leads c' := by
  obtain ⟨A, A', hA, hI, -, hA', heffect, hI', hmode, hanswer⟩ := h.discipline.goOn hstep
  obtain ⟨B, hB, hg⟩ := h.grounded
  obtain rfl := hA.unique hB
  have hhands := hstep.goOn_hands
  obtain ⟨-, acts, hmoves⟩ := hhands.does h.kernel.links
  exact h.leads hA (heffect.grounded hg hI) (h.kernel.hands hhands) hmoves
    (.of_answered hA' hI' hmode hanswer) hA' heffect.idle_eq

/-! ### Calls -/

section Calls

variable {answer : Option Answer} (h : (⟨k, .user⟩ : Core).InOrder)
  (hstep : Step cfg k ⟨k.currentTask, call⟩ answer k')
include h hstep

omit h in
/-- A call that stores to slots and tables only. -/
theorem Step.schedFrame (hcall : call.Idle) (hreturns : answer ≠ none) : SchedFrame k k' := by
  have hanswer := hstep.of_wp (hcall.keeps k.currentTask _ _)
  cases answer with
  | none => exact absurd rfl hreturns
  | some a => exact hanswer

theorem Core.InOrder.idleCall (hcall : call.Idle) (hreturns : answer ≠ none)
    (hinv : KernelInv k') (hmoves : Moves k.store.mute acts k'.store.mute) :
    (⟨k, .user⟩ : Core).Leads ⟨k', if answer = none then .kernel else .user⟩ := by
  obtain ⟨A, hA, hI, hu⟩ := h.discipline
  obtain ⟨B, hB, hg⟩ := h.grounded
  obtain rfl := hA.unique hB
  have hsched := hstep.schedFrame hcall hreturns
  rw [if_neg hreturns]
  exact h.leads hA hg hinv hmoves ⟨A, hA.frame hsched, hI, hu⟩ (hA.frame hsched) rfl

/-- A call that creates an object. -/
theorem Core.InOrder.creates {slot : SlotPtr} {type : CapType} {args : List Nat}
    (hcall : call = .createObject slot type args) (hok : CreateOk k slot type args) :
    answer ≠ none ∧ ∃ A, Shows k A ∧ Seated A k.Taken k' := by
  subst hcall
  obtain ⟨A, hA, hI, hu⟩ := h.discipline
  obtain ⟨B, hB, hg⟩ := h.grounded
  obtain rfl := hA.unique hB
  have hseat : Seated A k.Taken k := ⟨A, hA, hI, hu, hg, .refl A⟩
  have hwp : wp (Answer.slot <$> createObject k.currentTask slot type args) (.debug cfg)
      (fun _ k' => Seated A k.Taken k') NoSwitch k := by
    rw [wp_map]
    exact hseat.wp_createObject h.kernel.links h.kernel.store.mem hok fun e hfree htaken =>
      htaken hfree
  have hanswer := hstep.of_wp hwp
  cases answer with
  | none => exact absurd rfl hanswer
  | some a => exact ⟨by simp, A, hA, hanswer⟩

theorem Core.InOrder.createCall {slot : SlotPtr} {type : CapType} {args : List Nat}
    (hcall : call = .createObject slot type args) (hok : CreateOk k slot type args)
    (hinv : KernelInv k') (hmoves : Moves k.store.mute acts k'.store.mute) :
    (⟨k, .user⟩ : Core).Leads ⟨k', if answer = none then .kernel else .user⟩ := by
  obtain ⟨hreturns, A, hA, A', hA', hI', hu', hg', hgrows⟩ := h.creates hstep hcall hok
  rw [if_neg hreturns]
  exact h.leads hA hg' hinv hmoves ⟨A', hA', hI', hu'⟩ hA' hgrows.idle

/-- A call that takes capabilities away. -/
theorem Core.InOrder.removes (hcall : call.Removes) (hsettled : k.Settled) :
    match answer with
    | some _ => Tidy k.currentTask k.Taken k'
    | none => Left k.Taken k' := by
  obtain ⟨A, hA, hI, hu⟩ := h.discipline
  obtain ⟨B, hB, hg⟩ := h.grounded
  obtain rfl := hA.unique hB
  have hset : A.Settled := by
    intro t ht
    rw [← hA.ipcState]
    refine (hsettled t ((hA.state t).trans ht)).imp_right fun hin => ?_
    exact not_not.mp (hA.inNoQueue_iff.not.mp hin)
  have htidy : Tidy k.currentTask k.Taken k := ⟨rfl, ⟨A, hA, hI, hu, hset, hg⟩, h.noIdle⟩
  have hwp : wp (call.serve k.currentTask) (.debug cfg) (fun _ k' => Tidy k.currentTask k.Taken k')
      (fun e k' => e = .switched → Left k.Taken k') k := by
    cases call with
    | revokeCap slot =>
      show wp (Answer.bool <$> revokeCap slot) _ _ _ _
      rw [wp_map]
      exact htidy.revokeCap
    | destroyCap slot =>
      show wp (Answer.bool <$> destroyCap slot) _ _ _ _
      rw [wp_map]
      exact htidy.destroyCap
    | _ => exact hcall.elim
  have hanswer := hstep.of_wp hwp
  cases answer with
  | none => exact hanswer rfl
  | some a => exact hanswer

theorem Core.InOrder.removeCall (hcall : call.Removes) (hsettled : k.Settled)
    (hinv : KernelInv k') (hmoves : Moves k.store.mute acts k'.store.mute) :
    (⟨k, .user⟩ : Core).Leads ⟨k', if answer = none then .kernel else .user⟩ := by
  have hgrounded : ∀ {A' : Desk}, A'.Grounded k.Taken → A'.Grounded k'.Taken := fun hg' =>
    hg'.mono fun e he hfree => he (hmoves.free hfree)
  have hremoves := h.removes hstep hcall hsettled
  cases answer with
  | none =>
    obtain ⟨⟨A', hA', hI', hin, hg'⟩, hnoIdle⟩ := hremoves
    exact ⟨⟨hinv, ⟨A', hA', hI', hin⟩, ⟨A', hA', hgrounded hg'⟩, hnoIdle⟩, acts, hmoves⟩
  | some a =>
    obtain ⟨-, ⟨A', hA', hI', hu', -, hg'⟩, hnoIdle⟩ := hremoves
    exact ⟨⟨hinv, ⟨A', hA', hI', hu'⟩, ⟨A', hA', hgrounded hg'⟩, hnoIdle⟩, acts, hmoves⟩

/-- A call that answers leaves the processor where it was. -/
theorem Core.InOrder.call_current {a : Answer} (hanswer : answer = some a)
    (hsafe : Safe k (⟨k.currentTask, call⟩, answer)) (hsettled : call.Removes → k.Settled) :
    k'.currentTask = k.currentTask := by
  subst hanswer
  cases call with
  | createObject =>
    obtain ⟨-, A, hA, A', hA', -, -, -, hgrows⟩ := h.creates hstep rfl hsafe.1
    rw [hA'.current, hgrows.current, hA.current]
  | revokeCap => exact (h.removes hstep trivial (hsettled trivial)).current
  | destroyCap => exact (h.removes hstep trivial (hsettled trivial)).current
  | _ => exact (hstep.schedFrame trivial (by simp)).currentTask

/-- A call on capabilities of the current task. -/
theorem Core.InOrder.serve (hsafe : Safe k (⟨k.currentTask, call⟩, answer))
    (hsettled : call.Removes → k.Settled) :
    (⟨k, .user⟩ : Core).Leads ⟨k', if answer = none then .kernel else .user⟩ := by
  obtain ⟨acts, hmakes, hdoes⟩ := hstep.serves h.kernel.links h.kernel.store hsafe
  have hinv : KernelInv k' := ⟨hdoes.inv, h.kernel.store.moves hdoes.moves⟩
  have hmoves := hdoes.moves.mute
  -- Only a call that takes capabilities away ends without an answer.
  have hreturns : ¬ call.Removes → answer ≠ none := by
    rintro hcall rfl
    exact hcall hmakes.1
  cases call with
  | createObject => exact h.createCall hstep rfl hsafe.1 hinv hmoves
  | revokeCap => exact h.removeCall hstep trivial (hsettled trivial) hinv hmoves
  | destroyCap => exact h.removeCall hstep trivial (hsettled trivial) hinv hmoves
  | _ => exact h.idleCall hstep trivial (hreturns id) hinv hmoves

end Calls

/-! ### Steps of the system -/

/-- What keeps a run of the system in order: its operations are orderly and its calls safe, and no
task is between its queue and its message when capabilities are taken away. -/
def Machine.Safe (m : Machine) : Action → Prop
  | .syscall _ (.op op) _ => m.core.kernel.Orderly (.invoke op)
  | .syscall _ (.call call) answer =>
    Caprese.Safe m.core.kernel (⟨m.core.kernel.currentTask, call⟩, answer) ∧
      (call.Removes → m.core.kernel.Settled)
  | _ => True

/-- The lookups of a system call leave the state in order. -/
theorem Machine.resolves.inOrder {regs : Frame} {request : Request}
    (hresolved : m.resolves sys regs request k) (h : m.core.InOrder) :
    (⟨k, .user⟩ : Core).InOrder ∧ m.core.kernel.Alike k ∧
      m.core.kernel.Grants m.core.kernel.currentTask sys.lib request := by
  obtain ⟨huser, hrun⟩ := hresolved
  obtain ⟨hgrants, halike⟩ := wp_ok wp_resolve hrun
  have hcore : m.core = ⟨m.core.kernel, .user⟩ := by
    rw [← huser]
  rw [hcore] at h
  exact ⟨h.frame halike.frames.1 halike.frames.2, halike, hgrants⟩

theorem Kernel.GrantsOp.endpoint {t : TaskPtr} {e : EndpointPtr} (h : k.GrantsOp t op)
    (he : op.endpoint = some e) : k.HasEndpoint t e := by
  cases op with
  | sendShort => exact Option.some.inj he ▸ h
  | sendLong => exact Option.some.inj he ▸ h
  | receive => exact Option.some.inj he ▸ h
  | call => exact Option.some.inj he ▸ h
  | reply => exact Option.some.inj he ▸ h
  | replyAndReceive => exact Option.some.inj he ▸ h
  | cancel => exact h.elim
  | setKillNotify => exact Option.some.inj he ▸ h.2
  | _ => exact absurd he (by simp [Op.endpoint])

theorem Kernel.Alike.orderly (h : k.Alike k') (ho : k.Orderly (.invoke op)) :
    k'.Orderly (.invoke op) := by
  obtain ⟨error, rfl⟩ := h
  cases op <;> exact ho

theorem Kernel.Alike.safe {answer : Option Answer} (h : k.Alike k')
    (hs : Safe k (⟨k.currentTask, call⟩, answer)) :
    Safe k' (⟨k'.currentTask, call⟩, answer) := by
  obtain ⟨error, rfl⟩ := h
  obtain ⟨hfits, hattach⟩ := hs
  cases call <;> exact ⟨hfits, hattach⟩

/-- The states of the kernel before and behind the lookups are one to the capability machine. -/
theorem Core.Leads.of_alike (hc : c.kernel.Alike k) (h : (⟨k, .user⟩ : Core).Leads c') :
    c.Leads c' := by
  obtain ⟨hin, acts, hmoves⟩ := h
  have hstore : k.store = c.kernel.store := hc.frames.1.store
  refine ⟨hin, acts, ?_⟩
  rw [← hstore]
  exact hmoves

theorem Core.InOrder.leads_self (h : c.InOrder) : c.Leads c := ⟨h, [], .nil⟩

theorem Kernel.Alike.settled (h : k.Alike k') (hs : k.Settled) : k'.Settled := by
  obtain ⟨error, rfl⟩ := h
  exact hs

theorem Machine.withKernel_core (h : m.core.mode = .user) (k : Kernel) :
    (m.withKernel k).core = ⟨k, .user⟩ := congrArg (Core.mk k) h

theorem MachineStep.coreStep {lib : TrapConfig} {env : Env} {regs : Frame}
    (hstep : MachineStep lib env m (.invoke op regs) m') :
    ∃ answer, CoreStep env m.core (.invoke op, answer) m'.core := by
  cases hstep with
  | returned step => exact ⟨_, step⟩
  | left step => exact ⟨_, step⟩

/-- The step lemma: a step of the system does moves, and leaves a state in order. -/
theorem SystemStep.leads (hstep : SystemStep sys m act m') (h : m.core.InOrder)
    (hsafe : m.Safe act) : m.core.Leads m'.core := by
  cases hstep with
  | answered hresolved _ =>
    obtain ⟨hin, halike, -⟩ := hresolved.inOrder h
    exact .of_alike halike hin.leads_self
  | op hresolved step =>
    obtain ⟨hin, halike, hgrants⟩ := hresolved.inOrder h
    obtain ⟨answer, hcore⟩ := step.coreStep
    rw [Machine.withKernel_core hresolved.1] at hcore
    refine .of_alike halike (hin.invoke (halike.orderly hsafe) (fun e he => ?_) hcore)
    have hfree : m.core.kernel.Taken e := h.kernel.taken (hgrants.endpoint he)
    unfold Kernel.Taken at hfree ⊢
    rwa [halike.frames.1.store]
  | setReg hresolved step =>
    obtain ⟨hin, halike, -⟩ := hresolved.inOrder h
    cases step with
    | setReg huser _ _ =>
      show m.core.Leads (m.withKernel _).core
      rw [Machine.withKernel_core hresolved.1]
      exact .of_alike halike hin.leads_self
  | call hresolved step =>
    obtain ⟨hin, halike, -⟩ := hresolved.inOrder h
    obtain ⟨hsafe, hsettled⟩ := hsafe
    exact .of_alike halike (hin.serve step (halike.safe hsafe) fun hcall =>
      halike.settled (hsettled hcall))
  | killed hresolved step _ =>
    obtain ⟨hin, halike, -⟩ := hresolved.inOrder h
    obtain ⟨hsafe, hsettled⟩ := hsafe
    exact .of_alike halike (hin.serve step (halike.safe hsafe) fun hcall =>
      halike.settled (hsettled hcall))
  | resume step =>
    cases step with
    | back step => exact h.goOn step
    | passedOn step => exact h.goOn step
  | store step =>
    cases step with
    | store step =>
      cases step with
      | store _ =>
        exact ⟨h.frame (.of_eq rfl rfl rfl rfl rfl rfl) (.of_eq rfl rfl rfl rfl rfl rfl), [], .nil⟩

/-! ### Runs -/

variable {ok : Machine → Action → Prop} {actions : List Action}

/-- The run lemma. -/
theorem SystemRun.leads (hrun : SystemRun sys ok m actions m') (h : m.core.InOrder)
    (hsafe : ∀ m act, ok m act → m.Safe act) : m.core.Leads m'.core :=
  Steps.simulate (U := Trans) (f := fun m : Machine => m.core.kernel.store.mute)
    (I := fun m => m.core.InOrder)
    (fun m act _ hm hstep => hstep.2.leads hm (hsafe m act hstep.1)) hrun h

/-! ### The first state -/

variable {boot : BootInfo}

theorem Quiet.rep (h : Quiet k) (e : EndpointPtr) (side : QueueSide) :
    Queue.Rep k.waitingLinks ((k.endpoints e).queue side) [] := by
  rw [h.queues e]
  cases side <;> exact .empty

theorem Quiet.grounded {G : EndpointPtr → Prop} (h : Quiet k)
    (hcur : (k.tasks k.currentTask).state ≠ .unused) : ∃ A, Shows k A ∧ A.Grounded G := by
  obtain ⟨A, hA, hI, -⟩ := h.disciplined (N := debugAllows)
  refine ⟨A, hA, fun t _ => ?_, ?_, ?_, fun e side hne => ?_⟩
  · rw [← hA.callerTask]
    exact (h.unbound t).1
  · rw [← hA.state, ← hA.current]
    exact hcur
  · rw [hI.idle.2]
    decide
  · exact absurd ((hA.waiting e side).unique (h.rep e side)) hne

theorem BootInfo.mem_caps_task {cap : TaskCap} (h : .task cap ∈ boot.caps) :
    cap.task = boot.rootTask := by
  have heq : .task cap = makeTaskCap boot.rootTask := by
    simpa [caps, tableCaps, makeCapSpaceCap, RootMapping.caps, rootPageCaps, rootPageCap,
      MemoryRegion.cap] using h
  exact congrArg TaskCap.task (Capability.task.inj heq)

/-- The state that `setup` leaves is in order. -/
theorem setup_inOrder (hwf : boot.WellFormed)
    (hsetup : setup boot (.debug cfg) .powerOn = .ok () k) : (⟨k, .user⟩ : Core).InOrder := by
  have hbooted : Booted boot k := wp_ok (wp_setup hwf) hsetup
  have hstarted := setup_quiet hwf.idle_ne hsetup
  refine ⟨hbooted.kernelInv hwf, hstarted.quiet.disciplined, hstarted.quiet.grounded ?_, ?_⟩
  · rw [hstarted.current, hstarted.state, taskState_root hwf.idle_ne]
    decide
  · intro s cap hs
    have hin : k.cap s ∈ boot.caps := hbooted.mem_caps (by simp [hs])
    rw [hs] at hin
    rw [BootInfo.mem_caps_task hin, hstarted.idle]
    exact hwf.idle_ne.symm

/-- A run of the whole system, from where `start` lets the root task run, in which every action
meets the condition `ok`. -/
structure SystemReaches (sys : SystemConfig) (boot : BootInfo) (ok : Machine → Action → Prop)
    (m : Machine) : Prop where
  wellFormed : boot.WellFormed
  run : ∃ k₀ values frames actions, setup boot (.debug sys.config) .powerOn = .ok () k₀ ∧
    SystemRun sys ok (startMachine sys.lib boot values frames k₀) actions m

theorem SystemReaches.append (h : SystemReaches sys boot ok m)
    (hrun : SystemRun sys ok m actions m') : SystemReaches sys boot ok m' := by
  obtain ⟨k₀, values, frames, before, hsetup, hbefore⟩ := h.run
  exact ⟨h.wellFormed, k₀, values, frames, before ++ actions, hsetup, hbefore.append hrun⟩

/-- Where a run has come from, and what it did. -/
theorem SystemReaches.leads (h : SystemReaches sys boot ok m)
    (hsafe : ∀ m act, ok m act → m.Safe act) :
    ∃ k₀, Booted boot k₀ ∧ (⟨k₀, .user⟩ : Core).InOrder ∧ (⟨k₀, .user⟩ : Core).Leads m.core := by
  obtain ⟨k₀, values, frames, actions, hsetup, hrun⟩ := h.run
  have hin := setup_inOrder h.wellFormed hsetup
  exact ⟨k₀, wp_ok (wp_setup h.wellFormed) hsetup, hin, hrun.leads hin hsafe⟩

/-! ### Runs, computed -/

/-- The part of `Machine.Safe` that is computed. -/
def Machine.safeCall (m : Machine) : Action → Bool
  | .syscall _ (.op op) _ =>
    match op with
    | .suspend t => (m.core.kernel.tasks t).state ≠ .waiting
    | .resume t => t ≠ m.core.kernel.currentTask
    | .cancel _ | .kill _ _ => false
    | _ => true
  | .syscall _ (.call call) answer =>
    match call with
    | .revokeCap _ | .destroyCap _ => false
    | _ => decide (Caprese.Safe m.core.kernel (⟨m.core.kernel.currentTask, call⟩, answer))
  | _ => true

theorem Machine.safe_of_safeCall (h : m.safeCall act = true) : m.Safe act := by
  cases act with
  | syscall regs request answer =>
    cases request with
    | op op =>
      cases op with
      | suspend t =>
        have hstate : (m.core.kernel.tasks t).state ≠ .waiting := of_decide_eq_true h
        exact hstate
      | resume t =>
        have hother : t ≠ m.core.kernel.currentTask := of_decide_eq_true h
        exact hother
      | cancel e => exact absurd h Bool.false_ne_true
      | kill t i => exact absurd h Bool.false_ne_true
      | _ => trivial
    | call call =>
      cases call with
      | revokeCap slot => exact absurd h Bool.false_ne_true
      | destroyCap slot => exact absurd h Bool.false_ne_true
      | _ => exact ⟨of_decide_eq_true h, False.elim⟩
    | _ => trivial
  | _ => trivial

/-- What a system call asked for. -/
def Action.request : Action → Option Request
  | .syscall _ request _ => some request
  | _ => none

/-- What the current task does: it traps with the registers, or goes on if it was switched in. -/
def Machine.react (sys : SystemConfig) (m : Machine) : Option Frame → Option (Action × Machine)
  | some regs => m.trap sys regs
  | none => (m.next sys.lib (.debug sys.config) .resume).map fun m' => (.resume, m')

theorem systemStep_of_react {input : Option Frame} (h : m.react sys input = some (act, m')) :
    SystemStep sys m act m' := by
  cases input with
  | some regs => exact systemStep_of_trap h
  | none =>
    obtain ⟨m₁, hnext, heq⟩ := Option.map_eq_some_iff.mp h
    obtain ⟨rfl, rfl⟩ := Prod.mk.inj heq
    exact .resume (machineStep_of_next hnext)

/-- The machine behind a list of safe steps. -/
def systemSteps (sys : SystemConfig) : List (Option Frame) → Machine → Option Machine
  | [], m => some m
  | input :: inputs, m =>
    match m.react sys input with
    | some (act, m') => if m.safeCall act then systemSteps sys inputs m' else none
    | none => none

theorem systemRun_of_steps {inputs : List (Option Frame)} {m : Machine}
    (h : systemSteps sys inputs m = some m') :
    ∃ actions, SystemRun sys Machine.Safe m actions m' := by
  induction inputs generalizing m with
  | nil =>
    obtain rfl := Option.some.inj h
    exact ⟨[], .nil⟩
  | cons input inputs ih =>
    unfold systemSteps at h
    split at h
    · rename_i act m₁ hreact
      split at h
      · rename_i hsafe
        obtain ⟨actions, hrun⟩ := ih h
        exact ⟨[act] ++ actions, Steps.append
          (.single ⟨Machine.safe_of_safeCall hsafe, systemStep_of_react hreact⟩) hrun⟩
      · exact absurd h (by simp)
    · exact absurd h (by simp)

/-! ### A small system -/

/-- A table with six system calls in its first namespace. -/
def sampleAbi : Abi where
  syscall _ index :=
    [.systemYield, .memCapCreateObject, .capCopy, .endpointCapReceive, .taskCapTid,
      .pageTableCapMapPage][index]?
  capType code := [.null, .mem, .task, .endpoint, .pageTable, .virtPage, .capSpace, .id][code]?.getD
    .unknown
  capTypeCode _ := 0
  coreId := 0
  mmuMode := 0
  userSpaceBase := 0
  userSpaceSize := 0

def sampleSystem : SystemConfig := ⟨sampleConfig, ⟨ARCH_REG_SEPC, fun _ => 1, 0⟩, sampleAbi⟩

/-- The registers of a task that makes the system call `index`. -/
def callRegs (index : Nat) (args : List UInt64) : Frame := fun reg =>
  if reg = ARCH_REG_A7 then UInt64.ofNat index
  else if ARCH_REG_A0 ≤ reg then args.getD (reg - ARCH_REG_A0) 0
  else 0

/-- The machine that `setup` and a list of safe steps lead to. -/
def bootSteps (inputs : List (Option Frame)) : Option Machine :=
  match setup sampleBoot (.debug sampleSystem.config) .powerOn with
  | .ok _ k => systemSteps sampleSystem inputs
    (startMachine sampleSystem.lib sampleBoot [] (fun _ _ => 0) k)
  | .stop _ _ => none

/-- What is computed is a run from where `start` lets the root task run. -/
theorem sampleSystem_runs (inputs : List (Option Frame)) {P : Machine → Prop} [DecidablePred P]
    (h : (bootSteps inputs).any (fun m => decide (P m)) = true) :
    ∃ m actions m', SystemReaches sampleSystem sampleBoot Machine.Safe m ∧
      SystemRun sampleSystem Machine.Safe m actions m' ∧ P m' := by
  rw [Option.any_eq_true] at h
  obtain ⟨m', hm, hP⟩ := h
  unfold bootSteps at hm
  split at hm
  · rename_i k hsetup
    obtain ⟨actions, hrun⟩ := systemRun_of_steps hm
    exact ⟨_, actions, m', ⟨sampleBoot_wellFormed, k, [], _, [], hsetup, .nil⟩, hrun,
      of_decide_eq_true hP⟩
  · exact absurd hm (by simp)

theorem sampleSystem_reaches (inputs : List (Option Frame)) {P : Machine → Prop} [DecidablePred P]
    (h : (bootSteps inputs).any (fun m => decide (P m)) = true) :
    ∃ m, SystemReaches sampleSystem sampleBoot Machine.Safe m ∧ P m := by
  obtain ⟨m, actions, m', hreach, hrun, hP⟩ := sampleSystem_runs inputs h
  exact ⟨m', hreach.append hrun, hP⟩

/-- The same with one more step. -/
theorem sampleSystem_step (inputs : List (Option Frame)) (input : Option Frame)
    {P : Machine → Action → Machine → Prop} [∀ m act m', Decidable (P m act m')]
    (h : (bootSteps inputs).any (fun m => (m.react sampleSystem input).any fun next =>
      decide (P m next.1 next.2)) = true) :
    ∃ m act m', SystemReaches sampleSystem sampleBoot Machine.Safe m ∧
      SystemStep sampleSystem m act m' ∧ P m act m' := by
  rw [Option.any_eq_true] at h
  obtain ⟨m, hm, hnext⟩ := h
  rw [Option.any_eq_true] at hnext
  obtain ⟨⟨act, m'⟩, hreact, hP⟩ := hnext
  unfold bootSteps at hm
  split at hm
  · rename_i k hsetup
    obtain ⟨actions, hrun⟩ := systemRun_of_steps hm
    exact ⟨m, act, m', ⟨sampleBoot_wellFormed, k, _, _, actions, hsetup, hrun⟩,
      systemStep_of_react hreact, of_decide_eq_true hP⟩
  · exact absurd hm (by simp)

end Caprese

import Caprese.Proofs.Fairness
import Caprese.Proofs.Registers
import Caprese.Sched.Touch

/-!
# `Caprese.Proofs.Integrity`: what others can do to a task

A system call changes another task only if its own task has a capability that reaches it
(`Kernel.Exposed`): to the task itself, to an endpoint where it waits, or to a task whose death it
is concerned by; or if it owes that task an answer. Else the task stays as it is, its record as well
as its registers, over any run (`run_integrity`).
-/

set_option autoImplicit false

namespace Caprese

open Lib Prog

variable {sys : SystemConfig} {boot : BootInfo} {k k' : Kernel} {m m' : Machine} {A : Desk}
  {act : Action} {actions : List Action} {t : TaskPtr} {op : Op} {e : EndpointPtr}
  {side : QueueSide}

/-- The task waits in a queue of an endpoint. -/
def Kernel.StandsAt (k : Kernel) (e : EndpointPtr) (side : QueueSide) (t : TaskPtr) : Prop :=
  ∃ l, k.WaitingIs e side l ∧ t ∈ l

/-- The current task can reach `t`. -/
inductive Kernel.Exposed (k : Kernel) (t : TaskPtr) : Prop
  | named {right : TaskCap → Bool} (has : k.HasTask k.currentTask right t)
  | waits {e : EndpointPtr} {side : QueueSide} (has : k.HasEndpoint k.currentTask e)
      (waits : k.StandsAt e side t)
  /-- The current task has received the call of `t`. -/
  | caller (caller : (k.tasks k.currentTask).callerTask = some t)
  /-- The current task can kill a task that has called `t`. -/
  | callee {u : TaskPtr} (has : k.HasTask k.currentTask (·.killable) u)
      (callee : (k.tasks u).calleeTask = some t)
  /-- The current task can kill a task, and `t` waits to be told. -/
  | told {u : TaskPtr} {e : EndpointPtr} (has : k.HasTask k.currentTask (·.killable) u)
      (notify : (k.tasks u).killNotify = some e) (waits : k.StandsAt e .receiver t)

/-- Whether the action takes capabilities away. -/
def Action.Removes : Action → Prop
  | .syscall _ (.call call) _ => call.Removes
  | _ => False

/-- An action that is not made by `t`, nor by a task that can reach it. A task that takes away
capabilities may kill tasks with them, and the idle task gives `t` the processor if it is the first
that is ready. -/
def Machine.Spares (m : Machine) (t : TaskPtr) : Action → Prop
  | .store _ => True
  | .resume => m.current ≠ t ∧
    (m.current = m.core.kernel.idleTask → m.core.kernel.readyQueue.head ≠ some t)
  | .syscall regs request answer => m.current ≠ t ∧ ¬ m.core.kernel.Exposed t ∧
    ¬ (Action.syscall regs request answer).Removes

/-- The task is as it was, but for the links of queues, the free slots and their counts. -/
structure Machine.Same (m m' : Machine) (t : TaskPtr) : Prop where
  view : (m'.core.kernel.tasks t).view = (m.core.kernel.tasks t).view
  frame : m'.frames t = m.frames t

/-! ### Who is exposed -/

/-- An operation reaches tasks by the capabilities that it rests on. -/
theorem Kernel.GrantsOp.exposed (h : k.GrantsOp k.currentTask op) (hA : Shows k A)
    (htouches : A.Touches t op) : k.Exposed t := by
  have hfirst : ∀ {e side}, k.HasEndpoint k.currentTask e → A.First e side t → k.Exposed t :=
    fun has hfirst => .waits has ⟨_, hA.waiting _ _, List.mem_of_mem_head? hfirst⟩
  have hcaller : (A.tasks A.current).callerTask = some t → k.Exposed t := fun hc => by
    refine .caller ?_
    rw [hA.callerTask, hA.current]
    exact hc
  cases op with
  | sendShort b e args => exact hfirst h htouches
  | sendLong b e msg => exact hfirst h htouches
  | receive b e msg => exact htouches.elim (hfirst h) hcaller
  | call e msg => exact hfirst h htouches
  | reply e msg => exact hcaller htouches
  | replyAndReceive e msg => exact htouches.elim (hfirst h) hcaller
  | cancel e => exact h.elim
  | yield => exact htouches.elim
  | switchTo u => exact htouches ▸ .named h
  | suspend u => exact htouches ▸ .named h
  | resume u => exact htouches ▸ .named h
  | kill u i =>
    rcases htouches with rfl | hcallee | ⟨e, hnotify, hwaits⟩
    · exact .named h
    · exact .callee h (by rw [hA.calleeTask]; exact hcallee)
    · exact .told h (by rw [hA.killNotify]; exact hnotify) ⟨_, hA.waiting e .receiver, hwaits⟩
  | setKillNotify u e => exact htouches ▸ .named h.1

/-! ### Steps -/

theorem Task.view_state (task : Task) : task.view.state = task.state := rfl

theorem Shows.view_eq {B : Desk} (hA : Shows k A) (hB : Shows k' B) (h : B.tasks t = A.tasks t) :
    (k'.tasks t).view = (k.tasks t).view := by
  rw [hA.tasks, hB.tasks, h]

theorem SchedFrame.view_eq (h : SchedFrame k k') : (k'.tasks t).view = (k.tasks t).view := by
  unfold Task.view
  rw [h.tasks t]

/-- The stores of a trap to the frame of the current task. -/
theorem Machine.entered_of_ne (regs : Frame) (h : m.current ≠ t) : m.entered regs t = m.frames t :=
  upd_ne _ _ h.symm

theorem Machine.same_back {lib : TrapConfig} {regs : Frame} {sysret : Sysret}
    (hcurrent : m.current ≠ t) (hview : (k.tasks t).view = (m.core.kernel.tasks t).view) :
    m.Same (m.back lib regs sysret k) t :=
  ⟨hview, (upd_ne _ _ hcurrent.symm).trans (Machine.entered_of_ne regs hcurrent)⟩

/-- The frame of a task that is in use is not set up again. -/
theorem Machine.started_of_used (k : Kernel) (hused : (m.core.kernel.tasks t).state ≠ .unused) :
    (m.started k).frames t = m.frames t := if_neg fun hnew => hused hnew.1

theorem Machine.same_started (hused : (m.core.kernel.tasks t).state ≠ .unused)
    (h : (m.started k).Same m' t) : m.Same m' t :=
  ⟨h.view, h.frame.trans (Machine.started_of_used k hused)⟩

/-- A call on capabilities that takes none away leaves the tasks that are in use as they are. -/
theorem Core.InOrder.call_spares {cfg : Config} {call : Call} {answer : Option Answer}
    (h : (⟨k, .user⟩ : Core).InOrder) (hstep : Step cfg k ⟨k.currentTask, call⟩ answer k')
    (hsafe : Safe k (⟨k.currentTask, call⟩, answer)) (hcall : ¬ call.Removes)
    (hused : (k.tasks t).state ≠ .unused) : (k'.tasks t).view = (k.tasks t).view := by
  obtain ⟨acts, hmakes, -⟩ := hstep.serves h.kernel.links h.kernel.store hsafe
  have hreturns : answer ≠ none := by
    rintro rfl
    exact hcall hmakes.1
  cases call with
  | createObject slot type args =>
    obtain ⟨-, A, hA, A', hA', -, -, -, hgrows⟩ := h.creates hstep rfl hsafe.1
    refine hA.view_eq hA' (hgrows.tasks t ?_)
    rw [← hA.state]
    exact hused
  | revokeCap => exact absurd trivial hcall
  | destroyCap => exact absurd trivial hcall
  | _ => exact (hstep.schedFrame trivial hreturns).view_eq

/-- An operation of a task that cannot reach `t`. -/
theorem Core.InOrder.op_spares {cfg : Config} {c' : Core} {answer : Option Bool}
    (h : (⟨k, .user⟩ : Core).InOrder) (hgrants : k.GrantsOp k.currentTask op)
    (hsafe : k.Orderly (.invoke op))
    (hstep : CoreStep (.debug cfg) ⟨k, .user⟩ (.invoke op, answer) c')
    (hcurrent : k.currentTask ≠ t) (hexposed : ¬ k.Exposed t) :
    (c'.kernel.tasks t).view = (k.tasks t).view ∧
      (answer ≠ none → c'.kernel.currentTask = k.currentTask) := by
  obtain ⟨A, A', hA, -, -, hA', heffect, -⟩ :=
    h.discipline.invoke Kernel.Orderly.admits_debug hsafe hstep
  have hne : t ≠ A.current := by
    rw [← hA.current]
    exact hcurrent.symm
  refine ⟨hA.view_eq hA' (heffect.spares hne fun htouches => ?_), fun hanswer => ?_⟩
  · exact hexposed (hgrants.exposed hA htouches)
  · obtain ⟨b, rfl⟩ := Option.ne_none_iff_exists'.mp hanswer
    rw [hA'.current, heffect.current]
    exact hA.current.symm

theorem Kernel.Alike.grantsOp (h : k.Alike k') (hgrants : k.GrantsOp k.currentTask op) :
    k'.GrantsOp k'.currentTask op := by
  obtain ⟨error, rfl⟩ := h
  cases op <;> exact hgrants

theorem Kernel.Alike.exposed (h : k.Alike k') (hexposed : ¬ k.Exposed t) : ¬ k'.Exposed t := by
  obtain ⟨error, rfl⟩ := h
  rintro (⟨has⟩ | ⟨has, hwaits⟩ | ⟨hc⟩ | ⟨has, hcallee⟩ | ⟨has, hnotify, hwaits⟩)
  · exact hexposed (.named has)
  · exact hexposed (.waits has hwaits)
  · exact hexposed (.caller hc)
  · exact hexposed (.callee has hcallee)
  · exact hexposed (.told has hnotify hwaits)

/-- The step lemma. -/
theorem SystemStep.spares (hstep : SystemStep sys m act m') (h : m.core.InOrder)
    (hsafe : m.Safe act) (hspares : m.Spares t act)
    (hused : (m.core.kernel.tasks t).state ≠ .unused) : m.Same m' t := by
  cases hstep with
  | answered hresolved _ =>
    obtain ⟨-, halike, -⟩ := hresolved.inOrder h
    exact Machine.same_back hspares.1 (by rw [halike.tasks])
  | @op regs op k m' hresolved step =>
    obtain ⟨hin, halike, hgrants⟩ := hresolved.inOrder h
    obtain ⟨hcurrent, hexposed, -⟩ := hspares
    have hcore : (m.withKernel k).core = ⟨k, .user⟩ := Machine.withKernel_core hresolved.1 k
    have hgrants' : k.GrantsOp k.currentTask op := halike.grantsOp hgrants
    have hcurrent' : k.currentTask ≠ t := by rwa [halike.current]
    have hspares : ∀ {answer c'}, CoreStep (.debug sys.config) (m.withKernel k).core
        (.invoke op, answer) c' → (c'.kernel.tasks t).view = (m.core.kernel.tasks t).view ∧
        (answer ≠ none → c'.kernel.currentTask = k.currentTask) := by
      intro answer c' hc
      rw [hcore] at hc
      obtain ⟨hview, hreturns⟩ := hin.op_spares hgrants' (halike.orderly hsafe) hc hcurrent'
        (halike.exposed hexposed)
      exact ⟨hview.trans (by rw [halike.tasks]), hreturns⟩
    cases step with
    | @returned _ _ b core hc =>
      obtain ⟨hview, hreturns⟩ := hspares hc
      have hne : t ≠ core.kernel.currentTask := by
        rw [hreturns (by simp)]
        exact hcurrent'.symm
      exact ⟨hview, (upd_ne _ _ hne).trans (upd_ne _ _ hcurrent'.symm)⟩
    | left hc => exact ⟨(hspares hc).1, upd_ne _ _ hcurrent'.symm⟩
  | @setReg regs task reg value k sysret m' hresolved step =>
    obtain ⟨-, halike, hgrants⟩ := hresolved.inOrder h
    obtain ⟨hcurrent, hexposed, -⟩ := hspares
    have htask : t ≠ task := by
      rintro rfl
      exact hexposed (.named hgrants.1)
    have hcurrent' : t ≠ k.currentTask := by
      rw [halike.current]
      exact hcurrent.symm
    cases step with
    | @setReg _ _ _ _ frames _ _ _ hrun =>
      refine ⟨congrArg (fun tasks => (tasks t).view) halike.tasks, ?_⟩
      have hframes : frames t = m.frames t := by
        funext r
        rw [invokeSetReg_frame hrun, if_neg fun hok => htask hok.1.symm]
        exact congrFun (upd_ne _ _ hcurrent') r
      exact (upd_ne _ _ hcurrent').trans hframes
  | call hresolved step =>
    obtain ⟨hin, halike, -⟩ := hresolved.inOrder h
    obtain ⟨hcurrent, -, hremoves⟩ := hspares
    refine Machine.same_started hused (Machine.same_back hcurrent ((hin.call_spares step
      (halike.safe hsafe.1) hremoves ?_).trans ?_))
    · rwa [halike.tasks]
    · exact congrArg (fun tasks => (tasks t).view) halike.tasks
  | killed hresolved step _ =>
    obtain ⟨hin, halike, -⟩ := hresolved.inOrder h
    obtain ⟨acts, hmakes, -⟩ := step.serves hin.kernel.links hin.kernel.store (halike.safe hsafe.1)
    exact absurd hmakes.1 hspares.2.2
  | resume step =>
    obtain ⟨hcurrent, hdispatch⟩ := hspares
    have hspares : ∀ {answer c'}, CoreStep (.debug sys.config) m.core (.resume, answer) c' →
        (c'.kernel.tasks t).view = (m.core.kernel.tasks t).view ∧
        (answer ≠ none → c'.kernel.currentTask = m.current) := by
      intro answer c' hc
      obtain ⟨A, A', hA, -, -, hA', heffect, -⟩ := h.discipline.goOn hc
      have hne : t ≠ A.current := by
        rw [← hA.current]
        exact hcurrent.symm
      refine ⟨hA.view_eq hA' (heffect.spares hne fun hidle hfirst => ?_), fun hanswer => ?_⟩
      · refine hdispatch ?_ ?_
        · rw [hA.idle, ← hidle]
          exact hA.current
        · rw [hA.ready.head]
          exact hfirst
      · obtain ⟨b, rfl⟩ := Option.ne_none_iff_exists'.mp hanswer
        have hsame : A'.current = A.current := by
          cases heffect <;> rfl
        rw [hA'.current, hsame]
        exact hA.current.symm
    cases step with
    | @back b core hc =>
      obtain ⟨hview, hreturns⟩ := hspares hc
      have hne : t ≠ core.kernel.currentTask := by
        rw [hreturns (by simp)]
        exact hcurrent.symm
      exact ⟨hview, upd_ne _ _ hne⟩
    | passedOn hc => exact ⟨(hspares hc).1, rfl⟩
  | store step =>
    cases step with
    | store step =>
      cases step with
      | store _ => exact ⟨rfl, rfl⟩

/-- At boot nobody can reach the idle task. -/
theorem idle_unexposed {cfg : Config} (hwf : boot.WellFormed)
    (hsetup : setup boot (.debug cfg) .powerOn = .ok () k) : ¬ k.Exposed k.idleTask := by
  have hin := setup_inOrder hwf hsetup
  have hquiet := (setup_quiet hwf.idle_ne hsetup).quiet
  have hwaits : ∀ e side, ¬ k.StandsAt e side k.idleTask := by
    rintro e side ⟨l, hl, hmem⟩
    rw [hl.unique (hquiet.rep e side)] at hmem
    exact absurd hmem (by simp)
  rintro (⟨s, cap, -, hs, hcap, -⟩ | ⟨-, hw⟩ | ⟨hc⟩ | ⟨-, hcallee⟩ | ⟨-, -, hw⟩)
  · exact hin.noIdle s cap hs hcap
  · exact hwaits _ _ hw
  · rw [(hquiet.unbound _).1] at hc
    exact absurd hc (by simp)
  · rw [(hquiet.unbound _).2] at hcallee
    exact absurd hcallee (by simp)
  · exact hwaits _ _ hw

end Caprese

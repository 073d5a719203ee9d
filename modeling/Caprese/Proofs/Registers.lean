import Caprese.Kernel.Boot
import Caprese.Kernel.Frame
import Caprese.Sched.Frame

/-!
# `Caprese.Proofs.Registers`: registers set while a task is suspended

A task that has not run yet starts with the registers that it was given. One that was suspended in
the middle of a system call passes the end of `_user_trap` first, and that stores the result of the
call over two registers and moves the program counter on (`set_reg_kept_iff`).
-/

set_option autoImplicit false

namespace Caprese

open Lib Prog

variable {lib : TrapConfig} {env : Env} {m m' m₁ m₂ : Machine} {t : TaskPtr} {r : Nat}
  {deeds : List Deed}

/-! ### The registers that a task is given -/

/-- The value that a step gives to the register `r` of `t`. -/
def Deed.gives (t : TaskPtr) (r : Nat) : Deed → Option UInt64
  | .setReg task reg value _ sysret =>
    if task = t ∧ reg = r ∧ sysret.error = .sOk then some value else none
  | _ => none

/-- The value that a run gave to the register `r` of `t` last. -/
def lastGiven (t : TaskPtr) (r : Nat) (deeds : List Deed) : Option UInt64 :=
  (deeds.filterMap (Deed.gives t r)).getLast?

theorem lastGiven_snoc (deed : Deed) : lastGiven t r (deeds ++ [deed]) =
    match deed.gives t r with
    | some v => some v
    | none => lastGiven t r deeds := by
  unfold lastGiven
  rw [List.filterMap_append]
  cases h : deed.gives t r with
  | none => rw [List.filterMap_cons_none h, List.filterMap_nil, List.append_nil]
  | some v => rw [List.filterMap_cons_some h, List.filterMap_nil, List.getLast?_concat]

/-- A run in which `t` is not in user mode. -/
abbrev AwayRun (lib : TrapConfig) (env : Env) (t : TaskPtr) : Machine → List Deed → Machine → Prop :=
  Steps fun m deed m' => MachineStep lib env m deed m' ∧ ¬ m.InUserMode t ∧ ¬ m'.InUserMode t

/-- What `set_register` did, if the call succeeded. -/
theorem invokeSetReg_frame {k : Kernel} {frames frames' : TaskPtr → Frame} {task : TaskPtr}
    {reg : Nat} {value : UInt64} {sysret : Sysret}
    (h : invokeSetReg lib k frames task reg value = (frames', sysret)) :
    frames' t r = if task = t ∧ reg = r ∧ sysret.error = .sOk then value else frames t r := by
  unfold invokeSetReg setRegister at h
  split at h
  · obtain ⟨rfl, rfl⟩ := Prod.mk.inj h
    exact (if_neg fun hok => absurd hok.2.2 (by decide)).symm
  · split at h
    · obtain ⟨rfl, rfl⟩ := Prod.mk.inj h
      exact (if_neg fun hok => absurd hok.2.2 (by decide)).symm
    · obtain ⟨rfl, rfl⟩ := Prod.mk.inj h
      by_cases htask : task = t
      · subst htask
        rw [upd_same, upd_apply]
        by_cases hr : r = reg
        · rw [if_pos hr, if_pos ⟨rfl, hr.symm, rfl⟩]
        · rw [if_neg hr, if_neg fun hok => hr hok.2.1.symm]
      · rw [upd_ne _ _ (Ne.symm htask), if_neg fun hok => htask hok.1]

/-- The step lemma: while `t` is not in user mode, a step stores to its frame what it gives. -/
theorem MachineStep.frame {deed : Deed} (h : MachineStep lib env m deed m')
    (haway : ¬ m.InUserMode t) (haway' : ¬ m'.InUserMode t) :
    m'.frames t r = match deed.gives t r with
      | some v => v
      | none => m.frames t r := by
  have hentered : m.core.mode = .user → ∀ regs, m.entered regs t = m.frames t := by
    intro huser regs
    exact upd_ne _ _ fun heq => haway ⟨huser, heq.symm⟩
  cases h with
  | @returned op regs answer core hstep =>
    -- The call came from user mode and goes back to it, so the task it runs on is not `t`.
    have huser : m.core.mode = .user ∧ core.mode = .user := by
      cases hstep with
      | invoke huser _ hrun =>
        refine ⟨huser, ?_⟩
        cases hserve : op.serve env m.core.kernel with
        | ok b k =>
          rw [hserve] at hrun
          obtain ⟨-, rfl⟩ := Prod.mk.inj (Option.some.inj hrun)
          rfl
        | stop e k =>
          rw [hserve] at hrun
          cases e <;> exact nomatch hrun
    have hne : t ≠ core.kernel.currentTask := fun heq => haway' ⟨huser.2, heq.symm⟩
    show (upd _ _ _ : TaskPtr → Frame) t r = m.frames t r
    rw [upd_ne _ _ hne, hentered huser.1]
  | @left op regs core hstep =>
    have huser : m.core.mode = .user := by
      cases hstep with
      | invoke huser _ _ => exact huser
    exact congrFun (hentered huser regs) r
  | @setReg task reg value regs frames sysret huser _ hrun =>
    have hne : t ≠ m.current := fun heq => haway ⟨huser, heq.symm⟩
    show (upd _ _ _ : TaskPtr → Frame) t r = _
    -- The caller is not `t`, so what is stored in its frame is not seen.
    rw [upd_ne _ _ hne, invokeSetReg_frame hrun, hentered huser, Deed.gives]
    split
    · rfl
    · rfl
  | @back answer core hstep =>
    have huser : core.mode = .user := by
      cases hstep with
      | resume _ hrun =>
        cases hgo : m.core.kernel.goOn env m.core.kernel with
        | ok b k =>
          rw [hgo] at hrun
          obtain ⟨-, rfl⟩ := Prod.mk.inj (Option.some.inj hrun)
          rfl
        | stop e k =>
          rw [hgo] at hrun
          cases e <;> exact nomatch hrun
    have hne : t ≠ core.kernel.currentTask := fun heq => haway' ⟨huser, heq.symm⟩
    show (upd _ _ _ : TaskPtr → Frame) t r = m.frames t r
    rw [upd_ne _ _ hne]
  | passedOn _ => rfl
  | store _ => rfl

/-- The run lemma: until `t` is back in user mode, its registers hold what they were given last. -/
theorem AwayRun.given (h : AwayRun lib env t m deeds m₁) {v : UInt64}
    (hgiven : lastGiven t r deeds = some v) : m₁.frames t r = v := by
  induction h with
  | nil => exact nomatch hgiven
  | @snoc deeds deed m₁ m₂ _ hstep ih =>
    obtain ⟨hstep, haway, haway'⟩ := hstep
    rw [lastGiven_snoc] at hgiven
    rw [hstep.frame haway haway']
    cases hgives : deed.gives t r with
    | some w =>
      rw [hgives] at hgiven
      exact Option.some.inj hgiven
    | none =>
      rw [hgives] at hgiven
      exact ih hgiven

theorem invokeSetReg_le {k : Kernel} {frames frames' : TaskPtr → Frame} {task : TaskPtr}
    {reg : Nat} {value : UInt64} {sysret : Sysret}
    (h : invokeSetReg lib k frames task reg value = (frames', sysret)) (hok : sysret.error = .sOk) :
    reg ≤ lib.lastRegister := by
  unfold invokeSetReg at h
  split at h
  · obtain ⟨-, rfl⟩ := Prod.mk.inj h
    exact absurd hok (by decide)
  · split at h
    · obtain ⟨-, rfl⟩ := Prod.mk.inj h
      exact absurd hok (by decide)
    · rename_i hreg
      exact not_lt.mp hreg

/-- Only registers of the user are given. -/
theorem AwayRun.given_le (h : AwayRun lib env t m deeds m₁) {v : UInt64}
    (hgiven : lastGiven t r deeds = some v) : r ≤ lib.lastRegister := by
  induction h with
  | nil => exact nomatch hgiven
  | @snoc deeds deed m₁ m₂ _ hstep ih =>
    rw [lastGiven_snoc] at hgiven
    cases hgives : deed.gives t r with
    | none =>
      rw [hgives] at hgiven
      exact ih hgiven
    | some w =>
      cases hstep.1 with
      | setReg _ _ hrun =>
        rw [Deed.gives] at hgives
        split at hgives
        · rename_i hok
          exact hok.2.1 ▸ invokeSetReg_le hrun hok.2.2
        · exact nomatch hgives
      | _ => exact nomatch hgives

/-! ### The way back -/

theorem keeps_ipcSendTail : Keeps SchedFrame ipcSendTail := by
  unfold ipcSendTail
  refine keeps_bind keeps_get fun _ => keeps_bind keeps_get fun _ => keeps_bind (keeps_kassert _) ?_
  refine fun _ => keeps_bind (keeps_kassert _) fun _ => keeps_bind (keeps_kassert _) fun _ => ?_
  exact keeps_ite (keeps_bind (SchedFrame.keeps_setErrno _) fun _ => keeps_pure _) (keeps_pure _)

theorem keeps_ipcReceiveTail : Keeps SchedFrame ipcReceiveTail := by
  unfold ipcReceiveTail
  refine keeps_bind keeps_get fun _ => keeps_bind keeps_get fun _ => keeps_bind (keeps_kassert _) ?_
  refine fun _ => keeps_bind (keeps_kassert _) fun _ => ?_
  exact keeps_ite (keeps_bind (SchedFrame.keeps_setErrno _) fun _ => keeps_pure _) (keeps_pure _)

theorem keeps_switchTaskTail : Keeps SchedFrame switchTaskTail := by
  unfold switchTaskTail
  exact keeps_bind keeps_get fun _ => keeps_bind keeps_get fun _ => keeps_kassert _

/-- A task that goes on up to an answer keeps the processor. -/
theorem goOn_current (resume : Resume) (k : Kernel) :
    wp resume.goOn env (fun _ k' => k'.currentTask = k.currentTask) (fun _ _ => True) k := by
  cases resume with
  | returnToUserMode => rfl
  | yielded => rfl
  | ipcSend => exact keeps_ipcSendTail.wp (fun _ _ h => h.currentTask) fun _ _ _ => trivial
  | ipcCall => exact keeps_ipcSendTail.wp (fun _ _ h => h.currentTask) fun _ _ _ => trivial
  | ipcReceive => exact keeps_ipcReceiveTail.wp (fun _ _ h => h.currentTask) fun _ _ _ => trivial
  | switchTask =>
    exact (keeps_bind keeps_switchTaskTail fun _ => keeps_pure true).wp
      (fun _ _ h => h.currentTask) fun _ _ _ => trivial
  | killNotify task =>
    show wp (do killTaskTail task; return true) env _ _ k
    unfold killTaskTail checkNotRoot
    simp only [wp_bind, wp_get, wp_ite, wp_stop, wp_pure, resched, switchContext, modifyTask,
      wp_modify]
    split_ifs
  | unreachable => trivial
  | idle =>
    show wp (do Caprese.idle; stop .diverged) env _ _ k
    rw [wp_bind]
    exact wp_any (fun _ _ => trivial) fun _ _ => trivial

/-- What the call that the current task was switched in from returns. -/
def Machine.pending (env : Env) (m : Machine) : Option Sysret :=
  match m.core.kernel.goOn env m.core.kernel with
  | .ok answer k => some (Resume.sysret answer k)
  | .stop _ _ => none

/-- The registers of a frame on the way back to user mode. -/
theorem back_frame {task : TaskPtr} {sysret : Sysret} {frame : Frame} {resume : Resume}
    (hr : r ≤ ARCH_REG_SEPC) : resume.back lib task sysret frame r =
      if resume = .returnToUserMode then frame r
      else if r = ARCH_REG_A0 then sysret.result
      else if r = ARCH_REG_A1 then lib.errorCode sysret.error
      else if r = ARCH_REG_SEPC then frame r + 4
      else frame r := by
  have hstack : r ≠ FRAME_STACK := fun heq => absurd (heq ▸ hr) (by decide)
  have hhart : r ≠ FRAME_HARTID := fun heq => absurd (heq ▸ hr) (by decide)
  have hreturn : ∀ f, returnToUserMode lib task f r = f r := by
    intro f
    unfold returnToUserMode
    rw [upd_ne _ _ hhart, upd_ne _ _ hstack]
  have htail : userTrapTail lib sysret frame r =
      if r = ARCH_REG_A0 then sysret.result
      else if r = ARCH_REG_A1 then lib.errorCode sysret.error
      else if r = ARCH_REG_SEPC then frame r + 4
      else frame r := by
    unfold userTrapTail
    simp only [upd_apply]
    split_ifs with h₁ h₂ h₃ <;> first | rfl | simp_all [ARCH_REG_A0, ARCH_REG_A1, ARCH_REG_SEPC]
  cases resume with
  | returnToUserMode => exact hreturn frame
  | _ => exact (hreturn _).trans htail

/-! ### The claim -/

/-- What the end of the system call leaves as it was given. -/
structure Spared (lib : TrapConfig) (sysret : Option Sysret) (t : TaskPtr) (deeds : List Deed) :
    Prop where
  sepc : lastGiven t ARCH_REG_SEPC deeds = none
  a0 : ∀ v, lastGiven t ARCH_REG_A0 deeds = some v → v = 0
  a1 : ∀ v, lastGiven t ARCH_REG_A1 deeds = some v → ∀ ret ∈ sysret, v = lib.errorCode ret.error

theorem add_four_ne (v : UInt64) : v + 4 ≠ v := by
  intro heq
  have h := congrArg UInt64.toBitVec heq
  simp at h

theorem Resume.sysret_result (answer : Bool) (k : Kernel) : (Resume.sysret answer k).result = 0 := by
  unfold Resume.sysret
  split <;> rfl

/-- How the frame of a task looks like that is back in user mode. -/
theorem MachineStep.back_frame (h : MachineStep lib env m₁ .resume m₂) (huser : m₂.core.mode = .user) :
    ∃ sysret : Sysret, m₁.pending env = some sysret ∧ sysret.result = 0 ∧
      m₂.frames m₁.current = (m₁.core.kernel.tasks m₁.current).context.back lib m₁.current sysret
        (m₁.frames m₁.current) := by
  cases h with
  | @back answer core hstep =>
    cases hstep with
    | resume _ hrun =>
      cases hgo : m₁.core.kernel.goOn env m₁.core.kernel with
      | ok b k =>
        rw [hgo] at hrun
        obtain ⟨hb, rfl⟩ := Prod.mk.inj (Option.some.inj hrun)
        obtain rfl := Option.some.inj hb
        have hcurrent : k.currentTask = m₁.current := wp_ok (goOn_current _ _) hgo
        refine ⟨Resume.sysret b k, ?_, Resume.sysret_result b k, ?_⟩
        · unfold Machine.pending
          rw [hgo]
        · show (upd _ _ _ : TaskPtr → Frame) _ = _
          rw [hcurrent, upd_same]
      | stop e k =>
        rw [hgo] at hrun
        cases e <;> exact nomatch hrun
  | @passedOn core hstep =>
    cases hstep with
    | resume _ hrun =>
      cases hgo : m₁.core.kernel.goOn env m₁.core.kernel with
      | ok b k =>
        rw [hgo] at hrun
        exact nomatch hrun
      | stop e k =>
        rw [hgo] at hrun
        cases e with
        | switched =>
          obtain ⟨-, rfl⟩ := Prod.mk.inj (Option.some.inj hrun)
          exact nomatch huser
        | _ => exact nomatch hrun

/-- A run without `t` in user mode, computed. -/
def runAway (lib : TrapConfig) (env : Env) (t : TaskPtr) : List Deed → Machine → Option Machine
  | [], m => some m
  | deed :: deeds, m =>
    match m.next lib env deed with
    | some m' =>
      if ¬ m.InUserMode t ∧ ¬ m'.InUserMode t then runAway lib env t deeds m' else none
    | none => none

theorem awayRun_of_runAway (h : runAway lib env t deeds m = some m') :
    AwayRun lib env t m deeds m' := by
  induction deeds generalizing m with
  | nil =>
    obtain rfl := Option.some.inj h
    exact .nil
  | cons deed deeds ih =>
    unfold runAway at h
    split at h
    · rename_i m₁ hnext
      split at h
      · rename_i haway
        have hstep : AwayRun lib env t m [deed] m₁ :=
          Steps.single ⟨machineStep_of_next hnext, haway.1, haway.2⟩
        exact hstep.append (ih h)
      · exact nomatch h
    · exact nomatch h

/-- The registers up to the program counter, and zero for success. -/
def sampleTrapConfig : TrapConfig := ⟨ARCH_REG_SEPC, fun e => if e = .sOk then 0 else 1, 0⟩

/-- A build in which a loop may turn once. -/
def pairConfig : Config := ⟨1, 0, 0, fun _ => ⟨0, 0, 0, 0, 0, []⟩, fun _ => [], 0, 0⟩

/-- Two tasks that have the processor in turn, `0x1000` that is ready and `0x2000` that runs, and one
that has not run yet. -/
def pairMachine : Machine where
  core := ⟨{ Kernel.powerOn with
    tasks := upd (upd (upd (upd (fun _ => Task.zero) 0x1000 { Task.zero with state := .ready })
      0x2000 { Task.zero with state := .running }) 0x3000
      { Task.zero with state := .ready, context := .idle }) 0x4000
      { Task.zero with state := .suspended }
    readyQueue := ⟨some 0x1000, some 0x1000⟩
    currentTask := 0x2000
    idleTask := 0x3000 }, .user⟩
  frames := fun _ _ => 0

/-- A task is given a program counter and an argument, and the processor. -/
def setAndSwitch (task : TaskPtr) : List Deed :=
  [.setReg task ARCH_REG_SEPC 0x400 (fun _ => 0) ⟨0, .sOk⟩,
    .setReg task ARCH_REG_A0 7 (fun _ => 0) ⟨0, .sOk⟩,
    .invoke (.resume task) fun _ => 0, .invoke (.switchTo task) fun _ => 0]

/-- What a run showed: who has the processor at its end, and the two registers behind it. -/
def shown (task : TaskPtr) (deeds : List Deed) (m : Machine) :
    Option (TaskPtr × Mode × UInt64 × UInt64) :=
  (runAway sampleTrapConfig (.debug pairConfig) task deeds m).bind fun m₁ =>
    (m₁.next sampleTrapConfig (.debug pairConfig) .resume).map fun m₂ =>
      (m₁.current, m₂.core.mode, m₂.frames task ARCH_REG_SEPC, m₂.frames task ARCH_REG_A0)

theorem run_of_shown {deeds : List Deed} {current : TaskPtr} {mode : Mode} {sepc a0 : UInt64}
    (h : shown t deeds m = some (current, mode, sepc, a0)) :
    ∃ m₁ m₂, AwayRun sampleTrapConfig (.debug pairConfig) t m deeds m₁ ∧ m₁.current = current ∧
      MachineStep sampleTrapConfig (.debug pairConfig) m₁ .resume m₂ ∧ m₂.core.mode = mode ∧
      m₂.frames t ARCH_REG_SEPC = sepc ∧ m₂.frames t ARCH_REG_A0 = a0 := by
  obtain ⟨m₁, hrun, hrest⟩ := Option.bind_eq_some_iff.mp h
  obtain ⟨m₂, hback, heq⟩ := Option.map_eq_some_iff.mp hrest
  obtain ⟨hcurrent, heq⟩ := Prod.mk.inj heq
  obtain ⟨hmode, heq⟩ := Prod.mk.inj heq
  obtain ⟨hsepc, ha0⟩ := Prod.mk.inj heq
  exact ⟨m₁, m₂, awayRun_of_runAway hrun, hcurrent, machineStep_of_next hback, hmode, hsepc, ha0⟩

end Caprese

import Caprese.Proofs.System

/-!
# `Caprese.Proofs.AddressSpaces`: the words that the kernel relies on

Behind the registers of a task its frame holds three words of the kernel: the root table that the
task runs on, its kernel stack, and the thread pointer of the kernel. `set_register` ends before
them, so no step of the system takes the root table of a task out of its frame, and a trap always
finds the kernel stack of the current task (`Machine.Anchored`, `reachable_anchored`).
-/

set_option autoImplicit false

namespace Caprese

open Lib Prog

variable {sys : SystemConfig} {boot : BootInfo} {lib : TrapConfig} {env : Env} {m m' : Machine}
  {k k' : Kernel} {c c' : Core} {act : Action} {actions : List Action} {deed : Deed} {t : TaskPtr}
  {r : Nat} {frame regs : Frame} {sysret : Sysret}

/-- What `user_trap` loads from the frame of `t`: its kernel stack and the thread pointer of the
kernel. -/
def Frame.Traps (lib : TrapConfig) (t : TaskPtr) (frame : Frame) : Prop :=
  frame FRAME_STACK = UInt64.ofNat (t + PAGE_SIZE) ∧ frame FRAME_HARTID = lib.tp

/-- Each task in use has its own root table in its frame, and the frame of the current task in user
mode is ready for a trap. -/
structure Machine.Anchored (lib : TrapConfig) (m : Machine) : Prop where
  satp : ∀ t, (m.core.kernel.tasks t).state ≠ .unused →
    m.frames t FRAME_SATP = satpWord (m.core.kernel.tasks t).rootPageTable
  trap : m.core.mode = .user → (m.frames m.current).Traps lib m.current

/-! ### Frames -/

/-- A trap stores the registers only. -/
theorem trapEntry_of_lt (h : ARCH_REG_SEPC < r) : trapEntry regs frame r = frame r :=
  if_neg (Nat.not_le.mpr h)

theorem userTrapTail_of_lt (h : ARCH_REG_SEPC < r) : userTrapTail lib sysret frame r = frame r := by
  have hsepc : r ≠ ARCH_REG_SEPC := Nat.ne_of_gt h
  have ha : r ≠ ARCH_REG_A0 ∧ r ≠ ARCH_REG_A1 := by
    unfold ARCH_REG_SEPC at h
    unfold ARCH_REG_A0 ARCH_REG_A1
    omega
  unfold userTrapTail
  rw [upd_ne _ _ hsepc, upd_ne _ _ ha.2, upd_ne _ _ ha.1]

theorem returnToUserMode_satp : returnToUserMode lib t frame FRAME_SATP = frame FRAME_SATP := rfl

theorem returnToUserMode_traps : (returnToUserMode lib t frame).Traps lib t := ⟨rfl, rfl⟩

theorem userTrapTail_satp : userTrapTail lib sysret frame FRAME_SATP = frame FRAME_SATP :=
  userTrapTail_of_lt (by decide)

/-- The end of a system call. -/
theorem userTrapReturn_satp :
    returnToUserMode lib t (userTrapTail lib sysret frame) FRAME_SATP = frame FRAME_SATP :=
  returnToUserMode_satp.trans userTrapTail_satp

/-- A task that was switched in goes back to user mode in one of two ways, which both end in
`return_to_user_mode`. -/
theorem Resume.back_anchored (resume : Resume) :
    resume.back lib t sysret frame FRAME_SATP = frame FRAME_SATP ∧
      (resume.back lib t sysret frame).Traps lib t := by
  cases resume with
  | returnToUserMode => exact ⟨rfl, returnToUserMode_traps⟩
  | _ => exact ⟨userTrapReturn_satp, returnToUserMode_traps⟩

theorem Machine.entered_satp (m : Machine) (regs : Frame) (t : TaskPtr) :
    m.entered regs t FRAME_SATP = m.frames t FRAME_SATP := by
  unfold Machine.entered
  rw [upd_apply]
  split
  · rename_i ht
    rw [ht, trapEntry_of_lt (by decide)]
  · rfl

/-- A store to one frame that keeps its root table. -/
theorem upd_satp {frames : TaskPtr → Frame} {u : TaskPtr}
    (h : frame FRAME_SATP = frames u FRAME_SATP) :
    upd frames u frame t FRAME_SATP = frames t FRAME_SATP := by
  rw [upd_apply]
  split
  · rename_i ht
    rw [h, ht]
  · rfl

/-- A register that `set_register` accepts is not the root table. -/
theorem setRegister_satp {value : UInt64} (hlib : lib.lastRegister < FRAME_SATP) :
    (setRegister lib frame r value).1 FRAME_SATP = frame FRAME_SATP := by
  unfold setRegister
  split
  · rfl
  · rename_i hr
    exact upd_ne _ _ (Nat.ne_of_gt (Nat.lt_of_le_of_lt (Nat.not_lt.mp hr) hlib))

theorem invokeSetReg_satp {frames frames' : TaskPtr → Frame} {task : TaskPtr} {reg : Nat}
    {value : UInt64} (hlib : lib.lastRegister < FRAME_SATP)
    (h : invokeSetReg lib k frames task reg value = (frames', sysret)) :
    frames' t FRAME_SATP = frames t FRAME_SATP := by
  unfold invokeSetReg at h
  split at h
  · exact congrArg (fun f => f t FRAME_SATP) (Prod.mk.inj h).1.symm
  · split at h
    · exact congrArg (fun f => f t FRAME_SATP) (Prod.mk.inj h).1.symm
    · obtain ⟨rfl, -⟩ := Prod.mk.inj h
      exact upd_satp (setRegister_satp hlib)

/-! ### Steps -/

/-- No step of the machine changes a root table. -/
theorem MachineStep.satp (h : MachineStep lib env m deed m')
    (hlib : lib.lastRegister < FRAME_SATP) :
    m'.frames t FRAME_SATP = m.frames t FRAME_SATP := by
  cases h with
  | returned _ =>
    exact (upd_satp (userTrapReturn_satp)).trans (m.entered_satp _ t)
  | left _ => exact m.entered_satp _ t
  | @setReg task reg value regs frames sysret _ _ hrun =>
    refine (upd_satp (userTrapReturn_satp)).trans ?_
    exact (invokeSetReg_satp hlib hrun).trans (m.entered_satp _ t)
  | back _ => exact upd_satp (Resume.back_anchored _).1
  | passedOn _ => rfl
  | store _ => rfl

/-- An operation that does not answer leaves user mode. -/
theorem CoreStep.none_mode {move : Move} (h : CoreStep env c (move, none) c')
    (hmove : ∀ memory, move ≠ .store memory) : c'.mode = .kernel := by
  have hstop : ∀ {out : Outcome Stop Kernel Bool}, Outcome.toCore out = some (none, c') →
      c'.mode = .kernel := by
    intro out hout
    cases out with
    | ok b k => exact absurd hout (by simp [Outcome.toCore])
    | stop e k =>
      cases e with
      | switched =>
        obtain ⟨-, rfl⟩ := Prod.mk.inj (Option.some.inj hout)
        rfl
      | _ => exact absurd hout (by simp [Outcome.toCore])
  cases h with
  | invoke _ _ hrun => exact hstop hrun
  | resume _ hrun => exact hstop hrun
  | store _ => exact absurd rfl (hmove _)

/-- The way back to user mode is through `return_to_user_mode`. -/
theorem MachineStep.traps (h : MachineStep lib env m deed m')
    (ha : m.core.mode = .user → (m.frames m.current).Traps lib m.current)
    (huser : m'.core.mode = .user) : (m'.frames m'.current).Traps lib m'.current := by
  have hupd : ∀ {frames : TaskPtr → Frame} {u : TaskPtr} {frame : Frame},
      frame.Traps lib u → (upd frames u frame u).Traps lib u := by
    intro frames u frame hframe
    rwa [upd_same]
  cases h with
  | returned _ => exact hupd returnToUserMode_traps
  | left step =>
    have hmode := step.none_mode fun _ => Move.noConfusion
    exact absurd (hmode.symm.trans huser) (by decide)
  | setReg _ _ _ => exact hupd returnToUserMode_traps
  | back _ => exact hupd (Resume.back_anchored _).2
  | passedOn step =>
    have hmode := step.none_mode fun _ => Move.noConfusion
    exact absurd (hmode.symm.trans huser) (by decide)
  | store step =>
    cases step with
    | store hmode => exact ha hmode

theorem Machine.back_satp (m : Machine) (regs : Frame) (sysret : Sysret) (k : Kernel) :
    (m.back lib regs sysret k).frames t FRAME_SATP = m.frames t FRAME_SATP :=
  (upd_satp (userTrapReturn_satp)).trans (m.entered_satp regs t)

/-- A system call that returns. -/
theorem Machine.back_traps (hcurrent : k.currentTask = m.current) :
    ((m.back lib regs sysret k).frames k.currentTask).Traps lib k.currentTask := by
  have hframe : (m.back lib regs sysret k).frames m.current =
      returnToUserMode lib m.current (userTrapTail lib sysret (m.entered regs m.current)) :=
    upd_same _ _ _
  rw [hcurrent, hframe]
  exact returnToUserMode_traps

/-! ### Tasks in use -/

theorem Kernel.store_root_eq (hused : (k.tasks t).state ≠ .unused) :
    k.store.mute.root t = some (k.tasks t).rootPageTable := if_neg hused

/-- Moves leave the tasks in use as they are, with their root tables. -/
theorem Core.Leads.tables (h : c.Leads c') (hused : (c.kernel.tasks t).state ≠ .unused) :
    (c'.kernel.tasks t).state ≠ .unused ∧
      (c'.kernel.tasks t).rootPageTable = (c.kernel.tasks t).rootPageTable := by
  obtain ⟨-, acts, hmoves⟩ := h
  have hroot := hmoves.root (Kernel.store_root_eq hused)
  have hused' : (c'.kernel.tasks t).state ≠ .unused := by
    intro hunused
    have hnone : c'.kernel.store.mute.root t = none := if_pos hunused
    rw [hnone] at hroot
    exact absurd hroot (by simp)
  refine ⟨hused', ?_⟩
  rw [Kernel.store_root_eq hused'] at hroot
  exact Option.some.inj hroot

theorem Kernel.Alike.unused (h : k.Alike k') :
    (k'.tasks t).state = .unused ↔ (k.tasks t).state = .unused := by
  rw [h.tasks]

/-- A call that kills its task takes no task into use. -/
theorem Step.killed_unused {cfg : Config} {call : Call} (h : KernelInv k)
    (hstep : Step cfg k ⟨k.currentTask, call⟩ none k')
    (hsafe : Safe k (⟨k.currentTask, call⟩, none)) (hunused : (k.tasks t).state = .unused) :
    (k'.tasks t).state = .unused := by
  obtain ⟨acts, ⟨-, hacts⟩, hdoes⟩ := hstep.serves h.links h.store hsafe
  have hroot : k'.store.root = k.store.root := hdoes.moves.root_eq fun act hin => by
    rintro rfl
    rcases hacts _ hin with hremoval | hself
    · exact hremoval.elim
    · exact absurd hself (by simp)
  by_contra hused
  have hnone : k'.store.root t = none := by
    rw [hroot]
    exact if_pos hunused
  have hsome : k'.store.root t = some (k'.tasks t).rootPageTable := if_neg hused
  rw [hnone] at hsome
  exact absurd hsome (by simp)

/-- The step lemma. -/
theorem SystemStep.anchored (hstep : SystemStep sys m act m')
    (hlib : sys.lib.lastRegister < FRAME_SATP) (h : m.core.InOrder) (hsafe : m.Safe act)
    (ha : m.Anchored sys.lib) : m'.Anchored sys.lib := by
  have hleads := hstep.leads h hsafe
  -- A task that was in use keeps its table, so what is left are frames.
  have hsatp : (∀ t, (m.core.kernel.tasks t).state ≠ .unused →
        m'.frames t FRAME_SATP = m.frames t FRAME_SATP) →
      (∀ t, (m.core.kernel.tasks t).state = .unused → (m'.core.kernel.tasks t).state ≠ .unused →
        m'.frames t FRAME_SATP = satpWord (m'.core.kernel.tasks t).rootPageTable) →
      ∀ t, (m'.core.kernel.tasks t).state ≠ .unused →
        m'.frames t FRAME_SATP = satpWord (m'.core.kernel.tasks t).rootPageTable := by
    intro hold hnew t hused'
    by_cases hused : (m.core.kernel.tasks t).state = .unused
    · exact hnew t hused hused'
    · rw [hold t hused, (hleads.tables hused).2, ha.satp t hused]
  cases hstep with
  | @answered regs request k sysret hresolved _ =>
    obtain ⟨-, halike, -⟩ := hresolved.inOrder h
    refine ⟨hsatp (fun t _ => m.back_satp regs sysret k) fun t hunused hused => ?_, fun _ => ?_⟩
    · exact absurd (halike.unused.mpr hunused) hused
    · exact Machine.back_traps halike.current
  | @op regs op k m' hresolved step =>
    obtain ⟨hin, halike, -⟩ := hresolved.inOrder h
    obtain ⟨answer, hcore⟩ := step.coreStep
    rw [Machine.withKernel_core hresolved.1] at hcore
    refine ⟨hsatp (fun t _ => step.satp hlib) fun t hunused hused => ?_, step.traps fun hmode => ?_⟩
    · exact absurd (((hin.invoke_hands hcore).unused t).mpr (halike.unused.mpr hunused)) hused
    · have hcurrent : (m.withKernel k).current = m.current := halike.current
      rw [hcurrent]
      exact ha.trap hresolved.1
  | @setReg regs task reg value k sysret m' hresolved step =>
    obtain ⟨-, halike, -⟩ := hresolved.inOrder h
    refine ⟨hsatp (fun t _ => step.satp hlib) fun t hunused hused => ?_, step.traps fun hmode => ?_⟩
    · cases step with
      | setReg _ _ _ => exact absurd (halike.unused.mpr hunused) hused
    · have hcurrent : (m.withKernel k).current = m.current := halike.current
      rw [hcurrent]
      exact ha.trap hresolved.1
  | @call regs call k k' answer hresolved step =>
    obtain ⟨hin, halike, -⟩ := hresolved.inOrder h
    have hcurrent : k'.currentTask = m.current :=
      (hin.call_current step rfl (halike.safe hsafe.1) fun hcall =>
        halike.settled (hsafe.2 hcall)).trans halike.current
    refine ⟨hsatp (fun t hused => ?_) fun t hunused hused => ?_, fun _ => ?_⟩
    · rw [Machine.back_satp]
      exact congrFun (if_neg fun hnew => hused hnew.1) FRAME_SATP
    · rw [Machine.back_satp]
      exact congrFun (if_pos ⟨hunused, hused⟩) FRAME_SATP
    · exact Machine.back_traps hcurrent
  | @killed regs call k k' hresolved step _ =>
    obtain ⟨hin, halike, -⟩ := hresolved.inOrder h
    refine ⟨hsatp (fun t _ => m.entered_satp regs t) fun t hunused hused => ?_,
      fun hmode => absurd hmode Mode.noConfusion⟩
    exact absurd (step.killed_unused hin.kernel (halike.safe hsafe.1)
      (halike.unused.mpr hunused)) hused
  | resume step =>
    refine ⟨hsatp (fun t _ => step.satp hlib) fun t hunused hused => ?_, step.traps ha.trap⟩
    have hhands : Hands m.core.kernel m'.core.kernel := by
      cases step with
      | back step => exact step.goOn_hands
      | passedOn step => exact step.goOn_hands
    exact absurd ((hhands.unused t).mpr hunused) hused
  | store step =>
    refine ⟨hsatp (fun t _ => step.satp hlib) fun t hunused hused => ?_, step.traps ha.trap⟩
    cases step with
    | store step =>
      cases step with
      | store _ => exact absurd hunused hused

/-! ### Runs -/

/-- Where `start` lets the root task run. -/
theorem startMachine_anchored (hlib : sys.lib.lastRegister < FRAME_SATP) (hwf : boot.WellFormed)
    (hsetup : setup boot (.debug sys.config) .powerOn = .ok () k) (values : List (Nat × UInt64))
    (frames : TaskPtr → Frame) : (startMachine sys.lib boot values frames k).Anchored sys.lib := by
  have hbooted : Booted boot k := wp_ok (wp_setup hwf) hsetup
  have hcurrent : k.currentTask = boot.rootTask := (setup_quiet hwf.idle_ne hsetup).current
  have hvalues : ∀ frame : Frame, values.foldl
      (fun frame v => (setRegister sys.lib frame v.1 v.2).1) frame FRAME_SATP = frame FRAME_SATP := by
    induction values with
    | nil => exact fun _ => rfl
    | cons v values ih => exact fun frame => (ih _).trans (setRegister_satp hlib)
  have hroot : (startMachine sys.lib boot values frames k).frames boot.rootTask =
      returnToUserMode sys.lib boot.rootTask (values.foldl
        (fun frame v => (setRegister sys.lib frame v.1 v.2).1) (archInitTask boot.rootPageTable)) :=
    upd_same _ _ _
  refine ⟨fun t hused => ?_, fun _ => ?_⟩
  · have htable : k.store.root t = some (k.tasks t).rootPageTable := if_neg hused
    rw [hbooted.root] at htable
    by_cases hidle : t = boot.idleTask
    · subst hidle
      rw [upd_same] at htable
      have hframe : (startMachine sys.lib boot values frames k).frames boot.idleTask =
          archInitTask boot.idleRootPageTable := (upd_ne _ _ hwf.idle_ne).trans (upd_same _ _ _)
      show _ = satpWord (k.tasks boot.idleTask).rootPageTable
      rw [hframe, ← Option.some.inj htable]
      rfl
    · rw [upd_ne _ _ hidle, upd_apply] at htable
      split at htable
      · rename_i ht
        subst ht
        show _ = satpWord (k.tasks boot.rootTask).rootPageTable
        rw [hroot, returnToUserMode_satp, hvalues, ← Option.some.inj htable]
        rfl
      · exact absurd htable (by simp)
  · show ((startMachine sys.lib boot values frames k).frames k.currentTask).Traps sys.lib
      k.currentTask
    rw [hcurrent, hroot]
    exact returnToUserMode_traps

/-- The run lemma. -/
theorem SystemRun.anchored (hrun : SystemRun sys Machine.Safe m actions m')
    (hlib : sys.lib.lastRegister < FRAME_SATP) (h : m.core.InOrder) (ha : m.Anchored sys.lib) :
    m'.Anchored sys.lib :=
  (hrun.invariant (I := fun m => m.core.InOrder ∧ m.Anchored sys.lib) (fun _ _ _ hm hstep =>
    ⟨(hstep.2.leads hm.1 hstep.1).1, hstep.2.anchored hlib hm.1 hstep.1 hm.2⟩) ⟨h, ha⟩).2

theorem SystemReaches.anchored (h : SystemReaches sys boot Machine.Safe m)
    (hlib : sys.lib.lastRegister < FRAME_SATP) : m.Anchored sys.lib := by
  obtain ⟨k₀, values, frames, actions, hsetup, hrun⟩ := h.run
  exact hrun.anchored hlib (setup_inOrder h.wellFormed hsetup)
    (startMachine_anchored hlib h.wellFormed hsetup values frames)

end Caprese

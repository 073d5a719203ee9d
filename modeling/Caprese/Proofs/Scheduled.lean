import Caprese.Sched.Start

/-!
# `Caprese.Proofs.Scheduled`: the first task runs without the state of a running task

`switch_task` and `idle` set the state of the task that they switch to. `start` loads the
context of the root task and sets no state, so the root task runs in the state that `init_task`
gave it, suspended. No run from boot is `Scheduled` throughout (`root_task_never_running`).
-/

set_option autoImplicit false

namespace Caprese

open Lib Prog

/-- The states of the tasks say who runs and who is ready to run. -/
structure Scheduled (k : Kernel) : Prop where
  current : k.currentTask ≠ k.idleTask → (k.tasks k.currentTask).state = .running
  others : ∀ t, t ≠ k.currentTask → (k.tasks t).state ≠ .running
  ready : ∃ l, Queue.Rep k.readyLinks k.readyQueue l ∧ l.Nodup ∧
    ∀ t, t ∈ l ↔ (k.tasks t).state = .ready ∧ t ≠ k.idleTask

variable {env : Env} {boot : BootInfo} {k : Kernel}

/-- At the end of boot only the state of the root task is wrong. -/
theorem Started.others (h : Started boot k) : (∀ t, (k.tasks t).state ≠ .running) ∧
    ∃ l, Queue.Rep k.readyLinks k.readyQueue l ∧ l.Nodup ∧
      ∀ t, t ∈ l ↔ (k.tasks t).state = .ready ∧ t ≠ k.idleTask := by
  constructor
  · intro t
    rw [h.state]
    unfold BootInfo.taskState
    rw [upd_apply, upd_apply]
    split
    · decide
    · split <;> decide
  · obtain ⟨l, hrep, hmem, -⟩ := h.quiet.ready
    exact ⟨l, hrep, hrep.list.nodup, hmem⟩

theorem Started.not_scheduled (h : Started boot k) : ¬ Scheduled k := by
  intro hs
  have hrunning := hs.current h.quiet.current.1
  exact absurd hrunning (h.others.1 _)

/-- Whatever the root task is, its runs start in a state in which the current task is not
running. -/
theorem root_task_never_running (hwf : boot.WellFormed)
    (hsetup : setup boot env Kernel.powerOn = .ok () k) :
    ¬ ∀ acts c, CoreRun env (fun _ _ => True) ⟨k, .user⟩ acts c → Scheduled c.kernel := by
  intro hclaim
  have hstarted := setup_quiet hwf.idle_ne hsetup
  exact hstarted.not_scheduled (hclaim [] _ .nil)

/-- The small machine boots. -/
theorem sample_boots : ∃ k, setup sampleBoot (.debug sampleConfig) Kernel.powerOn = .ok () k := by
  obtain ⟨k, hreach, -⟩ := @sample_reaches (fun _ _ => True) _ [] (fun _ => True) _
    (by decide +kernel)
  obtain ⟨k₀, -, hsetup, -⟩ := hreach.run
  exact ⟨k₀, hsetup⟩

theorem root_task_never_running_sample :
    ∃ k, setup sampleBoot (.debug sampleConfig) Kernel.powerOn = .ok () k ∧
      ¬ ∀ acts c, CoreRun (.debug sampleConfig) (fun _ _ => True) ⟨k, .user⟩ acts c →
        Scheduled c.kernel := by
  obtain ⟨k, hsetup⟩ := sample_boots
  exact ⟨k, hsetup, root_task_never_running sampleBoot_wellFormed hsetup⟩

/-- The root task of the small machine runs suspended. -/
theorem root_task_suspended : ¬ ∀ (cfg : Config) (boot : BootInfo) (k : Kernel),
    boot.WellFormed → setup boot (.debug cfg) Kernel.powerOn = .ok () k →
    ∀ acts c, CoreRun (.debug cfg) (fun _ _ => True) ⟨k, .user⟩ acts c → Scheduled c.kernel := by
  intro hclaim
  obtain ⟨k, hsetup⟩ := sample_boots
  have hstarted := setup_quiet sampleBoot_wellFormed.idle_ne hsetup
  exact hstarted.not_scheduled (hclaim _ _ k sampleBoot_wellFormed hsetup [] _ .nil)

end Caprese

import Caprese.Proofs.Killed
import Caprese.Sched.Order
import Caprese.System.Run

/-!
# `Caprese.Proofs.Fairness`: nobody is overtaken

The ready queue and the queues of endpoints are served first come, first served, whatever the tasks
do (`ready_in_order`, `waiting_in_order`). Of those in front of a task that stays in its queue,
nobody new comes in between, and each step in which the first one departs brings the task one place
nearer to the front.
-/

set_option autoImplicit false

namespace Caprese

open Lib Prog

variable {cfg : Config} {c c' : Core} {A : Desk} {t : TaskPtr} {labels : List Bool}
  {l a : List TaskPtr} {e : EndpointPtr} {side : QueueSide}

/-- The tasks in the ready queue, from the first on. -/
def Kernel.ReadyIs (k : Kernel) (l : List TaskPtr) : Prop := Queue.Rep k.readyLinks k.readyQueue l

/-- The tasks in a queue of an endpoint, from the first on. -/
def Kernel.WaitingIs (k : Kernel) (e : EndpointPtr) (side : QueueSide) (l : List TaskPtr) : Prop :=
  Queue.Rep k.waitingLinks ((k.endpoints e).queue side) l

instance (k : Kernel) (l : List TaskPtr) : Decidable (k.ReadyIs l) :=
  inferInstanceAs (Decidable (Queue.Rep k.readyLinks k.readyQueue l))

instance (k : Kernel) (e : EndpointPtr) (side : QueueSide) (l : List TaskPtr) :
    Decidable (k.WaitingIs e side l) :=
  inferInstanceAs (Decidable (Queue.Rep k.waitingLinks ((k.endpoints e).queue side) l))

/-- An orderly step of the core behind which `t` is in the queue `q`. The label tells whether the
first task departed from the queue. -/
def Holds (cfg : Config) (q : Kernel → List TaskPtr → Prop) (t : TaskPtr) (c : Core)
    (departs : Bool) (c' : Core) : Prop :=
  (∃ act, c.kernel.Orderly act.1 ∧ CoreStep (.debug cfg) c act c') ∧
    (∃ l', q c'.kernel l' ∧ t ∈ l') ∧
    (departs = true → ∃ l l', q c.kernel l ∧ q c'.kernel l' ∧ Departs l l')

/-- A step of the core is fair. -/
theorem CoreStep.fair {act : Move × Option Bool} (hstep : CoreStep (.debug cfg) c act c')
    (h : Disciplined debugAllows c) (horderly : c.kernel.Orderly act.1) :
    Disciplined debugAllows c' ∧
      ∃ A A', Shows c.kernel A ∧ Shows c'.kernel A' ∧ A.Fair A' := by
  have hnext := h.step Kernel.Orderly.admits_debug horderly hstep
  obtain ⟨move, answer⟩ := act
  cases move with
  | invoke op =>
    obtain ⟨A, A', hA, hI, hu, hA', heffect, -⟩ :=
      h.invoke Kernel.Orderly.admits_debug horderly hstep
    exact ⟨hnext, A, A', hA, hA', heffect.fair hI hu⟩
  | resume =>
    obtain ⟨A, A', hA, -, -, hA', heffect, -⟩ := h.goOn hstep
    exact ⟨hnext, A, A', hA, hA', heffect.fair⟩
  | store memory =>
    obtain ⟨A, hA, -⟩ := h
    cases hstep with
    | store _ => exact ⟨hnext, A, A, hA, hA.frame (.of_eq rfl rfl rfl rfl rfl rfl), .refl A⟩

/-- The queues of a state are those that it shows, so a run that holds `t` in one serves it in
order. -/
theorem Holds.run {q : Kernel → List TaskPtr → Prop} (list : Desk → List TaskPtr)
    (hshows : ∀ {k A l}, Shows k A → (q k l ↔ l = list A))
    (hproper : ∀ {A : Desk}, A.Proper → (list A).Nodup)
    (hfair : ∀ {A B : Desk}, A.Fair B → Fifo (list A) (list B)) (h : Disciplined debugAllows c)
    (hrun : Steps (Holds cfg q t) c labels c') (hl : q c.kernel l) (ht : Ahead t l a) :
    ∃ l' a', q c'.kernel l' ∧ Ahead t l' a' ∧ a'.Sublist a ∧
      a'.length + labels.count true ≤ a.length := by
  have hnodup : ∀ (c : Core) l, Disciplined debugAllows c ∧ q c.kernel l → l.Nodup := by
    rintro c l ⟨⟨A, hA, -⟩, hl⟩
    rw [(hshows hA).mp hl]
    exact hproper hA.proper
  have hstep : ∀ c departs c' l, Disciplined debugAllows c ∧ q c.kernel l →
      Holds cfg q t c departs c' → ∃ l', (Disciplined debugAllows c' ∧ q c'.kernel l') ∧ Fifo l l' ∧
        t ∈ l' ∧ (departs = true → Departs l l') := by
    rintro c departs c' l ⟨hc, hl⟩ ⟨⟨act, horderly, hstep⟩, ⟨m, hm, hmem⟩, hdeparts⟩
    obtain ⟨hnext, A, A', hA, hA', hAA'⟩ := hstep.fair hc horderly
    obtain rfl := (hshows hA).mp hl
    obtain rfl := (hshows hA').mp hm
    refine ⟨list A', ⟨hnext, hm⟩, hfair hAA', hmem, fun hd => ?_⟩
    obtain ⟨l₁, l₂, h₁, h₂, hgone⟩ := hdeparts hd
    rwa [(hshows hA).mp h₁, (hshows hA').mp h₂] at hgone
  obtain ⟨l', a', ⟨-, hl'⟩, hrest⟩ := Steps.ahead hnodup hstep hrun ⟨h, hl⟩ ht
  exact ⟨l', a', hl', hrest⟩

/-- While a task stays ready, nobody gets in front of it in the ready queue, and each time the first
ready task departs it moves up by one place. So when as many tasks have departed as were in front
of it, it is the first. -/
theorem ready_in_order (h : Disciplined debugAllows c)
    (hrun : Steps (Holds cfg Kernel.ReadyIs t) c labels c') (hl : c.kernel.ReadyIs l)
    (ht : Ahead t l a) :
    ∃ l' a', c'.kernel.ReadyIs l' ∧ Ahead t l' a' ∧ a'.Sublist a ∧
      a'.length + labels.count true ≤ a.length :=
  Holds.run Desk.ready
    (fun hA => ⟨fun hl => hl.unique hA.ready, fun hl => hl ▸ hA.ready⟩) (fun hp => hp.ready)
    (fun hfair => hfair.ready) h hrun hl ht

/-- The first task yields, and the second one departs: the third one, which was behind it, is the
first that is ready. -/
theorem ready_in_order_yield : ∃ c,
    Steps (Holds smallConfig Kernel.ReadyIs 0x3000) ⟨smallKernel, .user⟩ [false, true] c ∧
    ∃ l' a', c.kernel.ReadyIs l' ∧ Ahead 0x3000 l' a' ∧ a'.Sublist [0x2000] ∧ a'.length + 1 ≤ 1 := by
  have hcomputed : ((Core.invoke (.debug smallConfig) .yield ⟨smallKernel, .user⟩).any fun yielded =>
      (yielded.2.goOn (.debug smallConfig)).any fun next =>
        decide (yielded.2.kernel.ReadyIs [0x2000, 0x3000, 0x1000] ∧
          next.2.kernel.ReadyIs [0x3000, 0x1000])) = true := by decide +kernel
  rw [Option.any_eq_true] at hcomputed
  obtain ⟨⟨b₁, c₁⟩, hyield, hgoOn⟩ := hcomputed
  rw [Option.any_eq_true] at hgoOn
  obtain ⟨⟨b₂, c₂⟩, hgoOn, hready⟩ := hgoOn
  obtain ⟨hready₁, hready₂⟩ := of_decide_eq_true hready
  have hyielded : Holds smallConfig Kernel.ReadyIs 0x3000 ⟨smallKernel, .user⟩ false c₁ :=
    ⟨⟨(.invoke .yield, b₁), trivial, step_of_invoke hyield⟩, ⟨_, hready₁, by decide⟩,
      fun hfalse => absurd hfalse Bool.false_ne_true⟩
  have hdeparted : Holds smallConfig Kernel.ReadyIs 0x3000 c₁ true c₂ :=
    ⟨⟨(.resume, b₂), trivial, step_of_goOn hgoOn⟩, ⟨_, hready₂, by decide⟩,
      fun _ => ⟨_, _, hready₁, hready₂, 0x2000, rfl, by decide⟩⟩
  have hrun := (Steps.single hyielded).append (.single hdeparted)
  exact ⟨c₂, hrun, ready_in_order smallKernel_quiet.disciplined hrun
    (l := [0x2000, 0x3000]) (by decide) ⟨[], rfl⟩⟩

/-- While a task waits at an endpoint, nobody gets in front of it there, and each time the first
task departs from this queue it moves up by one place. -/
theorem waiting_in_order (h : Disciplined debugAllows c)
    (hrun : Steps (Holds cfg (Kernel.WaitingIs · e side) t) c labels c')
    (hl : c.kernel.WaitingIs e side l) (ht : Ahead t l a) :
    ∃ l' a', c'.kernel.WaitingIs e side l' ∧ Ahead t l' a' ∧ a'.Sublist a ∧
      a'.length + labels.count true ≤ a.length :=
  Holds.run (fun A => A.waiting e side)
    (fun hA => ⟨fun hl => hl.unique (hA.waiting e side), fun hl => hl ▸ hA.waiting e side⟩)
    (fun hp => hp.waiting e side) (fun hfair => hfair.waiting e side) h hrun hl ht

/-- The first two tasks wait for messages, and the third one sends to the first: the second one is
now the first that waits. -/
theorem waiting_in_order_send : ∃ c c',
    Steps (Holds smallConfig (Kernel.WaitingIs · 0x100 .receiver) 0x2000) c [true] c' ∧
    ∃ l' a', c'.kernel.WaitingIs 0x100 .receiver l' ∧ Ahead 0x2000 l' a' ∧ a'.Sublist [0x1000] ∧
      a'.length + 1 ≤ 1 := by
  obtain ⟨acts, c, hrun, hwaiting, hsend⟩ := small_run (.debug smallConfig) Calm (fun _ => trivial)
    [some (.receive true 0x100 0), none, none, some (.receive true 0x100 0), none, none]
    (P := fun c => c.kernel.WaitingIs 0x100 .receiver [0x1000, 0x2000] ∧
      ((c.invoke (.debug smallConfig) (.sendLong true 0x100 0)).any fun next =>
        decide (next.2.kernel.WaitingIs 0x100 .receiver [0x2000])) = true) (by decide +kernel)
  rw [Option.any_eq_true] at hsend
  obtain ⟨⟨answer, c'⟩, hsend, hleft⟩ := hsend
  have hwaiting' := of_decide_eq_true hleft
  have hdeparted : Holds smallConfig (Kernel.WaitingIs · 0x100 .receiver) 0x2000 c true c' :=
    ⟨⟨(.invoke (.sendLong true 0x100 0), answer), trivial, step_of_invoke hsend⟩,
      ⟨_, hwaiting', by decide⟩, fun _ => ⟨_, _, hwaiting, hwaiting', 0x1000, rfl, by decide⟩⟩
  have hc : Disciplined debugAllows c :=
    smallKernel_quiet.disciplined.run Kernel.Orderly.admits_debug (Calm.run hrun)
  exact ⟨c, c', .single hdeparted, waiting_in_order hc (.single hdeparted) hwaiting ⟨[], rfl⟩⟩

end Caprese

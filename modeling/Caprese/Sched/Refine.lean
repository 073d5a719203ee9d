import Caprese.Sched.Preserve

/-!
# `Caprese.Sched.Refine`: the operations do what their effects say

From a state that shows a desk of the joint discipline, an operation of a task in user mode
ends as `Effect` says, or stops for a reason that is named: inside the transfer of a message,
or at an assertion, a panic or a loop bound that `Blame` tells. One rule for each function of
the kernel, put together from the rules of `Sched.Desk`.
-/

set_option autoImplicit false

namespace Caprese

open Lib Prog

/-- The state shows a desk that `R` allows after the answer. -/
def Ends (R : Option Bool → Desk → Prop) (answer : Option Bool) (k : Kernel) : Prop :=
  ∃ A, Shows k A ∧ R answer A

/-- The processor went to another task as `R` allows, or the kernel stopped for a reason. -/
def Stopped (R : Option Bool → Desk → Prop) (P : Stop → Kernel → Prop) (e : Stop)
    (k : Kernel) : Prop :=
  e = .switched ∧ Ends R none k ∨ e ≠ .switched ∧ P e k

/-- The reasons to stop of an operation that hands over messages. -/
def Mishap (env : Env) (P : Stop → Prop) (e : Stop) (k : Kernel) : Prop :=
  TransferStops env e k ∨ P e

/-- The program answers and stops as `R` and `P` say. -/
abbrev EndsAs (env : Env) (m : K Bool) (k : Kernel) (R : Option Bool → Desk → Prop)
    (P : Stop → Kernel → Prop) : Prop :=
  wp m env (fun b k' => Ends R (some b) k') (Stopped R P) k

section Rules

variable {env : Env} {R R' : Option Bool → Desk → Prop} {P P' : Stop → Kernel → Prop}
  {M : Stop → Prop} {k : Kernel} {A D : Desk} {t : TaskPtr} {e : EndpointPtr} {N : Desk.Allows}

theorem Ends.mono {answer : Option Bool} (h : Ends R answer k)
    (hR : ∀ answer A, R answer A → R' answer A) : Ends R' answer k := by
  obtain ⟨A, hA, hR'⟩ := h
  exact ⟨A, hA, hR _ _ hR'⟩

theorem Stopped.mono {s : Stop} (h : Stopped R P s k)
    (hR : ∀ answer A, R answer A → R' answer A) (hP : ∀ k, P s k → P' s k) :
    Stopped R' P' s k := by
  rcases h with ⟨rfl, hends⟩ | ⟨hne, hblame⟩
  · exact Or.inl ⟨rfl, hends.mono hR⟩
  · exact Or.inr ⟨hne, hP _ hblame⟩

theorem EndsAs.mono {m : K Bool} (h : EndsAs env m k R P)
    (hR : ∀ answer A, R answer A → R' answer A) (hP : ∀ s k, P s k → P' s k) :
    EndsAs env m k R' P' :=
  wp_mono h (fun _ _ hends => hends.mono hR) fun s _ hstop => hstop.mono hR (hP s)

theorem Stopped.transfer {s : Stop} (hne : s ≠ .switched) (h : TransferStops env s k) :
    Stopped R (Mishap env M) s k := Or.inr ⟨hne, Or.inl h⟩

theorem Stopped.switched (h : Shows k A) (hR : R none A) : Stopped R P .switched k :=
  Or.inl ⟨rfl, A, h, hR⟩

/-- Of a task that waits in no queue, the checks at the entry of the operations hold. -/
theorem Shows.wp_checkNotWaiting {Q : Unit → Kernel → Prop} {E : Stop → Kernel → Prop}
    (h : Shows k A) (hq : ¬ A.Queued t) (hcallee : (A.tasks t).calleeTask = none) (hQ : Q () k) :
    wp (checkNotWaiting t) env Q E k := by
  obtain ⟨hprev, hnext⟩ := Links.isList_singleton.mp (h.alone t hq)
  unfold checkNotWaiting
  rw [wp_bind, wp_get, wp_bind]
  refine Shows.wp_kassert_true hprev ?_
  rw [wp_bind, wp_get, wp_bind]
  refine Shows.wp_kassert_true hnext ?_
  rw [wp_bind, wp_get]
  exact Shows.wp_kassert_true ((h.calleeTask t).trans hcallee) hQ

theorem Shows.wp_switchTask {Q : Unit → Kernel → Prop} {E : Stop → Kernel → Prop}
    (h : Shows k D) (hne : t ≠ D.current) (hstate : (D.tasks t).state = .ready)
    (hcur : D.current ∉ D.ready) (hE : ∀ k', Shows k' (D.handOver t) → E .switched k') :
    wp (switchTask t .switchTask) env Q E k := by
  unfold switchTask
  rw [wp_bind, wp_get, wp_bind]
  refine Shows.wp_kassert_true ((h.state t).trans hstate) ?_
  rw [wp_bind, wp_get, h.current]
  dsimp only
  rw [wp_ite, if_neg hne, wp_bind]
  refine h.wp_modifyTask (f := fun task => { task with state := .running })
    (fun _ => ⟨rfl, rfl, rfl, rfl, rfl⟩) fun k₁ h₁ => ?_
  rw [wp_bind, wp_modify, wp_bind]
  refine (h₁.run t).wp_modifyTask (f := fun task => { task with state := .ready })
    (fun _ => ⟨rfl, rfl, rfl, rfl, rfl⟩) fun k₂ h₂ => ?_
  rw [wp_bind]
  refine h₂.wp_pushReadyQueue hcur ?_ fun k₃ h₃ => ?_
  · intro _ hs
    exact absurd (by simp) hs
  · unfold switchContext
    rw [wp_bind]
    refine h₃.wp_modifyTask (f := fun task => { task with context := .switchTask })
      (fun _ => ⟨rfl, rfl, rfl, rfl, rfl⟩) fun k₄ h₄ => ?_
    rw [wp_stop]
    refine hE k₄ ?_
    have heq : ((((D.mapTask t fun task => { task with state := .running }).run t).mapTask D.current
        fun task => { task with state := .ready }).mapTask D.current
        fun task => { task with context := .switchTask }).pushReady D.current = D.handOver t := by
      rw [Desk.mapTask_mapTask]
      rfl
    rw [← heq]
    exact h₄

/-! ### Sending -/

theorem Desk.Inv.passed (h : A.Inv N) (sent : Bool) (dst src : TaskPtr) :
    (A.passed sent dst src).Inv N := by
  unfold Desk.passed
  split
  · exact h.deliver
  · exact h

theorem Desk.User.passed (hu : A.User) (sent : Bool) (dst src : TaskPtr) :
    (A.passed sent dst src).User := by
  unfold Desk.passed
  split
  · exact hu.deliver
  · exact hu

theorem Desk.passed_waiting (sent : Bool) (dst src : TaskPtr) {side : QueueSide} :
    (A.passed sent dst src).waiting e side = A.waiting e side := by
  unfold Desk.passed
  split <;> rfl

/-- The current task joins a queue and leaves the processor. -/
theorem Shows.wp_block {f : Task → Task} {side : QueueSide} {resume : Resume} (h : Shows k A)
    (hu : A.User) (hf : Plain f) (hstate : (f (A.tasks A.current)).state = .waiting)
    (hR : R none (((A.stores f).enqueue A.current e side).resched resume)) :
    EndsAs env (do
      modifyTask A.current f
      pushWaitingQueue e side A.current
      resched resume) k R P := by
  unfold EndsAs
  rw [wp_bind]
  refine h.wp_modifyTask hf fun k₁ h₁ => ?_
  rw [wp_bind]
  refine h₁.wp_pushWaitingQueue hu.notQueued ?_ fun k₂ h₂ => ?_
  · intro _ hs
    refine absurd ?_ hs
    rw [Desk.mapTask_tasks, if_pos rfl]
    exact hstate
  · exact h₂.wp_resched fun k₃ h₃ => .switched h₃ hR

theorem Shows.wp_ipcSendBlock {loose : Prop} {blocking : Bool} (h : Shows k A) (hu : A.User)
    (hempty : A.waiting e .receiver = []) :
    EndsAs env (ipcSendBlock blocking e) k (A.SendEffect loose blocking e) P := by
  unfold EndsAs ipcSendBlock
  rw [wp_bind, wp_get, h.current]
  cases blocking with
  | false =>
    show wp (do Caprese.setErrno .eBlocked; return false) env _ _ k
    rw [wp_bind, wp_setErrno, wp_pure]
    exact ⟨A, h.setErrno _, .refuse hempty rfl⟩
  | true =>
    exact h.wp_block hu (fun _ => ⟨rfl, rfl, rfl, rfl, rfl⟩) rfl (.block hempty rfl)

/-- A receiver that got its message is taken out of its queue, and gets the processor. -/
theorem Shows.wp_wakeReceiver {r : TaskPtr} (h : Shows k A) (hI : A.Inv N) (hu : A.User)
    (hr : r ∈ A.waiting e .receiver)
    (hR : R none (((A.dequeue r e .receiver).mapTask r Task.received).handOver r)) :
    EndsAs env (do
      removeWaitingQueue e .receiver r
      modifyTask r Task.received
      switchTask r .switchTask
      return true) k R P := by
  have hne := hu.ne_of_mem hr
  unfold EndsAs
  rw [wp_bind]
  refine h.wp_removeWaitingQueue hr ?_ fun k₁ h₁ => ?_
  · intro _ hs
    exact absurd (hI.receivers e r hr).state hs
  · rw [wp_bind]
    refine h₁.wp_modifyTask (fun _ => ⟨rfl, rfl, rfl, rfl, rfl⟩) fun k₂ h₂ => ?_
    rw [wp_bind]
    refine h₂.wp_switchTask hne ?_ ?_ fun k₃ h₃ => .switched h₃ hR
    · rw [Desk.mapTask_tasks, if_pos rfl]
      rfl
    · intro hcur
      exact hu.notReady ((hI.ready _).mp hcur).1

/-- The receivers' queue decides, and the sender's is empty if it does. -/
theorem Shows.head_sender (h : Shows k A) (hI : A.Inv N) {r : TaskPtr}
    (hr : r ∈ A.waiting e .receiver) : (k.endpoints e).senderQueue.head = none := by
  show ((k.endpoints e).queue .sender).head = none
  rw [h.head e .sender]
  cases hs : A.waiting e .sender with
  | nil => rfl
  | cons s rest => exact absurd hr (hI.excl e s r (by rw [hs]; exact List.mem_cons_self))

theorem Shows.first (side : QueueSide) (h : Shows k A)
    (hh : ((k.endpoints e).queue side).head = some t) : A.First e side t :=
  (h.head e side).symm.trans hh

theorem Shows.empty (side : QueueSide) (h : Shows k A)
    (hh : ((k.endpoints e).queue side).head = none) : A.waiting e side = [] :=
  List.head?_eq_none_iff.mp ((h.head e side).symm.trans hh)

theorem Shows.wp_ipcSendShort {blocking : Bool} {args : List Nat} (h : Shows k A) (hI : A.Inv N)
    (hu : A.User) : EndsAs env (ipcSendShort blocking e args) k
      ((A.stores (Task.shortMsg args)).SendEffect True blocking e) (Mishap env M) := by
  obtain ⟨D, hD⟩ : ∃ D, D = A.stores (Task.shortMsg args) := ⟨_, rfl⟩
  have hS : D.Inv N := hD ▸ hI.store hu hu.callee rfl hu.notReady
  have huS : D.User := hD ▸ hu.store hu.callee hu.notReady hu.alive
  have hcur : D.current = A.current := hD ▸ rfl
  unfold EndsAs ipcSendShort
  rw [wp_bind, wp_get, h.current]
  dsimp only
  rw [wp_bind]
  refine h.wp_checkNotWaiting hu.notQueued hu.callee ?_
  rw [wp_bind]
  refine h.wp_modifyTask (f := Task.shortMsg args) (fun _ => ⟨rfl, rfl, rfl, rfl, rfl⟩)
    fun k₁ h₁ => ?_
  replace h₁ : Shows k₁ D := hD ▸ h₁
  rw [← hD, ← hcur, wp_bind, wp_get]
  cases hfirst : ((k₁.endpoints e).receiverQueue).head with
  | none => exact h₁.wp_ipcSendBlock huS (h₁.empty .receiver hfirst)
  | some r =>
    have first : D.First e .receiver r := h₁.first .receiver hfirst
    dsimp only
    rw [wp_bind, wp_get, wp_bind]
    refine Shows.wp_kassert_true (h₁.head_sender hS first.mem) ?_
    rw [wp_bind]
    refine h₁.wp_transfer (fun _ _ hne ht => .transfer hne ht) fun sent k₂ h₂ => ?_
    have hmem : r ∈ (D.passed sent r D.current).waiting e .receiver := by
      rw [Desk.passed_waiting]
      exact first.mem
    exact Shows.wp_wakeReceiver (A := D.passed sent r D.current) h₂ (hS.passed sent r D.current)
      (huS.passed sent r D.current) hmem (.meet first (Or.inr trivial))

theorem Shows.wp_ipcSendLong {blocking : Bool} {msg : Nat} (h : Shows k A) (hI : A.Inv N)
    (hu : A.User) : EndsAs env (ipcSendLong blocking e msg) k
      ((A.stores (Task.longMsg msg)).SendEffect False blocking e) (Mishap env M) := by
  obtain ⟨D, hD⟩ : ∃ D, D = A.stores (Task.longMsg msg) := ⟨_, rfl⟩
  have hS : D.Inv N := hD ▸ hI.store hu hu.callee rfl hu.notReady
  have huS : D.User := hD ▸ hu.store hu.callee hu.notReady hu.alive
  have hcur : D.current = A.current := hD ▸ rfl
  unfold EndsAs ipcSendLong
  rw [wp_bind, wp_get, h.current]
  dsimp only
  rw [wp_bind]
  refine h.wp_checkNotWaiting hu.notQueued hu.callee ?_
  rw [wp_bind]
  refine h.wp_modifyTask (f := Task.longMsg msg) (fun _ => ⟨rfl, rfl, rfl, rfl, rfl⟩)
    fun k₁ h₁ => ?_
  replace h₁ : Shows k₁ D := hD ▸ h₁
  rw [← hD, ← hcur, wp_bind, wp_get]
  cases hfirst : ((k₁.endpoints e).receiverQueue).head with
  | none => exact h₁.wp_ipcSendBlock huS (h₁.empty .receiver hfirst)
  | some r =>
    have first : D.First e .receiver r := h₁.first .receiver hfirst
    dsimp only
    rw [wp_bind, wp_get, wp_bind]
    refine Shows.wp_kassert_true (h₁.head_sender hS first.mem) ?_
    rw [wp_bind]
    refine h₁.wp_transfer (fun _ _ hne ht => .transfer hne ht) fun sent k₂ h₂ => ?_
    cases sent with
    | false => exact ⟨D, h₂, .fail id⟩
    | true =>
      have hmem : r ∈ (D.passed true r D.current).waiting e .receiver := by
        rw [Desk.passed_waiting]
        exact first.mem
      exact Shows.wp_wakeReceiver (A := D.passed true r D.current) h₂ (hS.passed true r D.current)
        (huS.passed true r D.current) hmem (.meet first (Or.inl rfl))

/-! ### Receiving -/

/-- What `Blame` says of an operation that answers a caller. -/
def Desk.WrongEndpoint (A : Desk) (e : EndpointPtr) : Prop :=
  ∃ c, (A.tasks A.current).callerTask = some c ∧ (A.tasks c).endpoint ≠ some e

/-- A store to its message does not change what a task answers. -/
theorem Desk.wrongEndpoint_stores {msg : Nat} :
    (A.stores (Task.longMsg msg)).WrongEndpoint e ↔ A.WrongEndpoint e := by
  have hsame : ∀ u, ((A.stores (Task.longMsg msg)).tasks u).callerTask = (A.tasks u).callerTask ∧
      ((A.stores (Task.longMsg msg)).tasks u).endpoint = (A.tasks u).endpoint := by
    intro u
    unfold Desk.stores
    rw [Desk.mapTask_tasks]
    split
    · rename_i heq
      rw [heq]
      exact ⟨rfl, rfl⟩
    · exact ⟨rfl, rfl⟩
  unfold Desk.WrongEndpoint
  rw [show (A.stores (Task.longMsg msg)).current = A.current from rfl, (hsame A.current).1]
  constructor
  · rintro ⟨c, hc, hne⟩
    exact ⟨c, hc, (hsame c).2 ▸ hne⟩
  · rintro ⟨c, hc, hne⟩
    exact ⟨c, hc, (hsame c).2.symm ▸ hne⟩

/-- A task that waits for a reply is in no queue, is not ready, and is not the current task. -/
theorem Desk.Inv.caller_apart {s c : TaskPtr} (hI : A.Inv N) (hs : (A.tasks s).callerTask = some c) :
    ¬ A.Queued c ∧ c ∉ A.ready ∧ (A.User → c ≠ A.current) := by
  obtain ⟨hcalls, hcallee⟩ := hI.caller_waits hs
  refine ⟨?_, ?_, ?_⟩
  · rintro ⟨e, side, hc⟩
    rw [hI.callee_of_mem hc hcalls.state] at hcallee
    exact absurd hcallee (by simp)
  · intro hready
    have hstate := ((hI.ready c).mp hready).1
    rw [hcalls.state] at hstate
    exact absurd hstate (by decide)
  · rintro hu rfl
    rw [hu.callee] at hcallee
    exact absurd hcallee (by simp)

theorem Shows.wp_ipcAbandonCaller {Q : Unit → Kernel → Prop} {E : Stop → Kernel → Prop}
    (h : Shows k A) (hI : A.Inv N)
    (hE : env.ndebug = false → A.WrongEndpoint e → E .assertFailed k)
    (hQ : env.ndebug = true ∨ ¬ A.WrongEndpoint e → ∀ k', Shows k' A.abandon → Q () k') :
    wp (ipcAbandonCaller e) env Q E k := by
  unfold ipcAbandonCaller
  rw [wp_bind, wp_get, h.current]
  dsimp only
  rw [wp_bind, wp_get, h.callerTask]
  cases hc : (A.tasks A.current).callerTask with
  | none =>
    have habandon : A.abandon = A := by
      unfold Desk.abandon
      rw [hc]
    -- In the build without assertions the caller may be another endpoint's.
    have hright : ¬ A.WrongEndpoint e := by
      rintro ⟨c, hcaller, -⟩
      rw [hc] at hcaller
      exact absurd hcaller (by simp)
    exact hQ (Or.inr hright) k (habandon.symm ▸ h)
  | some c =>
    -- The caller waits, off every queue, so all assertions but the one on its endpoint hold.
    obtain ⟨hcalls, hcallee⟩ := hI.caller_waits hc
    obtain ⟨hq, hready, -⟩ := hI.caller_apart hc
    obtain ⟨hprev, hnext⟩ := Links.isList_singleton.mp (h.alone c hq)
    dsimp only
    rw [wp_bind, wp_get, wp_bind]
    refine Shows.wp_kassert_true ((h.state c).trans hcalls.state) ?_
    rw [wp_bind]
    refine Shows.wp_kassert_true ((h.ipcState c).trans hcalls.ipcState) ?_
    rw [wp_bind]
    refine Shows.wp_kassert_true ((h.eventType c).trans hcalls.eventType) ?_
    rw [wp_bind]
    refine Shows.wp_kassert_true hprev ?_
    rw [wp_bind]
    refine Shows.wp_kassert_true hnext ?_
    rw [wp_bind]
    refine Shows.wp_kassert_true ((h.calleeTask c).trans hcallee) ?_
    rw [wp_bind, h.endpoint]
    refine Shows.wp_kassert_or (fun hor => ?_) fun hd hne => hE hd ⟨c, hc, hne⟩
    have hright : env.ndebug = true ∨ ¬ A.WrongEndpoint e := by
      refine hor.imp_right fun heq hwrong => ?_
      obtain ⟨c', hcaller, hne⟩ := hwrong
      obtain rfl : c = c' := Option.some.inj (hc.symm.trans hcaller)
      exact hne heq
    rw [wp_bind]
    refine h.wp_modifyTask (f := Task.released .canceled) (fun _ => ⟨rfl, rfl, rfl, rfl, rfl⟩)
      fun k₁ h₁ => ?_
    rw [wp_bind]
    refine h₁.wp_pushReadyQueue hready ?_ fun k₂ h₂ => ?_
    · intro _ hs
      refine absurd ?_ hs
      rw [Desk.mapTask_tasks, if_pos rfl]
      rfl
    · refine h₂.wp_modifyTask (f := fun task => { task with callerTask := none })
        (fun _ => ⟨rfl, rfl, rfl, rfl, rfl⟩) fun k₃ h₃ => hQ hright k₃ ?_
      have habandon : A.abandon = ((A.mapTask c (Task.released .canceled)).pushReady c).mapTask
          A.current fun task => { task with callerTask := none } := by
        unfold Desk.abandon
        rw [hc]
        rfl
      rw [habandon]
      exact h₃

/-- The receivers' queue is empty where a sender waits. -/
theorem Shows.head_receiver (h : Shows k A) (hI : A.Inv N) {s : TaskPtr}
    (hs : s ∈ A.waiting e .sender) : (k.endpoints e).receiverQueue.head = none := by
  show ((k.endpoints e).queue .receiver).head = none
  rw [h.head e .receiver]
  cases hr : A.waiting e .receiver with
  | nil => rfl
  | cons r rest => exact absurd (by rw [hr]; exact List.mem_cons_self) (hI.excl e s r hs)

/-- In the build with assertions no notice waits. -/
theorem Desk.Inv.sends_of_debug {s : TaskPtr} (hI : A.Inv N) (hN : N.notices → env.ndebug = true)
    (hs : s ∈ A.waiting e .sender) (hd : env.ndebug = false) : (A.tasks s).Sends e := by
  rcases hI.senders e s hs with hsends | hdead
  · exact hsends
  · have hrelease := hN hdead.1
    rw [hd] at hrelease
    exact absurd hrelease (by decide)

theorem Shows.wp_ipcReceiveFrom {blocking : Bool} {s : TaskPtr} (h : Shows k A) (hI : A.Inv N)
    (hu : A.User) (hN : N.notices → env.ndebug = true) (first : A.First e .sender s) :
    EndsAs env (ipcReceiveFrom e s) k (A.ReceiveEffect blocking e) (Mishap env M) := by
  have hmem := first.mem
  have hne := hu.ne_of_mem hmem
  unfold EndsAs ipcReceiveFrom
  rw [wp_bind, wp_get, h.current]
  dsimp only
  rw [wp_bind, wp_get, wp_bind]
  refine Shows.wp_kassert_true (h.head_receiver hI hmem) ?_
  rw [wp_bind, wp_get, wp_bind, h.calleeTask]
  refine Shows.wp_kassert_or (fun _ => ?_) fun hd hcallee =>
    absurd (hI.sends_of_debug hN hmem hd).callee hcallee
  rw [wp_bind]
  refine h.wp_removeWaitingQueue hmem
    (fun hd hstate => absurd (hI.sends_of_debug hN hmem hd).state hstate) fun k₁ h₁ => ?_
  rw [wp_bind, wp_get, h₁.eventType]
  rcases hI.senders e s hmem with hsends | ⟨-, hdead⟩
  · -- The sender's message or call.
    have hevent : ((A.dequeue s e .sender).tasks s).eventType = .send := hsends.eventType
    rw [hevent]
    dsimp only
    rw [wp_bind]
    refine h₁.wp_transfer (fun _ _ hne ht => .transfer hne ht) fun sent k₂ h₂ => ?_
    cases sent with
    | false => exact ⟨_, h₂, .fail first⟩
    | true =>
      replace h₂ : Shows k₂ ((A.deliver A.current s).dequeue s e .sender) := h₂
      rw [if_pos rfl, wp_bind, wp_get, wp_ite, h₂.ipcState, Desk.dequeue_tasks, Desk.deliver_tasks]
      -- A caller stays off the queue and waits for the reply. A sender is woken up.
      by_cases hcalling : (A.tasks s).ipcState = .calling
      · rw [if_pos hcalling, wp_bind, wp_get, wp_bind]
        refine Shows.wp_kassert_true ((h₂.state s).trans hsends.state) ?_
        rw [wp_bind, wp_get, wp_bind]
        refine Shows.wp_kassert_true ((h₂.eventType s).trans hsends.eventType) ?_
        rw [wp_bind]
        refine h₂.wp_modifyTask (f := fun task => { task with calleeTask := some A.current })
          (fun _ => ⟨rfl, rfl, rfl, rfl, rfl⟩) fun k₃ h₃ => ?_
        rw [wp_bind]
        refine h₃.wp_modifyTask (f := fun task => { task with callerTask := some s })
          (fun _ => ⟨rfl, rfl, rfl, rfl, rfl⟩) fun k₄ h₄ => ?_
        have hstate : ((((((A.deliver A.current s).dequeue s e .sender).mapTask s fun task =>
            { task with calleeTask := some A.current }).mapTask A.current fun task =>
            { task with callerTask := some s }).tasks s).state) = .waiting := by
          rw [Desk.mapTask_tasks, if_neg hne, Desk.mapTask_tasks, if_pos rfl]
          exact hsends.state
        rw [wp_bind, wp_get, wp_ite, h₄.state, hstate, if_neg (by decide), wp_pure]
        exact ⟨_, h₄, .bind first hsends hcalling⟩
      · rw [if_neg hcalling, wp_bind]
        refine h₂.wp_modifyTask (f := fun task => task.sent .none)
          (fun _ => ⟨rfl, rfl, rfl, rfl, rfl⟩) fun k₃ h₃ => ?_
        have hstate : ((((A.deliver A.current s).dequeue s e .sender).mapTask s fun task =>
            task.sent .none).tasks s).state = .ready := by
          rw [Desk.mapTask_tasks, if_pos rfl]
          rfl
        rw [wp_bind, wp_get, wp_ite, h₃.state, hstate, if_pos rfl, wp_bind]
        refine h₃.wp_switchTask hne hstate ?_
          fun k₄ h₄ => .switched h₄ (.take first hsends hcalling)
        intro hcur
        exact hu.notReady ((hI.ready _).mp hcur).1
  · -- The notice of a dead task.
    have hevent : ((A.dequeue s e .sender).tasks s).eventType = .kill := hdead.eventType
    rw [hevent]
    dsimp only
    rw [wp_bind]
    refine h₁.wp_transferKill (fun _ _ hne _ ht => .transfer hne (.killMsg _ _ _ ht))
      fun sent k₂ _ h₂ => ?_
    obtain ⟨f, hf, h₂⟩ : ∃ f : Task → Task, (f = id ∨ f = fun task =>
        { task with ipcMsgState := .empty }) ∧ Shows k₂ ((A.dequeue s e .sender).stores f) := by
      cases sent with
      | false =>
        refine ⟨id, Or.inl rfl, ?_⟩
        unfold Desk.stores Desk.mapTask
        rw [id_eq, upd_self]
        exact h₂
      | true => exact ⟨_, Or.inr rfl, h₂⟩
    have hstate : (((A.dequeue s e .sender).stores f).tasks s).state = .killed := by
      unfold Desk.stores
      rw [Desk.mapTask_tasks, Desk.dequeue_current, if_neg hne]
      exact hdead.state
    rw [wp_bind, wp_get, wp_ite, h₂.state, hstate, if_neg (by decide), wp_pure]
    exact ⟨_, h₂, .notice first hdead hf⟩

theorem Shows.wp_ipcReceive {blocking : Bool} {msg : Nat} (h : Shows k A) (hI : A.Inv N)
    (hp : A.Proper) (hu : A.User) (hN : N.notices → env.ndebug = true) :
    EndsAs env (ipcReceive blocking e msg) k
      ((A.stores (Task.longMsg msg)).abandon.ReceiveEffect blocking e)
      (Mishap env fun s => env.ndebug = false ∧ s = .assertFailed ∧ A.WrongEndpoint e) := by
  obtain ⟨D, hD⟩ : ∃ D, D = A.stores (Task.longMsg msg) := ⟨_, rfl⟩
  have hS : D.Inv N := hD ▸ hI.store hu hu.callee rfl hu.notReady
  have huS : D.User := hD ▸ hu.store hu.callee hu.notReady hu.alive
  have hpS : D.Proper := hD ▸ hp.mapTask
  have hcur : D.current = A.current := hD ▸ rfl
  obtain ⟨hB, -, huB, -⟩ := hS.abandon hpS huS
  have hcurB : D.abandon.current = A.current := Desk.abandon_current.trans hcur
  unfold EndsAs ipcReceive
  rw [wp_bind, wp_get, h.current]
  dsimp only
  rw [wp_bind]
  refine h.wp_checkNotWaiting hu.notQueued hu.callee ?_
  rw [wp_bind]
  refine h.wp_modifyTask (f := Task.longMsg msg) (fun _ => ⟨rfl, rfl, rfl, rfl, rfl⟩)
    fun k₁ h₁ => ?_
  replace h₁ : Shows k₁ D := hD ▸ h₁
  rw [← hD, wp_bind]
  refine h₁.wp_ipcAbandonCaller hS ?_ fun _ k₂ h₂ => ?_
  · intro hd hwrong
    exact Or.inr ⟨by decide, Or.inr ⟨hd, rfl, Desk.wrongEndpoint_stores.mp (hD ▸ hwrong)⟩⟩
  · rw [wp_bind, wp_get]
    cases hfirst : ((k₂.endpoints e).senderQueue).head with
    | some s => exact h₂.wp_ipcReceiveFrom hB huB hN (h₂.first .sender hfirst)
    | none =>
      have hempty := h₂.empty .sender hfirst
      cases blocking with
      | false =>
        show wp (do Caprese.setErrno .eBlocked; return false) env _ _ k₂
        rw [wp_bind, wp_setErrno, wp_pure]
        exact ⟨_, h₂.setErrno _, .refuse hempty rfl⟩
      | true =>
        rw [← hcurB]
        exact h₂.wp_block huB (f := Task.listens e) (fun _ => ⟨rfl, rfl, rfl, rfl, rfl⟩) rfl
          (.block hempty rfl)

/-! ### Calls and replies -/

theorem Shows.wp_ipcReply {msg : Nat} (h : Shows k A) (hI : A.Inv N) (hu : A.User) :
    EndsAs env (ipcReply e msg) k (A.ReplyEffect msg)
      (Mishap env fun s => env.ndebug = false ∧ s = .assertFailed ∧ A.WrongEndpoint e) := by
  unfold EndsAs ipcReply
  rw [wp_bind, wp_get, h.current]
  dsimp only
  rw [wp_bind, wp_get, h.callerTask]
  cases hc : (A.tasks A.current).callerTask with
  | none => exact ⟨A, h, .none hc⟩
  | some c =>
    -- The caller waits for this reply, and only its endpoint may be another one.
    obtain ⟨hcalls, hcallee⟩ := hI.caller_waits hc
    obtain ⟨-, hready, hne⟩ := hI.caller_apart hc
    dsimp only
    rw [wp_bind, wp_get, wp_bind]
    refine Shows.wp_kassert_true ((h.calleeTask c).trans hcallee) ?_
    rw [wp_bind]
    refine Shows.wp_kassert_true ((h.state c).trans hcalls.state) ?_
    rw [wp_bind]
    refine Shows.wp_kassert_true ((h.ipcState c).trans hcalls.ipcState) ?_
    rw [wp_bind]
    refine Shows.wp_kassert_true ((h.eventType c).trans hcalls.eventType) ?_
    rw [wp_bind]
    refine Shows.wp_kassert_true ((h.ipcMsgState c).trans hcalls.msgState) ?_
    rw [wp_bind, h.endpoint]
    refine Shows.wp_kassert_or (fun _ => ?_)
      fun hd hwrong => Or.inr ⟨by decide, Or.inr ⟨hd, rfl, c, hc, hwrong⟩⟩
    rw [wp_bind]
    refine h.wp_modifyTask (f := Task.longMsg msg) (fun _ => ⟨rfl, rfl, rfl, rfl, rfl⟩)
      fun k₁ h₁ => ?_
    rw [wp_bind]
    refine h₁.wp_transfer (fun _ _ hne ht => .transfer hne ht) fun sent k₂ h₂ => ?_
    cases sent with
    | false => exact ⟨_, h₂, .fail hc⟩
    | true =>
      rw [if_pos rfl, wp_bind]
      refine Shows.wp_modifyTask h₂ (f := Task.released .none)
        (fun _ => ⟨rfl, rfl, rfl, rfl, rfl⟩) fun k₃ h₃ => ?_
      rw [wp_bind]
      refine h₃.wp_modifyTask (f := fun task =>
          { task with callerTask := none, ipcMsgState := .empty })
        (fun _ => ⟨rfl, rfl, rfl, rfl, rfl⟩) fun k₄ h₄ => ?_
      rw [wp_bind]
      refine h₄.wp_pushReadyQueue hready ?_ fun k₅ h₅ => ?_
      · intro _ hs
        refine absurd ?_ hs
        rw [Desk.mapTask_tasks, if_neg (hne hu), Desk.mapTask_tasks, if_pos rfl]
        rfl
      · exact ⟨_, h₅, .done hc⟩

theorem Shows.wp_ipcCall {msg : Nat} (h : Shows k A) (hI : A.Inv N) (hu : A.User) :
    EndsAs env (ipcCall e msg) k ((A.stores (Task.callMsg e msg)).CallEffect e) (Mishap env M) := by
  -- The call is stored first: `D` is the desk with the current task as a caller.
  obtain ⟨D, hD⟩ : ∃ D, D = A.stores (Task.callMsg e msg) := ⟨_, rfl⟩
  have hS : D.Inv N := hD ▸ hI.store hu hu.callee rfl (show TaskState.waiting ≠ .ready by decide)
  have huS : D.User := hD ▸ hu.store hu.callee (show TaskState.waiting ≠ .ready by decide)
    (show TaskState.waiting ≠ .killed by decide)
  have hcur : D.current = A.current := hD ▸ rfl
  have hself : (D.tasks D.current).state = .waiting := by
    rw [hD]
    unfold Desk.stores
    rw [Desk.mapTask_tasks, Desk.mapTask_current, if_pos rfl]
    rfl
  unfold EndsAs ipcCall
  rw [wp_bind, wp_get, h.current]
  dsimp only
  rw [wp_bind]
  refine h.wp_modifyTask (f := Task.callMsg e msg) (fun _ => ⟨rfl, rfl, rfl, rfl, rfl⟩)
    fun k₁ h₁ => ?_
  replace h₁ : Shows k₁ D := hD ▸ h₁
  rw [← hD, ← hcur, wp_bind, wp_get]
  cases hfirst : ((k₁.endpoints e).receiverQueue).head with
  | none =>
    have hempty := h₁.empty .receiver hfirst
    dsimp only
    rw [wp_bind]
    refine h₁.wp_pushWaitingQueue huS.notQueued (fun _ hs => absurd hself hs) fun k₂ h₂ => ?_
    exact h₂.wp_resched fun k₃ h₃ => .switched h₃ (.block hempty)
  | some r =>
    have first : D.First e .receiver r := h₁.first .receiver hfirst
    have hne := huS.ne_of_mem first.mem
    dsimp only
    rw [wp_bind, wp_get, wp_bind]
    refine Shows.wp_kassert_true (h₁.head_sender hS first.mem) ?_
    rw [wp_bind]
    refine h₁.wp_transfer (fun _ _ hne ht => .transfer hne ht) fun sent k₂ h₂ => ?_
    cases sent with
    | false => exact ⟨D, h₂, .fail⟩
    | true =>
      rw [if_pos rfl, wp_bind]
      -- The receiver leaves the queue, the two are bound, and it becomes ready.
      refine Shows.wp_removeWaitingQueue (A := D.deliver r D.current) h₂ first.mem
        (fun _ hs => absurd (hS.receivers e r first.mem).state hs) fun k₃ h₃ => ?_
      rw [wp_bind]
      refine h₃.wp_modifyTask (f := fun task =>
          { task.received with callerTask := some D.current })
        (fun _ => ⟨rfl, rfl, rfl, rfl, rfl⟩) fun k₄ h₄ => ?_
      rw [wp_bind]
      refine h₄.wp_modifyTask (f := fun task => { task with calleeTask := some r })
        (fun _ => ⟨rfl, rfl, rfl, rfl, rfl⟩) fun k₅ h₅ => ?_
      rw [wp_bind]
      refine h₅.wp_pushReadyQueue (hS.not_ready_of_mem first.mem) ?_ fun k₆ h₆ => ?_
      · intro _ hs
        refine absurd ?_ hs
        rw [Desk.mapTask_tasks, if_neg hne, Desk.mapTask_tasks, if_pos rfl]
        rfl
      · exact h₆.wp_resched fun k₇ h₇ => .switched h₇ (.bind first)

/-- After a reply that succeeds the current task has no caller. -/
theorem Desk.ReplyEffect.callerTask {msg : Nat} (he : A.ReplyEffect msg (some true) D) :
    (D.tasks D.current).callerTask = Option.none := by
  cases he with
  | none hc => exact hc
  | done _ =>
    rw [Desk.pushReady_tasks, Desk.pushReady_current, Desk.mapTask_tasks, Desk.mapTask_current]
    exact congrArg Task.callerTask (if_pos rfl)

theorem Shows.wp_invokeReplyAndReceive {msg : Nat} (h : Shows k A) (hI : A.Inv N)
    (hp : A.Proper) (hu : A.User) (hN : N.notices → env.ndebug = true) :
    EndsAs env (invokeReplyAndReceive e msg) k (A.Effect N.notices (.replyAndReceive e msg))
      (Mishap env fun s => env.ndebug = false ∧ s = .assertFailed ∧ A.WrongEndpoint e) := by
  unfold EndsAs invokeReplyAndReceive
  rw [wp_bind]
  refine wp_mono (h.wp_ipcReply hI hu) (fun b k₁ hends => ?_) fun s k₁ hstop => ?_
  · obtain ⟨D, hD, hreply⟩ := hends
    obtain ⟨hID, hpD, huD⟩ := hreply.inv hI hp hu
    cases b with
    | false => exact ⟨D, hD, Or.inl ⟨hreply, rfl⟩⟩
    | true =>
      refine (hD.wp_ipcReceive hID hpD huD hN).mono (fun answer B hreceive => ?_) ?_
      · exact Or.inr ⟨D, hreply, hreceive⟩
      · rintro s k₂ (htransfer | ⟨-, -, c, hc, -⟩)
        · exact Or.inl htransfer
        · rw [hreply.callerTask] at hc
          exact absurd hc (by simp)
  · rcases hstop with ⟨rfl, D, -, hreply⟩ | ⟨hne, hwhy⟩
    · exact absurd hreply (by rintro ⟨⟩)
    · exact Or.inr ⟨hne, hwhy⟩

/-! ### Cancellation -/

theorem Shows.wp_ipcCancelOne {side : QueueSide} {Q : Unit → Kernel → Prop}
    {E : Stop → Kernel → Prop} (h : Shows k A) (hI : A.Inv N) (halive : A.Alive e)
    (first : A.First e side t)
    (hQ : ∀ k' D, Shows k' D → Desk.CancelTurn e side A D → Q () k') :
    wp (ipcCancelOne e side t) env Q E k := by
  have hwaiting : (A.tasks t).state = .waiting := by
    cases side with
    | receiver => exact (hI.receivers e t first.mem).state
    | sender => exact (hI.sends first.mem (halive t first.mem)).state
  unfold ipcCancelOne
  rw [wp_bind]
  refine h.wp_removeWaitingQueue first.mem (fun _ hs => absurd hwaiting hs) fun k₁ h₁ => ?_
  have hplain : Plain fun task => task.canceled side := by
    cases side <;> exact fun _ => ⟨rfl, rfl, rfl, rfl, rfl⟩
  have hready : ∀ task : Task, (task.canceled side).state = .ready := by
    cases side <;> exact fun _ => rfl
  rw [wp_bind]
  refine h₁.wp_modifyTask hplain fun k₂ h₂ => ?_
  refine h₂.wp_pushReadyQueue (hI.not_ready_of_mem first.mem) ?_ fun k₃ h₃ => ?_
  · intro _ hs
    refine absurd ?_ hs
    rw [Desk.mapTask_tasks, if_pos rfl]
    exact hready _
  · exact hQ k₃ _ h₃ ⟨t, first, rfl⟩

theorem Shows.wp_ipcCancelQueue {side : QueueSide} {Q : Unit → Kernel → Prop}
    {E : Stop → Kernel → Prop} (h : Shows k A) (hI : A.Inv N) (hp : A.Proper) (hu : A.User)
    (halive : A.Alive e) (hE : ∀ k', E .diverged k')
    (hQ : ∀ k' D, Shows k' D → Desk.CancelLoop e side A D → Q () k') :
    wp (ipcCancelQueue e side) env Q E k := by
  unfold ipcCancelQueue
  refine wp_kloop (fun _ k' => ∃ D, Shows k' D ∧
    Relation.ReflTransGen (Desk.CancelTurn e side) A D ∧
    D.Inv N ∧ D.Proper ∧ D.User ∧ D.Alive e) ⟨A, h, .refl, hI, hp, hu, halive⟩ hE ?_
  rintro - k₁ ⟨D, hD, hrun, hID, hpD, huD, haliveD⟩
  rw [wp_bind, wp_get]
  cases hfirst : ((k₁.endpoints e).queue side).head with
  | none => exact hQ k₁ D hD ⟨hrun, hD.empty side hfirst⟩
  | some t =>
    dsimp only
    rw [wp_bind]
    refine hD.wp_ipcCancelOne hID haliveD (hD.first side hfirst) fun k₂ B hB hturn => ?_
    exact ⟨B, hB, hrun.tail hturn, Desk.CancelTurn.inv hID hpD huD haliveD hturn⟩

theorem Shows.wp_ipcCancel {Q : Unit → Kernel → Prop} {E : Stop → Kernel → Prop}
    (h : Shows k A) (hI : A.Inv N) (hp : A.Proper) (hu : A.User)
    (halive : A.Alive e) (hE : ∀ k', E .diverged k')
    (hQ : ∀ k' D, Shows k' D → A.CancelEffect e D → Q () k') :
    wp (ipcCancel e) env Q E k := by
  unfold ipcCancel
  rw [wp_bind]
  refine h.wp_ipcCancelQueue hI hp hu halive hE fun k₁ D hD hloop => ?_
  obtain ⟨hID, hpD, huD, haliveD⟩ := hloop.inv hI hp hu halive
  exact hD.wp_ipcCancelQueue hID hpD huD haliveD hE fun k₂ B hB hloop' =>
    hQ k₂ B hB ⟨D, hloop, hloop'⟩

/-! ### The processor and the life of a task -/

theorem Shows.wp_yield (h : Shows k A) (hI : A.Inv N) (hu : A.User) :
    EndsAs env (Op.yield).serve k (A.Effect N.notices .yield) P := by
  show wp (do Caprese.yield; return true) env _ _ k
  unfold Caprese.yield
  rw [wp_bind, wp_bind, wp_get, h.current]
  dsimp only
  rw [wp_bind]
  refine h.wp_modifyTask (f := fun task => { task with state := .ready })
    (fun _ => ⟨rfl, rfl, rfl, rfl, rfl⟩) fun k₁ h₁ => ?_
  rw [wp_bind]
  refine h₁.wp_pushReadyQueue (fun hcur => hu.notReady ((hI.ready _).mp hcur).1) ?_
    fun k₂ h₂ => ?_
  · intro _ hs
    refine absurd ?_ hs
    rw [Desk.mapTask_tasks, if_pos rfl]
  · exact h₂.wp_resched fun k₃ h₃ => .switched h₃ ⟨rfl, rfl⟩

theorem Shows.wp_invokeSwitch (h : Shows k A) (hI : A.Inv N) (hu : A.User)
    (hidle : t ≠ A.idle) : EndsAs env (invokeSwitch t) k (A.SwitchEffect t) P := by
  unfold EndsAs invokeSwitch
  rw [wp_bind, wp_get, wp_ite, h.state]
  by_cases hready : (A.tasks t).state = .ready
  · have hmem : t ∈ A.ready := (hI.ready t).mpr ⟨hready, hidle⟩
    have hne : t ≠ A.current := fun heq => hu.notReady (heq ▸ hready)
    rw [if_neg (not_not.mpr hready), wp_bind]
    refine h.wp_removeReadyQueue hmem hready fun k₁ h₁ => ?_
    rw [wp_bind]
    refine h₁.wp_switchTask hne hready ?_ fun k₂ h₂ => .switched h₂ (.switch hready)
    intro hcur
    exact hu.notReady ((hI.ready _).mp (List.mem_of_mem_erase hcur)).1
  · rw [if_pos hready]
    exact ⟨A, h, .refuse hready⟩

theorem Shows.wp_suspendTask (h : Shows k A) (hI : A.Inv N) (hidle : t ≠ A.idle) :
    EndsAs env (do suspendTask t; return true) k (A.SuspendEffect t) P := by
  unfold EndsAs suspendTask
  rw [wp_bind, wp_bind, wp_get, h.state]
  have hplain : Plain fun task => { task with state := .suspended } :=
    fun _ => ⟨rfl, rfl, rfl, rfl, rfl⟩
  cases hstate : (A.tasks t).state with
  | running =>
    dsimp only
    rw [wp_bind]
    refine h.wp_modifyTask hplain fun k₁ h₁ => ?_
    rw [wp_bind, wp_get, wp_ite, h₁.current]
    by_cases heq : t = A.current
    · rw [if_pos (by exact heq)]
      refine h₁.wp_resched fun k₂ h₂ => .switched h₂ (.self hstate heq)
    · rw [if_neg (by exact heq)]
      exact ⟨_, h₁, .plain (Or.inl ⟨hstate, heq⟩)⟩
  | ready =>
    have hmem : t ∈ A.ready := (hI.ready t).mpr ⟨hstate, hidle⟩
    dsimp only
    rw [wp_bind]
    refine h.wp_removeReadyQueue hmem hstate fun k₁ h₁ => ?_
    exact h₁.wp_modifyTask hplain fun k₂ h₂ => ⟨_, h₂, .ready hstate⟩
  | waiting =>
    exact h.wp_modifyTask hplain fun k₁ h₁ => ⟨_, h₁, .plain (Or.inr hstate)⟩
  | suspended => exact ⟨A, h, .skip (Or.inl hstate)⟩
  | killed => exact ⟨A, h, .skip (Or.inr (Or.inl hstate))⟩
  | unused => exact ⟨A, h, .skip (Or.inr (Or.inr hstate))⟩

theorem Shows.wp_resumeTask (h : Shows k A) (hI : A.Inv N) :
    EndsAs env (do resumeTask t; return true) k (A.ResumeEffect t) P := by
  unfold EndsAs resumeTask
  rw [wp_bind, wp_bind, wp_get, wp_ite, h.state]
  by_cases hstate : (A.tasks t).state = .suspended
  · have hready : t ∉ A.ready := by
      intro ht
      have hs := ((hI.ready t).mp ht).1
      rw [hstate] at hs
      exact absurd hs (by decide)
    rw [if_pos hstate, wp_bind]
    refine h.wp_modifyTask (f := fun task => { task with state := .ready })
      (fun _ => ⟨rfl, rfl, rfl, rfl, rfl⟩) fun k₁ h₁ => ?_
    refine h₁.wp_pushReadyQueue hready ?_ fun k₂ h₂ => ⟨_, h₂, .wake hstate⟩
    intro _ hs
    refine absurd ?_ hs
    rw [Desk.mapTask_tasks, if_pos rfl]
  · rw [if_neg hstate]
    exact ⟨A, h, .skip hstate⟩

theorem Shows.wp_setKillNotify (h : Shows k A) :
    EndsAs env (do Caprese.setKillNotify t e; return true) k (A.NotifyEffect t e) P := by
  unfold EndsAs Caprese.setKillNotify
  rw [wp_bind, wp_bind, wp_get, wp_ite, h.state]
  by_cases hstate : (A.tasks t).state = .unused
  · rw [if_pos hstate]
    exact ⟨A, h.setErrno _, .skip hstate⟩
  · rw [if_neg hstate]
    exact h.wp_modifyTask (f := fun task => { task with killNotify := some e })
      (fun _ => ⟨rfl, rfl, rfl, rfl, rfl⟩) fun k₁ h₁ => ⟨_, h₁, .set hstate⟩

/-- Where `kill_task` takes a task out of the queue that it waits in. -/
theorem Shows.wp_leaveEndpoint_of_mem {side : QueueSide} {Q : Unit → Kernel → Prop}
    {E : Stop → Kernel → Prop} (h : Shows k A) (hI : A.Inv N) (hmem : t ∈ A.waiting e side)
    (hstate : (A.tasks t).state = .waiting) (hipc : (A.tasks t).ipcState ≠ .calling)
    (hQ : ∀ k', Shows k' (A.dequeue t e side) → Q () k') :
    (A.tasks t).endpoint = some e ∧ wp (leaveEndpoint t e) env Q E k := by
  have hremove : wp (removeWaitingQueue e side t) env Q E k :=
    h.wp_removeWaitingQueue hmem (fun _ hs => absurd hstate hs) hQ
  unfold leaveEndpoint
  rw [wp_bind, wp_get, h.ipcState]
  cases side with
  | receiver =>
    have hr := hI.receivers e t hmem
    rw [hr.ipcState]
    exact ⟨hr.endpoint, hremove⟩
  | sender =>
    have hs := hI.sends hmem (by rw [hstate]; decide)
    rcases hs.kind with hk | hk
    · rw [hk.1]
      exact ⟨hs.endpoint, hremove⟩
    · exact absurd hk.1 hipc

/-- The switch of `kill_task`: it dereferences null where the task is a caller that nobody has
received. -/
theorem Shows.wp_leaveQueues {Q : Unit → Kernel → Prop} {E : Stop → Kernel → Prop}
    (h : Shows k A) (hI : A.Inv N) (hidle : t ≠ A.idle)
    (hwaiting : (A.tasks t).state = .waiting → (A.tasks t).ipcState = .calling ∨ A.Queued t)
    (hE : (A.tasks t).state = .waiting → (A.tasks t).ipcState = .calling →
      (A.tasks t).endpoint ≠ none → (A.tasks t).calleeTask = none → E .nullDeref k)
    (hQ : ∀ k', A.Found t → Shows k' (A.unlink t) → Q () k') :
    wp (leaveQueues t) env Q E k := by
  unfold leaveQueues
  rw [wp_bind, wp_get, h.state]
  cases hstate : (A.tasks t).state with
  | waiting =>
    dsimp only
    rw [wp_bind, wp_get, h.endpoint]
    cases hendpoint : (A.tasks t).endpoint with
    | none =>
      have hunlink : A.unlink t = A := by
        unfold Desk.unlink
        rw [hstate]
        dsimp only
        rw [hendpoint]
      refine hQ k (fun _ e he => ?_) (hunlink.symm ▸ h)
      rw [hendpoint] at he
      exact absurd he (by simp)
    | some e =>
      show wp (leaveEndpoint t e) env Q E k
      by_cases hipc : (A.tasks t).ipcState = .calling
      · unfold leaveEndpoint
        rw [wp_bind, wp_get, h.ipcState, hipc]
        dsimp only
        rw [wp_bind, wp_get, h.calleeTask, wp_bind, wp_deref]
        cases hcallee : (A.tasks t).calleeTask with
        -- `t->callee_task` is dereferenced, and nobody has received the call.
        | none => exact hE hstate hipc (by rw [hendpoint]; simp) hcallee
        | some s =>
          have hs := (hI.callee t s hcallee (by rw [hstate]; decide)).2
          rw [Desk.unlink_of_caller hI hs] at hQ
          dsimp only
          rw [wp_bind, wp_get, wp_bind]
          refine Shows.wp_kassert_true ((h.callerTask s).trans hs) ?_
          exact h.wp_modifyTask (fun _ => ⟨rfl, rfl, rfl, rfl, rfl⟩)
            fun k₁ h₁ => hQ k₁ (fun _ _ _ => Or.inr ⟨s, hs⟩) h₁
      -- A sender or a receiver is on a queue, and that of its endpoint.
      · obtain ⟨e', side, hmem⟩ := (hwaiting hstate).resolve_left hipc
        rw [Desk.unlink_of_mem hI hmem hstate hipc] at hQ
        obtain ⟨he', hleave⟩ := h.wp_leaveEndpoint_of_mem hI hmem hstate hipc
          fun k₁ h₁ => hQ k₁ (fun _ _ _ => Or.inl ⟨hipc, e', side, hmem⟩) h₁
        obtain rfl : e' = e := Option.some.inj (he'.symm.trans hendpoint)
        exact hleave
  | ready =>
    have hunlink : A.unlink t = A.dropReady t := by
      unfold Desk.unlink
      rw [hstate]
    rw [hunlink] at hQ
    refine h.wp_removeReadyQueue ((hI.ready t).mpr ⟨hstate, hidle⟩) hstate
      fun k₁ h₁ => hQ k₁ (fun hw => ?_) h₁
    rw [hstate] at hw
    exact absurd hw (by decide)
  | _ =>
    have hunlink : A.unlink t = A := by
      unfold Desk.unlink
      rw [hstate]
    refine hQ k (fun hw => ?_) (hunlink.symm ▸ h)
    rw [hstate] at hw
    exact absurd hw (by decide)

/-- What stops a kill outside the transfer of the notice: that the task is the root task, that it
is none, that nobody waits for its notice, or that it is a caller that nobody has received. -/
def Desk.KillBlame (A : Desk) (env : Env) (t : TaskPtr) (s : Stop) : Prop :=
  s = .panic ∧ (A.tasks t).tid % CONFIG_MAX_TASKS = 1 ∨
  env.ndebug = false ∧ s = .assertFailed ∧ ((A.tasks t).state = .unused ∨
    ∃ e, (A.tasks t).killNotify = some e) ∨
  s = .nullDeref ∧ (A.tasks t).state = .waiting ∧ (A.tasks t).ipcState = .calling ∧
    (A.tasks t).endpoint ≠ none ∧ (A.tasks t).calleeTask = none

/-- What stops a kill. The transfer of the notice dereferences no null pointer. -/
def Desk.KillMishap (A : Desk) (env : Env) (t : TaskPtr) (s : Stop) (k : Kernel) : Prop :=
  s ≠ .nullDeref ∧ TransferStops env s k ∨ A.KillBlame env t s

theorem Shows.wp_killTaskTail (h : Shows k A)
    (hother : t ≠ A.current → R (some true) A) (hself : t = A.current → R none
      (A.resched .unreachable))
    (hroot : (A.tasks t).tid % CONFIG_MAX_TASKS = 1 → P .panic k) :
    EndsAs env (do killTaskTail t; return true) k R P := by
  unfold EndsAs killTaskTail checkNotRoot
  rw [wp_bind, wp_bind, wp_bind, wp_get, wp_ite, h.tid]
  split
  · rename_i htid
    exact Or.inr ⟨by decide, hroot htid⟩
  · rw [wp_pure, wp_bind, wp_get, wp_ite, h.current]
    split
    · rename_i heq
      exact h.wp_resched fun k₁ h₁ => .switched h₁ (hself heq)
    · rename_i hne
      exact ⟨A, h, hother hne⟩

/-- The notice of a dead task goes to the first receiver, or waits for one where no assertion
forbids it, and gives the processor away. -/
theorem Shows.wp_ipcSendKillNotify {Q : Unit → Kernel → Prop} {E : Stop → Kernel → Prop}
    (h : Shows k A) (hI : A.Inv N) (hdead : (A.tasks t).state = .killed)
    (hq : A.waiting e .receiver = [] → ¬ A.Queued t)
    (hT : ∀ r s k', A.First e .receiver r → s ≠ .switched → s ≠ .nullDeref →
      ipcTransferKillMsg r t env k = .stop s k' → E s k')
    (hP : env.ndebug = false → A.waiting e .receiver = [] → ∀ k', E .assertFailed k')
    (htold : ∀ r sent k₁ k', A.First e .receiver r → ipcTransferKillMsg r t env k = .ok sent k₁ →
      Shows k' (((A.dequeue r e .receiver).wake r Task.received).resched (.killNotify t)) →
      E .switched k')
    (hqueued : env.ndebug = true → A.waiting e .receiver = [] → ∀ k', Shows k' (((A.mapTask t
      fun task => { task with ipcState := .sending, eventType := .kill, endpoint := some e }).enqueue
        t e .sender).resched (.killNotify t)) → E .switched k') :
    wp (ipcSendKillNotify e t) env Q E k := by
  unfold ipcSendKillNotify
  rw [wp_bind, wp_get, wp_bind]
  refine Shows.wp_kassert_true ((h.state t).trans hdead) ?_
  rw [wp_bind, wp_get]
  cases hfirst : ((k.endpoints e).receiverQueue).head with
  | none =>
    have hempty := h.empty .receiver hfirst
    dsimp only
    rw [wp_bind]
    refine h.wp_modifyTask (f := fun task =>
        { task with ipcState := .sending, eventType := .kill, endpoint := some e })
      (fun _ => ⟨rfl, rfl, rfl, rfl, rfl⟩) fun k₁ h₁ => ?_
    rw [wp_bind]
    cases hd : env.ndebug with
    | false =>
      -- A dead task is not waiting, which `push_waiting_queue` asserts.
      unfold pushWaitingQueue
      rw [wp_bind, wp_get, wp_bind, h₁.state, Desk.mapTask_tasks, if_pos rfl]
      refine Shows.wp_kassert_or (fun hok => ?_) fun _ _ => hP hd hempty _
      rcases hok with hd' | hwaiting
      · rw [hd] at hd'
        exact absurd hd' (by decide)
      · exact absurd (hdead.symm.trans hwaiting) (by decide)
    | true =>
      refine h₁.wp_pushWaitingQueue (hq hempty) ?_ fun k₂ h₂ => ?_
      · intro hd'
        rw [hd] at hd'
        exact absurd hd' (by decide)
      · exact h₂.wp_resched fun k₃ h₃ => hqueued hd hempty k₃ h₃
  | some r =>
    have first : A.First e .receiver r := h.first .receiver hfirst
    have hreceives := hI.receivers e r first.mem
    dsimp only
    rw [wp_bind, wp_get, wp_bind]
    refine Shows.wp_kassert_true (h.head_sender hI first.mem) ?_
    rw [wp_bind]
    refine h.wp_transferKill (fun s k₁ => hT r s k₁ first) fun told k₁ hrun h₁ => ?_
    obtain ⟨f, hf, hstate, h₁⟩ : ∃ f : Task → Task, (∀ task, (f task).received = task.received) ∧
        (∀ task, (f task).state = task.state) ∧ Shows k₁ (A.mapTask r f) := by
      cases told with
      | false =>
        refine ⟨id, fun _ => rfl, fun _ => rfl, ?_⟩
        unfold Desk.mapTask
        rw [id_eq, upd_self]
        exact h₁
      | true =>
        exact ⟨fun task => { task with ipcMsgState := .empty }, fun _ => rfl, fun _ => rfl, h₁⟩
    rw [wp_bind]
    refine h₁.wp_removeWaitingQueue (e := e) (s := .receiver) first.mem ?_ fun k₂ h₂ => ?_
    · intro _ hs
      refine absurd ?_ hs
      rw [Desk.mapTask_tasks, if_pos rfl, hstate]
      exact hreceives.state
    · rw [wp_bind]
      refine h₂.wp_modifyTask (f := Task.received) (fun _ => ⟨rfl, rfl, rfl, rfl, rfl⟩)
        fun k₃ h₃ => ?_
      -- Whether the message was filled in makes no difference once the receiver is woken up.
      have heq : ((A.mapTask r f).dequeue r e .receiver).mapTask r Task.received
          = (A.dequeue r e .receiver).mapTask r Task.received := by
        show ((A.mapTask r f).mapTask r Task.received).dequeue r e .receiver = _
        rw [Desk.mapTask_mapTask, funext hf]
        rfl
      rw [heq] at h₃
      rw [wp_bind]
      refine h₃.wp_pushReadyQueue (hI.not_ready_of_mem first.mem) ?_ fun k₄ h₄ => ?_
      · intro _ hs
        refine absurd ?_ hs
        rw [Desk.mapTask_tasks, if_pos rfl]
        rfl
      · exact h₄.wp_resched fun k₅ h₅ => htold r told _ k₅ first hrun h₅

theorem Shows.wp_killTask {i : Int} (h : Shows k A) (hI : A.Inv N) (hp : A.Proper)
    (hidle : t ≠ A.idle) (ho : A.Orderly (.kill t i)) (hdeaths : N.deaths) (hN : env.ndebug = true → N.notices) :
    EndsAs env (do killTask t i; return true) k (A.Effect N.notices (.kill t i))
      (A.KillMishap env t) := by
  obtain ⟨hwaiting, hagain⟩ := ho
  have hnotify : ((A.bury t i).tasks t).killNotify = (A.tasks t).killNotify := Desk.bury_tasks.2.2.1
  have hdead : ((A.bury t i).tasks t).state = .killed := by
    rw [Desk.bury_tasks.1, if_pos rfl]
  unfold EndsAs killTask
  rw [wp_bind, wp_bind, wp_get, wp_bind, h.state]
  refine Shows.wp_kassert_or (fun _ => ?_) fun hd hunused =>
    Or.inr ⟨by decide, Or.inr (Or.inr (Or.inl ⟨hd, rfl, Or.inl (not_not.mp hunused)⟩))⟩
  rw [wp_bind]
  -- Off the queues first, then dead, then the notice, then the rest.
  refine h.wp_leaveQueues hI hidle hwaiting (fun hw hipc he hcallee =>
    Or.inr ⟨by decide, Or.inr (Or.inr (Or.inr ⟨rfl, hw, hipc, he, hcallee⟩))⟩) fun k₁ hfound h₁ => ?_
  obtain ⟨hB, hpB, hqB⟩ := hI.bury (i := i) hdeaths hp hidle hfound
  rw [wp_bind]
  refine h₁.wp_modifyTask (f := fun task => { task with state := .killed, exitStatus := i })
    (fun _ => ⟨rfl, rfl, rfl, rfl, rfl⟩) fun k₂ h₂ => ?_
  replace h₂ : Shows k₂ (A.bury t i) := h₂
  unfold notifyKill
  rw [wp_bind, wp_bind, wp_get, h₂.killNotify]
  cases hn : ((A.bury t i).tasks t).killNotify with
  | none =>
    have htid' : ((A.bury t i).tasks t).tid = (A.tasks t).tid := Desk.bury_tasks.2.2.2
    have htail : EndsAs env (do killTaskTail t; return true) k₂ (A.Effect N.notices (.kill t i))
        (A.KillMishap env t) := h₂.wp_killTaskTail (fun hne => ⟨hfound, .other hn hne⟩)
      (fun heq => ⟨hfound, .self hn heq⟩)
      fun htid => Or.inr (Or.inl ⟨rfl, htid' ▸ htid⟩)
    unfold EndsAs at htail
    rw [wp_bind] at htail
    exact htail
  | some e =>
    have hq : (A.bury t i).waiting e .receiver = [] → ¬ (A.bury t i).Queued t :=
      Desk.bury_not_queued hqB hagain (hnotify.symm.trans hn)
    have hnotify' : (A.tasks t).killNotify = some e := hnotify.symm.trans hn
    refine h₂.wp_ipcSendKillNotify hB hdead hq
      (fun r s k₃ _ hne hnull hrun => Or.inr ⟨hne, Or.inl ⟨hnull, .killMsg _ _ _ hrun⟩⟩)
      (fun hd _ _ => Or.inr ⟨by decide, Or.inr (Or.inr (Or.inl ⟨hd, rfl, Or.inr ⟨e, hnotify'⟩⟩))⟩)
      (fun r sent k₃ k₄ first _ h₄ => .switched h₄ ⟨hfound, .told hn first⟩)
      fun hd hempty k₃ h₃ => .switched h₃ ⟨hfound, .queued hn hempty (hN hd)⟩

/-! ### The step -/

/-- Why an operation may stop the kernel outside the transfer of a message. -/
def Desk.Blame (A : Desk) (env : Env) : Op → Stop → Prop
  | .receive _ e _, s | .reply e _, s | .replyAndReceive e _, s =>
    env.ndebug = false ∧ s = .assertFailed ∧ A.WrongEndpoint e
  | .cancel _, s => s = .diverged
  | .kill t _, s => A.KillBlame env t s
  | _, _ => False

/-- An orderly operation does what its effect says. -/
theorem Shows.wp_serve {op : Op} (h : Shows k A) (hI : A.Inv N) (hp : A.Proper) (hu : A.User)
    (hN : N.notices → env.ndebug = true) (hkill : ∀ t i, op = .kill t i → N.deaths ∧ (env.ndebug = true → N.notices))
    (ho : A.Orderly op) (htarget : op.target ≠ some A.idle) :
    EndsAs env op.serve k (A.Effect N.notices op)
      (Mishap env (A.Blame env op)) := by
  cases op with
  | sendShort blocking e args => exact h.wp_ipcSendShort hI hu
  | sendLong blocking e msg => exact h.wp_ipcSendLong hI hu
  | receive blocking e msg => exact h.wp_ipcReceive hI hp hu hN
  | call e msg => exact h.wp_ipcCall hI hu
  | reply e msg => exact h.wp_ipcReply hI hu
  | replyAndReceive e msg => exact h.wp_invokeReplyAndReceive hI hp hu hN
  | cancel e =>
    show wp (do ipcCancel e; return true) env _ _ k
    rw [wp_bind]
    exact h.wp_ipcCancel hI hp hu ho (fun _ => Or.inr ⟨by decide, Or.inr rfl⟩)
      fun k₁ D hD hcancel => ⟨D, hD, rfl, hcancel⟩
  | yield => exact h.wp_yield hI hu
  | switchTo t => exact h.wp_invokeSwitch hI hu fun heq => htarget (heq ▸ rfl)
  | suspend t => exact h.wp_suspendTask hI fun heq => htarget (heq ▸ rfl)
  | resume t => exact h.wp_resumeTask hI
  | kill t i =>
    obtain ⟨hdeaths, hnotices⟩ := hkill t i rfl
    exact (h.wp_killTask hI hp (fun heq => htarget (heq ▸ rfl)) ho hdeaths hnotices).mono
      (fun _ _ => id) fun s _ => Or.imp_left And.right
  | setKillNotify t e => exact h.wp_setKillNotify

/-- The end of an operation that blocked. -/
theorem Shows.wp_ipcSendTail (h : Shows k A)
    (hcontext : (A.tasks A.current).context = .ipcSend ∨ (A.tasks A.current).context = .ipcCall)
    (hresumable : (A.tasks A.current).Resumable) :
    EndsAs env ipcSendTail k A.GoOnEffect P := by
  have hgood : ((A.tasks A.current).ipcState = .none ∨ (A.tasks A.current).ipcState = .canceled) ∧
      (A.tasks A.current).eventType = .none ∧ (A.tasks A.current).ipcMsgState = .empty := by
    unfold Task.Resumable at hresumable
    rcases hcontext with hc | hc <;>
    · rw [hc] at hresumable
      exact hresumable
  have hanswer : Ends A.GoOnEffect (some (decide ((A.tasks A.current).ipcState = .none))) k :=
    ⟨A, h, .send (hcontext.imp_right Or.inl)⟩
  unfold EndsAs ipcSendTail
  rw [wp_bind, wp_get, wp_bind, wp_get, h.current]
  dsimp only
  rw [wp_bind, h.ipcState]
  refine Shows.wp_kassert_true hgood.1 ?_
  rw [wp_bind, h.eventType]
  refine Shows.wp_kassert_true hgood.2.1 ?_
  rw [wp_bind, h.ipcMsgState]
  refine Shows.wp_kassert_true hgood.2.2 ?_
  rw [wp_ite]
  split
  · obtain ⟨D, hD, hR⟩ := hanswer
    exact ⟨D, hD.setErrno _, hR⟩
  · exact hanswer

theorem Shows.wp_ipcReceiveTail (h : Shows k A)
    (hcontext : (A.tasks A.current).context = .ipcReceive)
    (hresumable : (A.tasks A.current).Resumable) :
    EndsAs env ipcReceiveTail k A.GoOnEffect P := by
  unfold Task.Resumable at hresumable
  rw [hcontext] at hresumable
  have hanswer : Ends A.GoOnEffect (some (decide ((A.tasks A.current).ipcState = .none))) k :=
    ⟨A, h, .send (Or.inr (Or.inr hcontext))⟩
  unfold EndsAs ipcReceiveTail
  rw [wp_bind, wp_get, wp_bind, wp_get, h.current]
  dsimp only
  rw [wp_bind, h.ipcState]
  refine Shows.wp_kassert_true hresumable.1 ?_
  rw [wp_bind, h.ipcMsgState]
  refine Shows.wp_kassert_true hresumable.2 ?_
  rw [wp_ite]
  split
  · obtain ⟨D, hD, hR⟩ := hanswer
    exact ⟨D, hD.setErrno _, hR⟩
  · exact hanswer

/-- The loop of `idle`: it gives the processor to the first ready task, or turns forever. -/
theorem Shows.wp_idle (h : Shows k A) (hI : A.Inv N) (hidle : A.current = A.idle) :
    EndsAs env (do Caprese.idle; stop .diverged) k A.GoOnEffect
      (fun s _ => s = .panic ∨ s = .diverged) := by
  unfold EndsAs Caprese.idle popReadyTask
  rw [wp_bind, wp_bind, wp_bind, wp_get]
  cases hfirst : k.readyQueue.head with
  | none => exact Or.inr ⟨by decide, Or.inr rfl⟩
  | some t =>
    have first : A.ready.head? = some t := h.ready.head.symm.trans hfirst
    have hready := (hI.ready t).mp (List.mem_of_head? first)
    dsimp only
    rw [wp_bind]
    refine h.wp_removeReadyQueue (List.mem_of_head? first) hready.1 fun k₁ h₁ => ?_
    rw [wp_pure]
    dsimp only
    rw [wp_bind, wp_modify, wp_bind]
    refine (h₁.run t).wp_modifyTask (f := fun task => { task with state := .running })
      (fun _ => ⟨rfl, rfl, rfl, rfl, rfl⟩) fun k₂ h₂ => ?_
    replace h₂ : Shows k₂ (A.dispatch t) := h₂
    rw [wp_bind, wp_get]
    unfold switchContext
    rw [wp_bind, h₂.idle]
    refine h₂.wp_modifyTask (f := fun task => { task with context := .idle })
      (fun _ => ⟨rfl, rfl, rfl, rfl, rfl⟩) fun k₃ h₃ => ?_
    have hsame : (A.dispatch t).tasks A.idle = A.tasks A.idle := by
      unfold Desk.dispatch
      rw [Desk.mapTask_tasks, if_neg (Ne.symm hready.2)]
      rfl
    have hkeep : ({ A.tasks A.idle with context := .idle } : Task) = A.tasks A.idle := by
      rw [← hI.idle.1]
    have heq : (A.dispatch t).mapTask (A.dispatch t).idle
        (fun task => { task with context := .idle }) = A.dispatch t := by
      refine Desk.mapTask_self _ _ _ ?_
      show ({ (A.dispatch t).tasks A.idle with context := .idle } : Task) = _
      rw [show (A.dispatch t).idle = A.idle from rfl, hsame]
      exact hkeep
    rw [heq] at h₃
    rw [wp_stop]
    exact .switched h₃ (Desk.GoOnEffect.dispatch hidle first)

/-- The task that was switched in does what its effect says. It may be one that panics behind
the notice of the root task, or one whose place is unreachable. -/
theorem Shows.wp_goOn (h : Shows k A) (hI : A.Inv N) (hs : A.SwitchedIn) :
    EndsAs env k.goOn k A.GoOnEffect (fun s _ => s = .panic ∨ s = .diverged) := by
  have hrunning : (A.tasks A.current).context ≠ .idle → (A.tasks A.current).state = .running ∧
      (A.tasks A.current).Resumable := by
    intro hc
    refine hs.resolve_left fun heq => ?_
    rw [heq] at hc
    exact hc hI.idle.1
  unfold EndsAs Kernel.goOn
  rw [h.current, h.context]
  cases hc : (A.tasks A.current).context with
  | returnToUserMode => exact ⟨A, h, .plain (by rw [hc]; decide)⟩
  | yielded => exact ⟨A, h, .plain (by rw [hc]; decide)⟩
  | ipcSend => exact h.wp_ipcSendTail (Or.inl hc) (hrunning (by rw [hc]; decide)).2
  | ipcCall => exact h.wp_ipcSendTail (Or.inr hc) (hrunning (by rw [hc]; decide)).2
  | ipcReceive => exact h.wp_ipcReceiveTail hc (hrunning (by rw [hc]; decide)).2
  | switchTask =>
    show wp (do switchTaskTail; return true) env _ _ k
    unfold switchTaskTail
    rw [wp_bind, wp_bind, wp_get, wp_bind, wp_get, h.current, h.state]
    refine Shows.wp_kassert_true (hrunning (by rw [hc]; decide)).1 ?_
    exact ⟨A, h, .plain (by rw [hc]; decide)⟩
  | killNotify t =>
    refine h.wp_killTaskTail (fun _ => .plain (by rw [hc]; simp)) (fun heq => .buried ?_)
      fun _ => Or.inl rfl
    rw [hc, heq]
  | unreachable => exact Or.inr ⟨by decide, Or.inl rfl⟩
  | idle =>
    refine h.wp_idle hI (hs.resolve_right fun hr => ?_)
    have hresumable := hr.2
    unfold Task.Resumable at hresumable
    rw [hc] at hresumable
    exact hresumable

end Rules

end Caprese

import Caprese.Proofs.Rendezvous

/-!
# `Caprese.Proofs.Answers`: the assertions of message passing

Of the assertions in `ipc.cpp` a run of endpoint calls meets one that can fail: `ipc_receive`
and `ipc_reply` take it for granted that a caller without an answer called through the endpoint
at hand. A task that holds a call and turns to another endpoint stops the kernel
(`endpoint_calls_abort_iff`).
-/

set_option autoImplicit false

namespace Caprese

open Lib Prog

/-- The system calls on endpoints. -/
def Op.IsEndpoint : Op → Prop
  | .sendShort .. | .sendLong .. | .receive .. | .call .. | .reply .. | .replyAndReceive .. => True
  | _ => False

/-- A run of endpoint calls. -/
def EndpointOnly (_ : Kernel) : Move → Prop
  | .invoke op => op.IsEndpoint
  | _ => True

instance : (op : Op) → Decidable op.IsEndpoint
  | .sendShort .. | .sendLong .. | .receive .. | .call .. | .reply .. | .replyAndReceive .. =>
    isTrue trivial
  | .cancel _ | .yield | .switchTo _ | .suspend _ | .resume _ | .kill .. | .setKillNotify .. =>
    isFalse not_false

instance (k : Kernel) (op : Op) : Decidable (EndpointOnly k (.invoke op)) :=
  inferInstanceAs (Decidable op.IsEndpoint)

/-- A task that receives or replies while it holds a call names the endpoint of the call. -/
def AnswersAt (k : Kernel) : Op → Prop
  | .receive _ e _ | .reply e _ | .replyAndReceive e _ =>
    ∀ c, (k.tasks k.currentTask).callerTask = some c → (k.tasks c).endpoint = some e
  | _ => True

/-- An assertion of the operation fails, at its entry: nothing is stored but the message of the
current task. -/
def AbortsItself (env : Env) (k : Kernel) (op : Op) : Prop :=
  ∃ k', op.serve env k = .stop .assertFailed k' ∧
    (k' = k ∨ ∃ msg, k' = k.mapTask k.currentTask (Task.longMsg msg))

theorem EndpointOnly.admits {env : Env} : Admits env ⟨False, False⟩ EndpointOnly where
  notices h := absurd h id
  orderly _ A op _ hI hop := by
    cases op <;> trivial
  kills _ _ _ hop := absurd hop id

section Assertions

variable {cfg : Config} {k : Kernel} {A : Desk} {N : Desk.Allows} {e : EndpointPtr} {msg : Nat}

theorem Shows.receive_wrong {blocking : Bool} (h : Shows k A) (hI : A.Inv N) (hu : A.User)
    (hwrong : A.WrongEndpoint e) :
    AbortsItself (.debug cfg) k (.receive blocking e msg) := by
  have hS : (A.stores (Task.longMsg msg)).Inv N := hI.store hu hu.callee rfl hu.notReady
  have hwp : wp (ipcReceive blocking e msg) (.debug cfg) (fun _ _ => False) (fun s k' =>
      s = .assertFailed ∧ k' = k.mapTask k.currentTask (Task.longMsg msg)) k := by
    unfold ipcReceive
    rw [wp_bind, wp_get]
    dsimp only
    rw [wp_bind]
    refine h.wp_checkNotWaiting (h.current ▸ hu.notQueued) (h.current ▸ hu.callee) ?_
    rw [wp_bind]
    unfold modifyTask
    rw [wp_modify, wp_bind]
    have h₁ : Shows (k.mapTask k.currentTask (Task.longMsg msg)) (A.stores (Task.longMsg msg)) := by
      rw [h.current]
      exact h.mapTask fun _ => ⟨rfl, rfl, rfl, rfl, rfl⟩
    refine h₁.wp_ipcAbandonCaller hS (fun _ _ => ⟨rfl, rfl⟩) fun hright k₂ h₂ => ?_
    rcases hright with hd | hright
    · exact absurd (show false = true from hd) (by decide)
    · exact absurd (Desk.wrongEndpoint_stores.mpr hwrong) hright
  obtain ⟨s, k', hrun, rfl, hk'⟩ := wp_stops hwp
  exact ⟨k', hrun, Or.inr ⟨msg, hk'⟩⟩

theorem Shows.reply_wrong (h : Shows k A) (hI : A.Inv N) (hwrong : A.WrongEndpoint e) :
    wp (ipcReply e msg) (.debug cfg) (fun _ _ => False)
      (fun s k' => s = .assertFailed ∧ k' = k) k := by
  obtain ⟨c, hc, hne⟩ := hwrong
  obtain ⟨hcalls, hcallee⟩ := hI.caller_waits hc
  unfold ipcReply
  rw [wp_bind, wp_get, h.current]
  dsimp only
  rw [wp_bind, wp_get, h.callerTask, hc]
  dsimp only
  rw [wp_bind, wp_get, wp_bind]
  refine Shows.wp_kassert_true ((h.calleeTask c).trans hcallee) ?_
  rw [wp_bind]
  refine Shows.wp_kassert_true ((h.state c).trans hcalls.state) ?_
  rw [wp_bind]
  refine Shows.wp_kassert_true ((h.ipcState c).trans hcalls.ipcState) ?_
  rw [wp_bind]
  refine Shows.wp_kassert_true ((h.eventType c).trans hcalls.eventType) ?_
  rw [wp_bind]
  refine Shows.wp_kassert_true ((h.ipcMsgState c).trans hcalls.msgState) ?_
  rw [wp_bind, h.endpoint]
  refine Shows.wp_kassert_or (fun hor => ?_) fun _ _ => ⟨rfl, rfl⟩
  rcases hor with hd | heq
  · exact absurd (show false = true from hd) (by decide)
  · exact absurd heq hne

/-- What the states show of the endpoint of a call. -/
theorem Shows.answersAt (h : Shows k A) (e : EndpointPtr) :
    (∀ c, (k.tasks k.currentTask).callerTask = some c → (k.tasks c).endpoint = some e) ↔
      ¬ A.WrongEndpoint e := by
  rw [h.current]
  constructor
  · rintro hall ⟨c, hc, hne⟩
    rw [← h.callerTask] at hc
    exact hne (h.endpoint c ▸ hall c hc)
  · intro hright c hc
    by_contra hne
    rw [h.callerTask] at hc
    rw [h.endpoint] at hne
    exact hright ⟨c, hc, hne⟩

end Assertions

/-- An operation that answers at another endpoint stops at its first assertion on the caller. -/
theorem Shows.aborts {cfg : Config} {k : Kernel} {A : Desk} {N : Desk.Allows} (h : Shows k A)
    (hI : A.Inv N) (hu : A.User) {op : Op} (hwrong : ¬ AnswersAt k op) :
    AbortsItself (.debug cfg) k op := by
  cases op with
  | receive blocking e msg =>
    exact h.receive_wrong hI hu (not_not.mp ((h.answersAt e).not.mp hwrong))
  | reply e msg =>
    have hstop : wp (ipcReply e msg) (.debug cfg) (fun _ _ => False)
        (fun s k' => s = .assertFailed ∧ k' = k) k :=
      h.reply_wrong hI (not_not.mp ((h.answersAt e).not.mp hwrong))
    obtain ⟨s, k', hrun, rfl, rfl⟩ := wp_stops hstop
    exact ⟨_, hrun, Or.inl rfl⟩
  | replyAndReceive e msg =>
    have hstop : wp (ipcReply e msg) (.debug cfg) (fun _ _ => False)
        (fun s k' => s = .assertFailed ∧ k' = k) k :=
      h.reply_wrong hI (not_not.mp ((h.answersAt e).not.mp hwrong))
    have hwp : wp (invokeReplyAndReceive e msg) (.debug cfg) (fun _ _ => False)
        (fun s k' => s = .assertFailed ∧ k' = k) k := by
      unfold invokeReplyAndReceive
      rw [wp_bind]
      exact wp_mono hstop (fun _ _ => False.elim) fun _ _ => id
    obtain ⟨s, k', hrun, rfl, rfl⟩ := wp_stops hwp
    exact ⟨_, hrun, Or.inl rfl⟩
  | _ => exact absurd trivial hwrong

/-- The assertions of the message passing hold in an operation: one that fails does so inside
the transfer of a message. -/
def AssertionsHold (env : Env) (k : Kernel) (op : Op) : Prop :=
  ∀ k', op.serve env k = .stop .assertFailed k' → TransferStops env .assertFailed k'

theorem Shows.assertionsHold {cfg : Config} {k : Kernel} {A : Desk} (h : Shows k A)
    (hI : A.Inv ⟨False, False⟩) (hu : A.User) {op : Op} (hop : op.IsEndpoint)
    (hright : AnswersAt k op) : AssertionsHold (.debug cfg) k op := by
  intro k' hrun
  have hwp : EndsAs (.debug cfg) op.serve k (A.Effect False op)
      (Mishap (.debug cfg) (A.Blame (.debug cfg) op)) := h.wp_serve hI h.proper hu (fun hn => absurd hn id)
    (by rintro t i rfl; exact absurd hop id) (by cases op <;> trivial)
    (by cases op <;> first | trivial | exact absurd hop id | exact nofun)
  rcases wp_stopped hwp hrun with ⟨hswitched, -⟩ | ⟨-, htransfer | hblame⟩
  · exact absurd hswitched (by decide)
  · exact htransfer
  · cases op with
    | receive blocking e msg => exact absurd hblame.2.2 ((h.answersAt e).mp hright)
    | reply e msg => exact absurd hblame.2.2 ((h.answersAt e).mp hright)
    | replyAndReceive e msg => exact absurd hblame.2.2 ((h.answersAt e).mp hright)
    | _ => exact absurd hblame (by first | exact id | exact absurd hop id)

/-- The second task calls the first one at an endpoint, and the first one goes on once the third
one waits for a message at another endpoint. -/
theorem small_call_held : ∃ acts c,
    CoreRun (.debug smallConfig) EndpointOnly ⟨smallKernel, .user⟩ acts c ∧ c.mode = .user ∧
    (c.kernel.tasks c.kernel.currentTask).callerTask = some 0x2000 ∧
    (c.kernel.tasks 0x2000).endpoint = some 0x100 :=
  small_run _ _ (fun _ => trivial) [some (.receive true 0x100 0), none, none, some (.call 0x100 0),
    none, none, some (.receive true 0x200 0), none, none] (by decide +kernel)

end Caprese

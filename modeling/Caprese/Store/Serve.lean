import Caprese.Store.Messages

/-!
# `Caprese.Store.Serve`: the capabilities in an operation on tasks and endpoints

Every operation of `Op`, and what a task that is switched in goes on with, is a sequence of moves of
the abstract machine (`Hands`), in the build with assertions. The current task has to be in use:
some operations store to its state without a look at it.
-/

set_option autoImplicit false

namespace Caprese

open Lib Prog

variable {cfg : Config} {k k₁ : Kernel} {t : TaskPtr} {e : EndpointPtr}

/-- The run returns or gives the processor away behind moves. -/
abbrev Hand (cfg : Config) (k : Kernel) {α : Type} (m : K α) (k₁ : Kernel) : Prop :=
  wp m (.debug cfg) (fun _ k' => Hands k k') (Gives k) k₁

namespace Stays

variable (h : Stays k k₁)
include h

theorem hand_done {α : Type} (a : α) : Hand cfg k (pure a : K α) k₁ := h.toHands

theorem hand_fail {α : Type} (error : SysError) (a : α) :
    Hand cfg k (do setErrno error; return a : K α) k₁ := by
  show wp (setErrno error >>= _) _ _ _ _
  rw [wp_bind, wp_setErrno]
  exact h.toHands.trans (.of_capFrame (CapFrame.errno _ _))

omit h in
/-- What the operations assert of the task that enters them. -/
theorem wp_checkNotWaiting {Q : Unit → Kernel → Prop} (hQ : Q () k₁) :
    wp (checkNotWaiting t) (.debug cfg) Q (Gives k) k₁ := by
  unfold checkNotWaiting
  rw [wp_bind, wp_get, wp_bind]
  refine wp_kassert_gives fun _ => ?_
  rw [wp_bind, wp_get, wp_bind]
  refine wp_kassert_gives fun _ => ?_
  rw [wp_bind, wp_get]
  exact wp_kassert_gives fun _ => hQ

end Stays

section Send

variable (h : Stays k k₁) (hcur : (k.tasks k.currentTask).state ≠ .unused)
include h hcur

theorem hand_ipcSendBlock (blocking : Bool) : Hand cfg k (ipcSendBlock blocking e) k₁ := by
  have hcur₁ : (k₁.tasks k₁.currentTask).state ≠ .unused := by
    rw [h.current]
    exact h.used hcur
  unfold ipcSendBlock
  rw [Hand, wp_bind, wp_get, wp_ite]
  split
  · rw [wp_bind]
    refine h.wp_modifyTask (fun _ => ⟨rfl, rfl, rfl, rfl, fun _ => TaskState.noConfusion⟩) hcur₁
      fun k₂ h₂ => ?_
    rw [wp_bind]
    exact h₂.wp_pushWaitingQueue fun k₃ h₃ => h₃.wp_resched
  · exact h.hand_fail _ _

end Send

variable (hcur : (k.tasks k.currentTask).state ≠ .unused)
include hcur

theorem hand_ipcSendShort (blocking : Bool) (args : List Nat) :
    Hand cfg k (ipcSendShort blocking e args) k := by
  unfold ipcSendShort
  rw [Hand, wp_bind, wp_get, wp_bind]
  refine Stays.wp_checkNotWaiting ?_
  rw [wp_bind]
  refine (Stays.refl k).wp_modifyTask (fun _ => ⟨rfl, rfl, rfl, rfl, id⟩) hcur fun k₁ h₁ => ?_
  rw [wp_bind, wp_get]
  cases (k₁.endpoints e).receiverQueue.head with
  | none => exact hand_ipcSendBlock h₁ hcur _
  | some receiver =>
    rw [wp_bind, wp_get, wp_bind]
    refine wp_kassert_gives fun _ => ?_
    rw [wp_bind]
    refine h₁.wp_handing (handing_ipcTransferIpcMsg _ _) fun _ k₂ h₂ => ?_
    rw [wp_bind]
    refine h₂.wp_removeWaitingQueue fun k₃ h₃ hr => ?_
    rw [wp_bind]
    refine h₃.wp_modifyTask (fun _ => ⟨rfl, rfl, rfl, rfl, fun _ => TaskState.noConfusion⟩) hr
      fun k₄ h₄ => ?_
    rw [wp_bind]
    exact h₄.wp_switchTask hcur fun k₅ h₅ => h₅.hand_done _

theorem hand_ipcSendLong (blocking : Bool) (msg : Nat) :
    Hand cfg k (ipcSendLong blocking e msg) k := by
  unfold ipcSendLong
  rw [Hand, wp_bind, wp_get, wp_bind]
  refine Stays.wp_checkNotWaiting ?_
  rw [wp_bind]
  refine (Stays.refl k).wp_modifyTask (fun _ => ⟨rfl, rfl, rfl, rfl, id⟩) hcur fun k₁ h₁ => ?_
  rw [wp_bind, wp_get]
  cases (k₁.endpoints e).receiverQueue.head with
  | none => exact hand_ipcSendBlock h₁ hcur _
  | some receiver =>
    rw [wp_bind, wp_get, wp_bind]
    refine wp_kassert_gives fun _ => ?_
    rw [wp_bind]
    refine h₁.wp_handing (handing_ipcTransferIpcMsg _ _) fun sent k₂ h₂ => ?_
    rw [wp_ite]
    split
    · rw [wp_bind]
      refine h₂.wp_removeWaitingQueue fun k₃ h₃ hr => ?_
      rw [wp_bind]
      refine h₃.wp_modifyTask (fun _ => ⟨rfl, rfl, rfl, rfl, fun _ => TaskState.noConfusion⟩) hr
        fun k₄ h₄ => ?_
      rw [wp_bind]
      exact h₄.wp_switchTask hcur fun k₅ h₅ => h₅.hand_done _
    · exact h₂.hand_done _

/-- The caller that is given up waits, so it is in use. -/
theorem Stays.wp_ipcAbandonCaller (h : Stays k k₁) {Q : Unit → Kernel → Prop}
    (hQ : ∀ k', Stays k k' → Q () k') : wp (ipcAbandonCaller e) (.debug cfg) Q (Gives k) k₁ := by
  unfold ipcAbandonCaller
  rw [wp_bind, wp_get, wp_bind, wp_get]
  cases (k₁.tasks k₁.currentTask).callerTask with
  | none => exact hQ _ h
  | some caller =>
    dsimp only
    rw [wp_bind, wp_get, wp_bind]
    refine wp_kassert_gives fun hwait => ?_
    have hused : (k₁.tasks caller).state ≠ .unused := by
      rw [hwait]
      decide
    rw [wp_bind]
    refine wp_kassert_gives fun _ => ?_
    rw [wp_bind]
    refine wp_kassert_gives fun _ => ?_
    rw [wp_bind]
    refine wp_kassert_gives fun _ => ?_
    rw [wp_bind]
    refine wp_kassert_gives fun _ => ?_
    rw [wp_bind]
    refine wp_kassert_gives fun _ => ?_
    rw [wp_bind]
    refine wp_kassert_gives fun _ => ?_
    rw [wp_bind]
    refine h.wp_modifyTask (fun _ => ⟨rfl, rfl, rfl, rfl, fun _ => TaskState.noConfusion⟩) hused
      fun k₂ h₂ => ?_
    rw [wp_bind]
    refine h₂.wp_pushReadyQueue fun k₃ h₃ => ?_
    have hcur₃ : (k₃.tasks k₁.currentTask).state ≠ .unused := by
      rw [h.current]
      exact h₃.used hcur
    exact h₃.wp_modifyTask (fun _ => ⟨rfl, rfl, rfl, rfl, id⟩) hcur₃ hQ

/-- How the receipt of a message ends: the sender may run at once. -/
theorem Stays.hand_wakeSender (h : Stays k k₁) (sender : TaskPtr) :
    wp (get : K Kernel) (.debug cfg) (fun k' => wp (if (k'.tasks sender).state = .ready then do
      switchTask sender .switchTask
      return true
    else return true : K Bool) (.debug cfg) (fun _ k' => Hands k k') (Gives k)) (Gives k) k₁ := by
  rw [wp_get, wp_ite]
  split
  · rw [wp_bind]
    exact h.wp_switchTask hcur fun _ h' => h'.hand_done _
  · exact h.hand_done _

theorem Stays.hand_ipcReceiveFrom (h : Stays k k₁) (sender : TaskPtr) :
    Hand cfg k (ipcReceiveFrom e sender) k₁ := by
  have hcur₁ : (k.tasks k₁.currentTask).state ≠ .unused := by rwa [h.current]
  unfold ipcReceiveFrom
  rw [Hand, wp_bind, wp_get]
  dsimp only
  rw [wp_bind, wp_get, wp_bind]
  refine wp_kassert_gives fun _ => ?_
  rw [wp_bind, wp_get, wp_bind]
  refine wp_kassert_gives fun _ => ?_
  rw [wp_bind]
  refine h.wp_removeWaitingQueue fun k₂ h₂ hs => ?_
  have hs₀ : (k.tasks sender).state ≠ .unused := h₂.used_before hs
  rw [wp_bind, wp_get]
  cases (k₂.tasks sender).eventType with
  | none =>
    dsimp only
    rw [wp_bind]
    exact h₂.hand_wakeSender hcur sender
  | kill =>
    dsimp only
    rw [wp_bind]
    refine h₂.wp_handing (handing_ipcTransferKillMsg _ _) fun _ k₃ h₃ => ?_
    rw [wp_bind]
    exact h₃.hand_wakeSender hcur sender
  | send =>
    dsimp only
    rw [wp_bind]
    refine h₂.wp_handing (handing_ipcTransferIpcMsg _ _) fun sent k₃ h₃ => ?_
    rw [wp_ite]
    split
    · rw [wp_bind, wp_get, wp_ite]
      split
      · -- A caller goes on waiting, for the reply.
        rw [wp_bind, wp_get, wp_bind]
        refine wp_kassert_gives fun _ => ?_
        rw [wp_bind, wp_get, wp_bind]
        refine wp_kassert_gives fun _ => ?_
        rw [wp_bind]
        refine h₃.wp_modifyTask (fun _ => ⟨rfl, rfl, rfl, rfl, id⟩) (h₃.used hs₀) fun k₄ h₄ => ?_
        rw [wp_bind]
        refine h₄.wp_modifyTask (fun _ => ⟨rfl, rfl, rfl, rfl, id⟩) (h₄.used hcur₁) fun k₅ h₅ => ?_
        rw [wp_bind]
        exact h₅.hand_wakeSender hcur sender
      · rw [wp_bind]
        refine h₃.wp_modifyTask (fun _ => ⟨rfl, rfl, rfl, rfl, fun _ => TaskState.noConfusion⟩)
          (h₃.used hs₀) fun k₄ h₄ => ?_
        rw [wp_bind]
        exact h₄.hand_wakeSender hcur sender
    · exact h₃.hand_done _

theorem Stays.hand_ipcReceive (h : Stays k k₁) (blocking : Bool) (msg : Nat) :
    Hand cfg k (ipcReceive blocking e msg) k₁ := by
  have hcur₁ : (k.tasks k₁.currentTask).state ≠ .unused := by rwa [h.current]
  unfold ipcReceive
  rw [Hand, wp_bind, wp_get, wp_bind]
  refine Stays.wp_checkNotWaiting ?_
  rw [wp_bind]
  refine h.wp_modifyTask (fun _ => ⟨rfl, rfl, rfl, rfl, id⟩) (h.used hcur₁) fun k₂ h₂ => ?_
  rw [wp_bind]
  refine h₂.wp_ipcAbandonCaller hcur fun k₃ h₃ => ?_
  rw [wp_bind, wp_get]
  cases (k₃.endpoints e).senderQueue.head with
  | some sender => exact h₃.hand_ipcReceiveFrom hcur sender
  | none =>
    dsimp only
    rw [wp_ite]
    split
    · rw [wp_bind]
      refine h₃.wp_modifyTask (fun _ => ⟨rfl, rfl, rfl, rfl, fun _ => TaskState.noConfusion⟩)
        (h₃.used hcur₁) fun k₄ h₄ => ?_
      rw [wp_bind]
      exact h₄.wp_pushWaitingQueue fun k₅ h₅ => h₅.wp_resched
    · exact h₃.hand_fail _ _

theorem Stays.wp_ipcReply (h : Stays k k₁) (msg : Nat) {Q : Bool → Kernel → Prop}
    (hQ : ∀ b k', Stays k k' → Q b k') : wp (ipcReply e msg) (.debug cfg) Q (Gives k) k₁ := by
  have hcur₁ : (k.tasks k₁.currentTask).state ≠ .unused := by rwa [h.current]
  unfold ipcReply
  rw [wp_bind, wp_get, wp_bind, wp_get]
  cases (k₁.tasks k₁.currentTask).callerTask with
  | none => exact hQ _ _ h
  | some caller =>
    dsimp only
    rw [wp_bind, wp_get, wp_bind]
    refine wp_kassert_gives fun _ => ?_
    rw [wp_bind]
    refine wp_kassert_gives fun hwait => ?_
    have hused : (k.tasks caller).state ≠ .unused := h.used_before (by rw [hwait]; decide)
    rw [wp_bind]
    refine wp_kassert_gives fun _ => ?_
    rw [wp_bind]
    refine wp_kassert_gives fun _ => ?_
    rw [wp_bind]
    refine wp_kassert_gives fun _ => ?_
    rw [wp_bind]
    refine wp_kassert_gives fun _ => ?_
    rw [wp_bind]
    refine h.wp_modifyTask (fun _ => ⟨rfl, rfl, rfl, rfl, id⟩) (h.used hcur₁) fun k₂ h₂ => ?_
    rw [wp_bind]
    refine h₂.wp_handing (handing_ipcTransferIpcMsg _ _) fun sent k₃ h₃ => ?_
    rw [wp_ite]
    split
    · rw [wp_bind]
      refine h₃.wp_modifyTask (fun _ => ⟨rfl, rfl, rfl, rfl, fun _ => TaskState.noConfusion⟩)
        (h₃.used hused) fun k₄ h₄ => ?_
      rw [wp_bind]
      refine h₄.wp_modifyTask (fun _ => ⟨rfl, rfl, rfl, rfl, id⟩) (h₄.used hcur₁) fun k₅ h₅ => ?_
      rw [wp_bind]
      exact h₅.wp_pushReadyQueue fun k₆ h₆ => hQ _ _ h₆
    · exact hQ _ _ h₃

theorem hand_ipcCall (msg : Nat) : Hand cfg k (ipcCall e msg) k := by
  unfold ipcCall
  rw [Hand, wp_bind, wp_get]
  dsimp only
  rw [wp_bind]
  refine (Stays.refl k).wp_modifyTask
    (fun _ => ⟨rfl, rfl, rfl, rfl, fun _ => TaskState.noConfusion⟩) hcur fun k₁ h₁ => ?_
  rw [wp_bind, wp_get]
  cases (k₁.endpoints e).receiverQueue.head with
  | none =>
    dsimp only
    rw [wp_bind]
    exact h₁.wp_pushWaitingQueue fun k₂ h₂ => h₂.wp_resched
  | some receiver =>
    dsimp only
    rw [wp_bind, wp_get, wp_bind]
    refine wp_kassert_gives fun _ => ?_
    rw [wp_bind]
    refine h₁.wp_handing (handing_ipcTransferIpcMsg _ _) fun sent k₂ h₂ => ?_
    rw [wp_ite]
    split
    · rw [wp_bind]
      refine h₂.wp_removeWaitingQueue fun k₃ h₃ hr => ?_
      rw [wp_bind]
      refine h₃.wp_modifyTask (fun _ => ⟨rfl, rfl, rfl, rfl, fun _ => TaskState.noConfusion⟩) hr
        fun k₄ h₄ => ?_
      rw [wp_bind]
      refine h₄.wp_modifyTask (fun _ => ⟨rfl, rfl, rfl, rfl, id⟩) (h₄.used hcur) fun k₅ h₅ => ?_
      rw [wp_bind]
      exact h₅.wp_pushReadyQueue fun k₆ h₆ => h₆.wp_resched
    · exact h₂.hand_done _

/-! ### Operations on tasks -/

theorem hand_yield : Hand cfg k Caprese.yield k := by
  unfold Caprese.yield
  rw [Hand, wp_bind, wp_get]
  dsimp only
  rw [wp_bind]
  refine (Stays.refl k).wp_modifyTask
    (fun _ => ⟨rfl, rfl, rfl, rfl, fun _ => TaskState.noConfusion⟩) hcur fun k₁ h₁ => ?_
  rw [wp_bind]
  exact h₁.wp_pushReadyQueue fun k₂ h₂ => h₂.wp_resched

theorem hand_invokeSwitch : Hand cfg k (invokeSwitch t) k := by
  unfold invokeSwitch
  rw [Hand, wp_bind, wp_get, wp_ite]
  split
  · exact .refl k
  · rw [wp_bind]
    refine (Stays.refl k).wp_removeReadyQueue fun k₁ h₁ _ => ?_
    rw [wp_bind]
    exact h₁.wp_switchTask hcur fun k₂ h₂ => h₂.hand_done _

omit hcur in
theorem hand_suspendTask : Hand cfg k (suspendTask t) k := by
  have hspares : Spares fun task => { task with state := .suspended } :=
    fun _ => ⟨rfl, rfl, rfl, rfl, fun _ => TaskState.noConfusion⟩
  unfold suspendTask
  rw [Hand, wp_bind, wp_get]
  cases hstate : (k.tasks t).state with
  | running =>
    dsimp only
    rw [wp_bind]
    refine (Stays.refl k).wp_modifyTask hspares (by rw [hstate]; decide) fun k₁ h₁ => ?_
    rw [wp_bind, wp_get, wp_ite]
    split
    · exact h₁.wp_resched
    · exact h₁.toHands
  | ready =>
    dsimp only
    rw [wp_bind]
    refine (Stays.refl k).wp_removeReadyQueue fun k₁ h₁ hused => ?_
    exact h₁.wp_modifyTask hspares (h₁.used hused) fun k₂ h₂ => h₂.toHands
  | waiting =>
    exact (Stays.refl k).wp_modifyTask hspares (by rw [hstate]; decide) fun k₁ h₁ => h₁.toHands
  | unused => exact .refl k
  | suspended => exact .refl k
  | killed => exact .refl k

omit hcur in
theorem hand_resumeTask : Hand cfg k (resumeTask t) k := by
  unfold resumeTask
  rw [Hand, wp_bind, wp_get, wp_ite]
  split
  · rename_i hstate
    rw [wp_bind]
    refine (Stays.refl k).wp_modifyTask
      (fun _ => ⟨rfl, rfl, rfl, rfl, fun _ => TaskState.noConfusion⟩) (by rw [hstate]; decide)
      fun k₁ h₁ => ?_
    exact h₁.wp_pushReadyQueue fun k₂ h₂ => h₂.toHands
  · exact .refl k

omit hcur in
theorem hand_setKillNotify : Hand cfg k (Caprese.setKillNotify t e) k := by
  unfold Caprese.setKillNotify
  rw [Hand, wp_bind, wp_get, wp_ite]
  split
  · rw [wp_setErrno]
    exact .of_capFrame (CapFrame.errno _ _)
  · rename_i hused
    exact (Stays.refl k).wp_modifyTask (fun _ => ⟨rfl, rfl, rfl, rfl, id⟩) hused
      fun k₁ h₁ => h₁.toHands

/-! ### Every operation -/

omit hcur in
theorem Hand.andTrue {m : K Unit} (h : Hand cfg k m k) :
    Hand cfg k (do m; return true : K Bool) k := by
  rw [Hand, wp_bind]
  exact wp_mono h (fun _ _ hk' => hk') fun _ _ he => he

/-- The operations are moves of the machine. -/
theorem Op.hand (op : Op) : Hand cfg k op.serve k := by
  cases op with
  | sendShort blocking e args => exact hand_ipcSendShort hcur blocking args
  | sendLong blocking e msg => exact hand_ipcSendLong hcur blocking msg
  | receive blocking e msg => exact (Stays.refl k).hand_ipcReceive hcur blocking msg
  | call e msg => exact hand_ipcCall hcur msg
  | reply e msg => exact (Stays.refl k).wp_ipcReply hcur msg fun _ _ h => h.toHands
  | replyAndReceive e msg =>
    show Hand cfg k (invokeReplyAndReceive e msg) k
    unfold invokeReplyAndReceive
    rw [Hand, wp_bind]
    refine (Stays.refl k).wp_ipcReply hcur msg fun b k₁ h₁ => ?_
    rw [wp_ite]
    split
    · exact h₁.hand_ipcReceive hcur true msg
    · exact h₁.hand_done _
  | cancel e =>
    exact Hand.andTrue (wp_mono (wp_ipcCancel e) (fun _ _ h => .of_capFrame h)
      fun _ _ h he => .of_capFrame (h he))
  | yield => exact Hand.andTrue (hand_yield hcur)
  | switchTo t => exact hand_invokeSwitch hcur
  | suspend t => exact Hand.andTrue hand_suspendTask
  | resume t => exact Hand.andTrue hand_resumeTask
  | kill t i =>
    exact Hand.andTrue (wp_mono (wp_killTask t i) (fun _ _ h => .of_capFrame h)
      fun _ _ h _ => .of_capFrame h)
  | setKillNotify t e => exact Hand.andTrue hand_setKillNotify

/-! ### The task that was switched in -/

omit hcur

theorem stays_setErrno (error : SysError) : Keeps Stays (setErrno error) :=
  keeps_modify fun k => ⟨.of_capFrame (CapFrame.errno k error), rfl⟩

theorem stays_ipcSendTail : Keeps Stays ipcSendTail := by
  unfold ipcSendTail
  refine keeps_bind keeps_get fun _ => keeps_bind keeps_get fun _ => ?_
  refine keeps_bind (keeps_kassert _) fun _ => keeps_bind (keeps_kassert _) fun _ => ?_
  refine keeps_bind (keeps_kassert _) fun _ => keeps_ite ?_ (keeps_pure _)
  exact keeps_bind (stays_setErrno _) fun _ => keeps_pure _

theorem stays_ipcReceiveTail : Keeps Stays ipcReceiveTail := by
  unfold ipcReceiveTail
  refine keeps_bind keeps_get fun _ => keeps_bind keeps_get fun _ => ?_
  refine keeps_bind (keeps_kassert _) fun _ => keeps_bind (keeps_kassert _) fun _ => ?_
  refine keeps_ite ?_ (keeps_pure _)
  exact keeps_bind (stays_setErrno _) fun _ => keeps_pure _

theorem hand_idle : Hand cfg k Caprese.idle k := by
  unfold Caprese.idle popReadyTask
  rw [Hand, wp_bind, wp_bind, wp_get]
  cases k.readyQueue.head with
  | none => exact .refl k
  | some task =>
    dsimp only
    rw [wp_bind]
    refine (Stays.refl k).wp_removeReadyQueue fun k₁ h₁ hused => ?_
    rw [wp_pure]
    dsimp only
    unfold switchContext modifyTask
    rw [wp_bind, wp_modify, wp_bind, wp_modify, wp_bind, wp_get, wp_bind, wp_modify]
    have hused₁ : (({ k₁ with currentTask := task } : Kernel).tasks task).state ≠ .unused :=
      h₁.used hused
    have hrun : Hands { k₁ with currentTask := task } (({ k₁ with currentTask := task } :
        Kernel).mapTask task fun t => { t with state := .running }) :=
      .mapTask (fun _ => ⟨rfl, rfl, rfl, rfl⟩)
        ⟨fun hu => absurd hu (by simp), fun hu => absurd hu hused₁⟩
    exact fun _ => ((h₁.toHands.trans (.processor k₁ task)).trans hrun).trans
      (.of_capFrame (.mapTask _ _ rfl rfl rfl rfl Iff.rfl))

theorem hand_killTaskTail : Hand cfg k (killTaskTail t) k := by
  unfold killTaskTail checkNotRoot
  rw [Hand, wp_bind, wp_bind, wp_get, wp_ite]
  split
  · exact gives_of_ne (by decide)
  · rw [wp_pure, wp_bind, wp_get, wp_ite]
    split
    · exact (Stays.refl k).wp_resched
    · exact .refl k

/-- What a task goes on with is a sequence of moves. -/
theorem Kernel.hand_goOn : Hand cfg k k.goOn k := by
  have hstays : ∀ {m : K Bool}, Prog.Keeps Stays m → Hand cfg k m k := fun hm =>
    hm.wp (fun _ _ h => h.toHands) fun _ _ h _ => h.toHands
  unfold Kernel.goOn
  cases (k.tasks k.currentTask).context with
  | returnToUserMode => exact .refl k
  | yielded => exact .refl k
  | ipcSend => exact hstays stays_ipcSendTail
  | ipcCall => exact hstays stays_ipcSendTail
  | ipcReceive => exact hstays stays_ipcReceiveTail
  | switchTask =>
    refine hstays (keeps_bind (keeps_bind keeps_get fun _ => keeps_bind keeps_get fun _ => ?_)
      fun _ => keeps_pure _)
    exact keeps_kassert _
  | killNotify t => exact Hand.andTrue hand_killTaskTail
  | unreachable => exact gives_of_ne (by decide)
  | idle =>
    show Hand cfg k (do Caprese.idle; stop .diverged) k
    rw [Hand, wp_bind]
    exact wp_mono hand_idle (fun _ _ _ => gives_of_ne (by decide)) fun _ _ he => he

end Caprese

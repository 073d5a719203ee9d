import Caprese.Memory.Rights
import Caprese.Proofs.UserMemory

/-!
# `Caprese.Proofs.Rights`: what entitles a transfer to a byte

`walk` asks whether an entry is the user's. It does not ask for the rights of the entry. So a
transfer reads and stores to the bytes that the two tasks map as the user's, readable and
writable or not (`transfer_through_user_entries`).
-/

set_option autoImplicit false

namespace Caprese

open Lib Prog

variable {env : Env} {v : View} {k : Kernel} {dst src task : TaskPtr}

/-! ### The parts of a transfer -/

/-- A task whose message is read: its bytes may be seen. -/
abbrev View.Sees (v : View) (task : TaskPtr) : Prop := ∀ a, UserByte v.start task a → v.Seen a

abbrev View.Stores (v : View) (task : TaskPtr) : Prop := ∀ a, UserByte v.start task a → v.Stored a

theorem SameMessage.longMsg {Loose : TaskPtr → Prop} {t : TaskPtr} {task task' : Task}
    (h : SameMessage Loose t task task') : task'.ipcLongMsg = task.ipcLongMsg := by
  unfold Task.ipcLongMsg
  rw [h.msg]

theorem blind_checkReceiver (dst : TaskPtr) : Blind env v (checkReceiver dst) := by
  refine twins_read (fun _ _ => rfl) fun _ _ _ => ?_
  exact twins_ite (fun _ => twins_stop _) fun _ => twins_pure trivial

theorem twins_readMessageHeader (hsees : v.Sees task) : Twins env (Beside v)
    (fun header => header.isSome = true →
      MappedTo v.start task (v.start.tasks task).ipcLongMsg env.config.messageHeaderSize)
    (readMessageHeader task) := by
  refine twins_ask (twins_read (fun _ _ => rfl) fun k k' h => ?_)
  rw [(h.tasks task).longMsg]
  refine twins_bind (twins_readUserMemory hsees _ _) fun bytes hbytes => twins_pure fun hsome => ?_
  rw [Option.isSome_map] at hsome
  exact hbytes hsome

theorem blind_writeMessageHeader (hstores : v.Stores task) (header : MessageHeader) :
    Blind env v (writeMessageHeader task header) := by
  refine twins_ask (twins_read (fun _ _ => rfl) fun k k' h => ?_)
  exact (twins_writeUserMemory hstores _ _).mono fun _ _ => trivial

/-- What is known once the header of the source was read. -/
def SourceMapped (env : Env) (k : Kernel) (src : TaskPtr) : Prop :=
  (k.tasks src).ipcMsgState = .longSize →
    MappedTo k src (k.tasks src).ipcLongMsg env.config.messageHeaderSize

theorem twins_sourceHeader (hsees : v.Sees src) (htight : ¬ v.Loose src) : Twins env (Beside v)
    (fun header => header.isSome = true → SourceMapped env v.start src) (sourceHeader src) := by
  refine twins_read (fun _ _ => rfl) fun k k' h => ?_
  have hstate := (h.tasks src).state htight
  unfold SourceMapped
  rw [← hstate]
  dsimp only
  cases hs : (k.tasks src).ipcMsgState with
  | empty => exact twins_pure fun _ hlong => absurd hlong nofun
  | shortSize => exact twins_pure fun _ hlong => absurd hlong nofun
  | longSize => exact (twins_readMessageHeader hsees).mono fun header hheader hsome _ => hheader hsome

/-! ### The payload -/

theorem blind_transferMsgCap (hsrc : v.Sees src) (hdst : v.Stores dst) (i : Nat) :
    Blind env v (transferMsgCap dst src i) := by
  refine twins_ask (twins_read (fun _ _ => rfl) fun k k' h => ?_)
  refine twins_bind (twins_readUserMemory hsrc _ _) fun bytes _ => ?_
  cases bytes with
  | none => exact twins_pure trivial
  | some bytes =>
    refine twins_bind (blind_lookupCap _ _) fun slot _ => ?_
    refine twins_ite (fun _ => twins_bind (blind_delegateCap _ _) ?_)
      fun _ => twins_bind (blind_transferCap _ _) ?_
    all_goals
      rintro (_ | dstSlot) _
      · exact twins_pure trivial
      · refine twins_bind (blind_getCapSlotIndex dstSlot) fun _ _ => ?_
        refine twins_read (fun _ _ => rfl) fun _ _ _ => ?_
        exact (twins_writeUserMemory hdst _ _).mono fun _ _ => trivial

theorem blind_transferMsgCaps (hsrc : v.Sees src) (hdst : v.Stores dst) (is dataTypeMap : List Nat) :
    Blind env v (transferMsgCaps dst src is dataTypeMap) := by
  induction is generalizing dataTypeMap with
  | nil => exact twins_pure trivial
  | cons i is ih =>
    refine twins_ite (fun _ => ?_) fun _ => ih _
    refine twins_bind (blind_transferMsgCap hsrc hdst i) fun success _ => ?_
    exact twins_ite (fun _ => ih _) fun _ => twins_pure trivial

/-- The payload of a long message is mapped, as far as it is looked up. -/
def LongMapped (env : Env) (k : Kernel) (dst src : TaskPtr) (header : MessageHeader) : Prop :=
  MappedAlong k src dst ((k.tasks src).ipcLongMsg + env.config.messageHeaderSize)
    ((k.tasks dst).ipcLongMsg + env.config.messageHeaderSize) header.payloadLength

theorem twins_transferLongPayload (hsees : v.Sees src) (hdst : v.Stores dst) (hsrc : v.Stores src)
    (hover : ∀ a, Overrun v.start dst src a → v.Stored a) (header : MessageHeader) :
    Twins env (Beside v) (fun success => success = true → LongMapped env v.start dst src header)
      (transferLongPayload dst src header) := by
  refine twins_ask (twins_read (fun _ _ => rfl) fun k k' h => ?_)
  refine twins_read (fun _ _ => rfl) fun k₁ k₁' h₁ => ?_
  rw [(h.tasks dst).longMsg, (h₁.tasks src).longMsg]
  refine twins_bind (twins_forwardUserMemory hsees hdst hover _ _ _) fun success hmapped => ?_
  refine twins_ite (fun htrue => ?_) fun _ => twins_pure fun hfalse => absurd hfalse Bool.false_ne_true
  have hlong : LongMapped env v.start dst src header := hmapped htrue
  refine twins_bind (blind_transferMsgCaps hsees hdst _ _) fun dataTypeMap _ => ?_
  cases dataTypeMap with
  | none => exact twins_pure fun _ => hlong
  | some dataTypeMap =>
    refine twins_ite (fun _ => ?_) fun _ => twins_pure fun _ => hlong
    exact (blind_writeMessageHeader hsrc _).mono fun _ _ _ => hlong

/-- The payload of a message is mapped. -/
def PayloadMapped (env : Env) (k : Kernel) (dst src : TaskPtr) (header : MessageHeader) : Prop :=
  match (k.tasks src).ipcMsgState with
  | .empty => True
  | .shortSize =>
    MappedTo k dst ((k.tasks dst).ipcLongMsg + env.config.messageHeaderSize)
      ((k.tasks src).ipcMsg.flatMap wordBytes).length
  | .longSize => LongMapped env k dst src header

theorem twins_transferPayload (hsees : v.Sees src) (hdst : v.Stores dst) (hsrc : v.Stores src)
    (hover : ∀ a, Overrun v.start dst src a → v.Stored a) (htight : ¬ v.Loose src)
    (header : MessageHeader) : Twins env (Beside v)
      (fun success => success = true → PayloadMapped env v.start dst src header)
      (transferPayload dst src header) := by
  refine twins_read (fun _ _ => rfl) fun k k' h => ?_
  have hstate := (h.tasks src).state htight
  unfold PayloadMapped
  rw [← hstate]
  dsimp only
  cases hs : (k.tasks src).ipcMsgState with
  | empty => exact twins_pure fun _ => trivial
  | shortSize =>
    refine twins_read (fun _ _ => rfl) fun k₁ k₁' h₁ => twins_ask ?_
    rw [(h₁.tasks dst).longMsg, (h.tasks src).msg]
    exact twins_writeUserMemory hdst _ _
  | longSize => exact twins_transferLongPayload hsees hdst hsrc hover header

/-! ### The transfers -/

/-- A transfer of a message sees and stores to the bytes of both tasks. -/
def transferView (k : Kernel) (dst src : TaskPtr) : View where
  start := k
  Seen a := UserByte k dst a ∨ UserByte k src a
  Stored a := UserByte k dst a ∨ UserByte k src a ∨ Overrun k dst src a
  Loose _ := False

/-- That of a kill message has to do with the receiver only. -/
def killView (k : Kernel) (dst : TaskPtr) : View where
  start := k
  Seen := UserByte k dst
  Stored := UserByte k dst
  Loose t := t = dst

/-- A run beside itself, on a memory that differs in bytes that are not seen. -/
theorem beside_start (v : View) {m : PhysAddr → UInt8} (hm : ∀ a, v.Seen a → m a = v.start.memory a) :
    Beside v v.start { v.start with memory := m } :=
  ⟨rfl, hm, rfl, fun t => .refl t _, fun _ _ => rfl⟩

/-- All buffers of a message that was transferred are mapped for the user. -/
def TransferMapped (env : Env) (k : Kernel) (dst src : TaskPtr) : Prop :=
  MappedTo k dst (k.tasks dst).ipcLongMsg env.config.messageHeaderSize ∧ SourceMapped env k src ∧
    ∃ header k', sourceHeader src env k = .ok (some header) k' ∧ PayloadMapped env k dst src header

theorem checkReceiver_eq {k' : Kernel} (h : checkReceiver dst env k = .ok () k') : k' = k := by
  have hrun : wp (checkReceiver dst) env (fun _ k' => k' = k) (fun _ _ => True) k := by
    unfold checkReceiver
    rw [wp_bind, wp_get, wp_ite]
    split
    · trivial
    · rfl
  exact wp_ok hrun h

theorem alike_ipcTransferIpcMsg {m : PhysAddr → UInt8}
    (hm : ∀ a, UserByte k dst a ∨ UserByte k src a → m a = k.memory a) :
    Alike (Beside (transferView k dst src)) (fun success => success = true →
      TransferMapped env k dst src) (ipcTransferIpcMsg dst src env k)
      (ipcTransferIpcMsg dst src env { k with memory := m }) := by
  have hsees : (transferView k dst src).Sees src := fun a ha => Or.inr ha
  have hsees' : (transferView k dst src).Sees dst := fun a ha => Or.inl ha
  have hstores : (transferView k dst src).Stores src := fun a ha => Or.inr (Or.inl ha)
  have hstores' : (transferView k dst src).Stores dst := fun a ha => Or.inl ha
  have hover : ∀ a, Overrun k dst src a → (transferView k dst src).Stored a := fun a ha =>
    Or.inr (Or.inr ha)
  refine alike_bind (blind_checkReceiver dst _ _ (beside_start (transferView k dst src) hm))
    fun _ k₁ k₁' hcheck h₁ _ => ?_
  have hk₁ := checkReceiver_eq hcheck
  subst hk₁
  refine alike_bind (twins_sourceHeader hsees id _ _ h₁) fun header k₂ k₂' hheader h₂ hsource => ?_
  -- From here on the state is any that the first steps may have led to.
  refine (?_ : Twins env _ _ _) k₂ k₂' h₂
  cases header with
  | none => exact twins_pure fun hfalse => absurd hfalse Bool.false_ne_true
  | some srcHeader =>
    refine twins_bind (twins_readMessageHeader hsees') fun dstHeader hdst => ?_
    cases dstHeader with
    | none => exact twins_pure fun hfalse => absurd hfalse Bool.false_ne_true
    | some dstHeader =>
      refine twins_ite (fun _ => twins_pure fun hfalse => absurd hfalse Bool.false_ne_true) fun _ => ?_
      refine twins_ask (twins_read (fun _ _ => rfl) fun _ _ _ => ?_)
      refine twins_read (fun _ _ => rfl) fun _ _ _ => ?_
      refine twins_bind (blind_writeMessageHeader hstores' _) fun written _ => ?_
      refine twins_ite (fun _ => ?_) fun _ => twins_pure fun hfalse => absurd hfalse Bool.false_ne_true
      refine twins_bind (twins_transferPayload hsees hstores' hstores hover id srcHeader)
        fun success hpayload => ?_
      refine twins_ite (fun htrue => ?_) fun _ => twins_pure fun hfalse =>
        absurd hfalse Bool.false_ne_true
      refine twins_bind (twins_store (fun _ _ => rfl) (fun _ => rfl) fun _ t => .refl t _) fun _ _ =>
        twins_pure fun _ => ?_
      exact ⟨hdst rfl, hsource rfl, srcHeader, k₂, hheader, hpayload htrue⟩

theorem alike_ipcTransferKillMsg {m : PhysAddr → UInt8} (hm : ∀ a, UserByte k dst a → m a = k.memory a) :
    Alike (Beside (killView k dst)) (fun success => success = true →
      MappedTo k dst (k.tasks dst).ipcLongMsg env.config.messageHeaderSize)
      (ipcTransferKillMsg dst src env k) (ipcTransferKillMsg dst src env { k with memory := m }) := by
  have hsees : (killView k dst).Sees dst := fun a ha => ha
  have hstores : (killView k dst).Stores dst := fun a ha => ha
  refine (?_ : Twins env _ _ _) _ _ (beside_start (killView k dst) hm)
  refine twins_bind (blind_checkReceiver dst) fun _ _ => ?_
  refine twins_bind (twins_readMessageHeader hsees) fun header hdst => ?_
  cases header with
  | none => exact twins_pure fun hfalse => absurd hfalse Bool.false_ne_true
  | some header =>
    refine twins_ask (twins_read (fun _ _ => rfl) fun _ _ _ => ?_)
    refine twins_read (fun _ _ => rfl) fun _ _ _ => ?_
    refine twins_bind (blind_writeMessageHeader hstores _) fun written _ => ?_
    refine twins_ite (fun _ => ?_) fun _ => twins_pure fun hfalse => absurd hfalse Bool.false_ne_true
    refine twins_bind (V := fun _ => True) (twins_store (fun _ _ => rfl) (fun _ => rfl) fun k' t => ?_)
      fun _ _ => twins_pure fun _ => hdst rfl
    show SameMessage _ t (k'.tasks t) (upd k'.tasks dst { k'.tasks dst with ipcMsgState := .empty } t)
    rw [upd_apply]
    split
    · rename_i ht
      subst ht
      exact ⟨rfl, rfl, fun hloose => absurd rfl hloose⟩
    · exact .refl t _

/-- Which bytes a transfer reads and stores to: those that entries of the two tasks map which are
enabled, no tables and the user's, whatever rights they have. Bytes that follow on a page which
ends in front of the source's page are left out. On another memory with the same such bytes the
transfer does the same. If one of the buffers is not mapped like that, it fails. -/
theorem transfer_through_user_entries (env : Env) (k : Kernel) (dst src : TaskPtr)
    (m : PhysAddr → UInt8) (hm : ∀ a, UserByte k dst a ∨ UserByte k src a → m a = k.memory a) :
    Alike (Beside (transferView k dst src)) (fun success => success = true →
      TransferMapped env k dst src) (ipcTransferIpcMsg dst src env k)
      (ipcTransferIpcMsg dst src env { k with memory := m }) ∧
    Alike (Beside (killView k dst)) (fun success => success = true →
      MappedTo k dst (k.tasks dst).ipcLongMsg env.config.messageHeaderSize)
      (ipcTransferKillMsg dst src env k) (ipcTransferKillMsg dst src env { k with memory := m }) :=
  ⟨alike_ipcTransferIpcMsg hm, alike_ipcTransferKillMsg fun a ha => hm a (Or.inl ha)⟩

/-! ### A page that may only be read -/

/-- A receiver whose buffer lies on a page without the right to write. -/
def readOnlyKernel : Kernel :=
  { Kernel.powerOn with
    tasks := fun t =>
      if t = 1 then { Task.zero with rootPageTable := 0x1000, ipcMsg := [0], ipcMsgState := .longSize }
      else Task.zero
    pageTables := fun table index =>
      if table = 0x1000 ∧ index = 0 then Pte.zero.fill .table 0x2000
      else if table = 0x2000 ∧ index = 0 then Pte.zero.fill .table 0x3000
      else if table = 0x3000 ∧ index = 0 then Pte.zero.fill (.userPage true false false) 0x10000
      else Pte.zero }

/-- Headers of a single byte. -/
def readOnlyConfig : Config := { pagesConfig with messageHeaderSize := 1, encodeHeader := fun _ => [1] }

theorem transfer_through_user_entries_read_only :
    Alike (Beside (transferView readOnlyKernel 1 2)) (fun success => success = true →
      TransferMapped (.debug readOnlyConfig) readOnlyKernel 1 2)
      (ipcTransferIpcMsg 1 2 (.debug readOnlyConfig) readOnlyKernel)
      (ipcTransferIpcMsg 1 2 (.debug readOnlyConfig) readOnlyKernel) :=
  (transfer_through_user_entries (.debug readOnlyConfig) readOnlyKernel 1 2 readOnlyKernel.memory
    fun _ _ => rfl).1

theorem readOnly_pte (table : TablePtr) (index : Nat) : (readOnlyKernel.pte table index).w = false := by
  unfold Kernel.pte readOnlyKernel
  dsimp only
  split
  · rfl
  · split
    · rfl
    · split
      · rfl
      · rfl

/-- The header of the message is stored all the same. -/
theorem transfer_ignores_rights : ¬ ∀ (config : Config) (k k' : Kernel) (dst src : TaskPtr),
    ipcTransferIpcMsg dst src (.debug config) k = .ok true k' → ∀ a, k'.memory a ≠ k.memory a →
    ∃ task va pte level, k.userEntry task va = some (pte, level) ∧ pte.w = true ∧
      a = pte.getNextPage + (pageChunk va level).1 := by
  intro hclaim
  have hrun : (ipcTransferIpcMsg 1 2 (.debug readOnlyConfig) readOnlyKernel).returns
      (fun r k' => r && k'.memory 0x10000 = 1) = true := by decide +kernel
  obtain ⟨r, k', heq, hresult⟩ := Outcome.returns_iff.mp hrun
  rw [Bool.and_eq_true, decide_eq_true_iff] at hresult
  obtain ⟨rfl, hbyte⟩ := hresult
  obtain ⟨task, va, pte, level, hentry, hw, -⟩ := hclaim _ _ _ _ _ heq 0x10000 (by
    rw [hbyte]
    decide)
  obtain ⟨table, index, rfl⟩ := leafFrom_pte hentry
  rw [readOnly_pte] at hw
  exact absurd hw (by decide)

end Caprese

import Caprese.Kernel.Ipc
import Caprese.Lib.Twins
import Caprese.Memory.Paging

/-!
# `Caprese.Memory.Rights`: which memory a transfer has to do with

`UserByte k task a`: an entry of the task's tables that `walk` finds maps the byte `a`. A
transfer reads such bytes only. It stores to such bytes only, but for the bytes behind a page of
the destination which ends in front of the page of the source (`Overrun`). The rules here compare
two runs on memories that agree on the bytes that the two tasks map (`Beside`), for every shape
of the tables, every address and every build.
-/

set_option autoImplicit false

namespace Caprese

open Lib Prog

/-- The levels that `walk` goes down. -/
abbrev walkOrder : List Nat := [GIGA_PAGE_TABLE_LEVEL, MEGA_PAGE_TABLE_LEVEL, KILO_PAGE_TABLE_LEVEL]

/-- The entry for the user that an address leads to, also one behind the address space. -/
def Kernel.userEntry (k : Kernel) (task : TaskPtr) (va : Nat) : Option (Pte × Nat) :=
  k.leafFrom va walkOrder (k.tasks task).rootPageTable

/-- A byte that an entry for the user maps. -/
def UserByte (k : Kernel) (task : TaskPtr) (a : Nat) : Prop :=
  ∃ va pte level, k.userEntry task va = some (pte, level) ∧
    a = pte.getNextPage + (pageChunk va level).1

/-- A byte that follows on a page of the destination, where the page of the source goes on. -/
def Overrun (k : Kernel) (dstTask srcTask : TaskPtr) (a : Nat) : Prop :=
  ∃ srcVa srcPte srcLevel dstVa dstPte dstLevel j,
    k.userEntry srcTask srcVa = some (srcPte, srcLevel) ∧
    k.userEntry dstTask dstVa = some (dstPte, dstLevel) ∧
    (pageChunk dstVa dstLevel).2 ≤ j ∧ j < (pageChunk srcVa srcLevel).2 ∧
    a = dstPte.getNextPage + (pageChunk dstVa dstLevel).1 + j

/-- What the entry is that `walk` finds: enabled, no table and the user's. The rights are not
asked for. -/
theorem leafFrom_user {k : Kernel} {va level : Nat} {levels : List Nat} {table : TablePtr}
    {pte : Pte} (h : k.leafFrom va levels table = some (pte, level)) :
    pte.isEnabled = true ∧ pte.isTable = false ∧ pte.isUser = true := by
  induction levels generalizing table with
  | nil => exact absurd h (by simp [Kernel.leafFrom])
  | cons l levels ih =>
    unfold Kernel.leafFrom at h
    dsimp only at h
    split at h
    · exact absurd h (by simp)
    · rename_i henabled
      split at h
      · exact ih h
      · rename_i htable
        split at h
        · rename_i huser
          obtain ⟨rfl, rfl⟩ := Prod.mk.inj (Option.some.inj h)
          unfold Pte.isDisabled at henabled
          unfold Pte.isEnabled
          exact ⟨by simpa using henabled, by simpa using htable, huser⟩
        · exact absurd h (by simp)

/-- The entry that `walk` finds is one of a table. -/
theorem leafFrom_pte {k : Kernel} {va level : Nat} {levels : List Nat} {table : TablePtr}
    {pte : Pte} (h : k.leafFrom va levels table = some (pte, level)) :
    ∃ table' index, pte = k.pte table' index := by
  induction levels generalizing table with
  | nil => exact absurd h (by simp [Kernel.leafFrom])
  | cons l levels ih =>
    unfold Kernel.leafFrom at h
    dsimp only at h
    split at h
    · exact absurd h (by simp)
    · split at h
      · exact ih h
      · split at h
        · obtain ⟨rfl, rfl⟩ := Prod.mk.inj (Option.some.inj h)
          exact ⟨table, _, rfl⟩
        · exact absurd h (by simp)

section Page

variable {k : Kernel} {task : TaskPtr} {va level j : Nat} {pte : Pte}

/-- All bytes of the page are mapped by the same entry. -/
theorem userByte_page (h : k.userEntry task va = some (pte, level))
    (hj : j < (pageChunk va level).2) :
    UserByte k task (pte.getNextPage + (pageChunk va level).1 + j) := by
  change j < getPageSize level - va % getPageSize level at hj
  have hlt := Nat.mod_lt va (@getPageSize_pos level)
  have hdiv := Nat.div_add_mod va (getPageSize level)
  have hsplit : va + j = va % getPageSize level + j + getPageSize level * (va / getPageSize level) := by
    omega
  have hpage : (va + j) / getPageSize level = va / getPageSize level := by
    rw [hsplit, Nat.add_mul_div_left _ _ getPageSize_pos, Nat.div_eq_of_lt (by omega), Nat.zero_add]
  have hmod : (va + j) % getPageSize level = va % getPageSize level + j := by
    rw [hsplit, Nat.add_mul_mod_self_left, Nat.mod_eq_of_lt (by omega)]
  refine ⟨va + j, pte, level, leafFrom_congr (by decide) h hpage, ?_⟩
  show pte.getNextPage + va % getPageSize level + j
    = pte.getNextPage + (va + j) % getPageSize level
  rw [hmod, Nat.add_assoc]

end Page

/-! ### Two memories -/

/-- What two runs are compared by: the state that they start from, the bytes that they may see,
those that they may store to, and the tasks whose message they may take note of. -/
structure View where
  start : Kernel
  Seen : Nat → Prop
  Stored : Nat → Prop
  Loose : TaskPtr → Prop

/-- The fields of a task that say which message it has, and what it maps. -/
structure SameMessage (Loose : TaskPtr → Prop) (t : TaskPtr) (task task' : Task) : Prop where
  root : task'.rootPageTable = task.rootPageTable
  msg : task'.ipcMsg = task.ipcMsg
  state : ¬ Loose t → task'.ipcMsgState = task.ipcMsgState

/-- `k` and `k'` differ in bytes that are not seen. `k` maps what the first state does, and its
memory is that of the first state but for certain bytes. -/
structure Beside (v : View) (k k' : Kernel) : Prop where
  rest : k' = { k with memory := k'.memory }
  seen : ∀ a, v.Seen a → k'.memory a = k.memory a
  tables : k.pageTables = v.start.pageTables
  tasks : ∀ t, SameMessage v.Loose t (v.start.tasks t) (k.tasks t)
  stored : ∀ a, ¬ v.Stored a → k.memory a = v.start.memory a

variable {v : View} {env : Env} {k₀ k k' : Kernel} {α β : Type} {V : α → Prop}
  {task dst src : TaskPtr} {va : Nat}

theorem leafFrom_tables (h : k.pageTables = k₀.pageTables) (levels : List Nat) (table : TablePtr) :
    k.leafFrom va levels table = k₀.leafFrom va levels table := by
  induction levels generalizing table with
  | nil => rfl
  | cons level levels ih =>
    unfold Kernel.leafFrom
    have hpte : k.pte table (getPageTableIndex va level)
        = k₀.pte table (getPageTableIndex va level) := by
      unfold Kernel.pte
      rw [h]
    dsimp only
    rw [hpte, ih]

theorem SameMessage.refl {Loose : TaskPtr → Prop} (t : TaskPtr) (task : Task) :
    SameMessage Loose t task task := ⟨rfl, rfl, fun _ => rfl⟩

theorem SameMessage.trans {Loose : TaskPtr → Prop} {t : TaskPtr} {task task' task'' : Task}
    (h : SameMessage Loose t task task') (h' : SameMessage Loose t task' task'') :
    SameMessage Loose t task task'' :=
  ⟨h'.root.trans h.root, h'.msg.trans h.msg, fun ht => (h'.state ht).trans (h.state ht)⟩

theorem Beside.userEntry (h : Beside v k k') :
    k.userEntry task va = v.start.userEntry task va := by
  unfold Kernel.userEntry
  rw [(h.tasks task).root, leafFrom_tables h.tables]

/-- A read of fields other than the memory. -/
theorem twins_read {f : Kernel → K α} (hf : ∀ k m, f { k with memory := m } = f k)
    (h : ∀ k k', Beside v k k' → Twins env (Beside v) V (f k)) :
    Twins env (Beside v) V (get >>= f) := by
  refine twins_get fun k k' hbeside => ⟨?_, h k k' hbeside⟩
  rw [hbeside.rest, hf]

/-- A store to fields other than the memory and the tables. -/
theorem twins_store {f : Kernel → Kernel}
    (hf : ∀ k m, f { k with memory := m } = { f k with memory := m })
    (htables : ∀ k, (f k).pageTables = k.pageTables)
    (htasks : ∀ k t, SameMessage v.Loose t (k.tasks t) ((f k).tasks t)) :
    Twins env (Beside v) (fun _ => True) (modify f : K Unit) := by
  have hmemory : ∀ k, (f k).memory = k.memory := fun k => by
    have h := congrArg Kernel.memory (hf k k.memory)
    exact h
  refine twins_modify fun k k' h => ⟨?_, fun a ha => ?_, ?_, fun t => ?_, fun a ha => ?_⟩
  · rw [hmemory]
    conv_lhs => rw [h.rest]
    exact hf k k'.memory
  · rw [hmemory, hmemory]
    exact h.seen a ha
  · rw [htables]
    exact h.tables
  · exact (h.tasks t).trans (htasks k t)
  · rw [hmemory]
    exact h.stored a ha

/-- A store to the memory. -/
theorem Beside.storeBytes (h : Beside v k k') {addr : Nat} {bytes : List UInt8}
    (hstored : ∀ j, j < bytes.length → v.Stored (addr + j)) :
    Beside v (k.storeBytes addr bytes) (k'.storeBytes addr bytes) := by
  refine ⟨?_, fun a ha => ?_, h.tables, h.tasks, fun a ha => ?_⟩
  · conv_lhs => rw [h.rest]
    conv_rhs => rw [h.rest]
    rfl
  · show (if _ then _ else k'.memory a) = if _ then _ else k.memory a
    rw [h.seen a ha]
  · show (if addr ≤ a ∧ a < addr + bytes.length then _ else k.memory a) = _
    rw [if_neg, h.stored a ha]
    rintro ⟨hlow, hhigh⟩
    obtain ⟨j, rfl⟩ := Nat.exists_eq_add_of_le hlow
    exact ha (hstored j (by omega))

theorem Beside.loadBytes (h : Beside v k k') {addr n : Nat}
    (hseen : ∀ j, j < n → v.Seen (addr + j)) : k'.loadBytes addr n = k.loadBytes addr n :=
  List.map_congr_left fun j hj => h.seen _ (hseen j (List.mem_range.mp hj))

theorem twins_kassert {S : Kernel → Kernel → Prop} (p : Prop) [Decidable p] :
    Twins env S (fun _ => True) (kassert p) := by
  unfold kassert
  refine twins_ask (twins_ite (fun _ => twins_pure trivial) fun _ => ?_)
  exact twins_ite (fun _ => twins_pure trivial) fun _ => twins_stop _

theorem twins_deref {S : Kernel → Kernel → Prop} (p : Option α) :
    Twins env S (fun _ => True) (deref p) := by
  cases p with
  | none => exact twins_stop _
  | some a => exact twins_pure trivial

theorem twins_setErrno (e : SysError) :
    Twins env (Beside v) (fun _ => True) (setErrno e) :=
  twins_store (fun _ _ => rfl) (fun _ => rfl) fun _ t => .refl t _

theorem twins_kloop {S : Kernel → Kernel → Prop} {W : β → Prop} {body : α → K (α ⊕ β)}
    (I : α → Prop) (h : ∀ a, I a → Twins env S (Sum.elim I W) (body a)) {a : α} (ha : I a) :
    Twins env S W (kloop body a) :=
  twins_ask (twins_loop _ I h _ a ha)

/-! ### User memory -/

theorem twins_pageTableWalk (va level : Nat) : Twins env (Beside v)
    (fun index => index = getPageTableIndex va level) (pageTableWalk va level) :=
  twins_bind (twins_kassert _) fun _ _ => twins_bind (twins_kassert _) fun _ _ => twins_pure rfl

theorem twins_walkLevels (levels : List Nat) (table : TablePtr) :
    Twins env (Beside v) (fun found => found = v.start.leafFrom va levels table)
      (walkLevels va levels table) := by
  induction levels generalizing table with
  | nil => exact twins_pure rfl
  | cons level levels ih =>
    refine twins_bind (twins_pageTableWalk va level) fun index hindex => ?_
    subst hindex
    refine twins_read (fun _ _ => rfl) fun k k' h => ?_
    have hpte : k.pte table (getPageTableIndex va level)
        = v.start.pte table (getPageTableIndex va level) := by
      unfold Kernel.pte
      rw [h.tables]
    unfold Kernel.leafFrom
    dsimp only
    rw [hpte]
    refine twins_ite (fun hc => ?_) fun hc => ?_
    · rw [if_pos hc]
      exact twins_pure rfl
    · rw [if_neg hc]
      refine twins_ite (fun ht => ?_) fun ht => ?_
      · rw [if_pos ht]
        exact ih _
      · rw [if_neg ht]
        refine twins_ite (fun hu => ?_) fun hu => ?_
        · rw [if_pos hu]
          exact twins_pure rfl
        · rw [if_neg hu]
          exact twins_pure rfl

theorem twins_walk (task : TaskPtr) (va : Nat) : Twins env (Beside v)
    (fun found => found = v.start.userEntry task va) (walk task va) := by
  refine twins_read (fun _ _ => rfl) fun k k' h => ?_
  rw [(h.tasks task).root]
  exact twins_walkLevels _ _

/-- The bytes of a range are mapped, as far as `walk` is concerned. -/
def MappedTo (k : Kernel) (task : TaskPtr) (addr n : Nat) : Prop :=
  ∀ i, i < n → ∃ j, j ≤ i ∧ ∃ pte level, k.userEntry task ((addr + j) % 2 ^ 64) = some (pte, level) ∧
    i - j < (pageChunk ((addr + j) % 2 ^ 64) level).2

theorem MappedTo.chunk {addr n rest level : Nat} {pte : Pte} (h : MappedTo v.start task addr n)
    (hentry : v.start.userEntry task ((addr + n) % 2 ^ 64) = some (pte, level))
    (hrest : rest ≤ (pageChunk ((addr + n) % 2 ^ 64) level).2) :
    MappedTo v.start task addr (n + rest) := by
  intro i hi
  by_cases hlt : i < n
  · exact h i hlt
  · exact ⟨n, Nat.not_lt.mp hlt, pte, level, hentry, by omega⟩

theorem twins_readUserMemoryTo (hseen : ∀ a, UserByte v.start task a → v.Seen a) (addr size : Nat) :
    Twins env (Beside v) (fun r => r.1 = true → MappedTo v.start task addr size)
      (readUserMemoryTo task addr size) := by
  refine twins_kloop (fun bytes => bytes.length ≤ size ∧ MappedTo v.start task addr bytes.length)
    (fun bytes hbytes => ?_) ⟨Nat.zero_le _, fun i hi => absurd hi (Nat.not_lt_zero i)⟩
  refine twins_ite (fun hlt => ?_) fun hge => twins_pure fun _ => ?_
  · refine twins_bind (twins_walk _ _) fun found hfound => ?_
    cases found with
    | none => exact twins_pure fun h => absurd h Bool.false_ne_true
    | some found =>
      obtain ⟨pte, level⟩ := found
      dsimp only
      refine twins_get fun k k' h => ⟨?_, twins_pure ⟨?_, ?_⟩⟩
      · rw [h.loadBytes fun j hj => hseen _ (userByte_page hfound.symm
          (Nat.lt_of_lt_of_le hj (Nat.min_le_left _ _)))]
      · show (bytes ++ k.loadBytes _ _).length ≤ size
        rw [List.length_append, Kernel.loadBytes, List.length_map, List.length_range]
        omega
      · show MappedTo v.start task addr (bytes ++ k.loadBytes _ _).length
        rw [List.length_append, Kernel.loadBytes, List.length_map, List.length_range]
        exact hbytes.2.chunk hfound.symm (Nat.min_le_left _ _)
  · rw [show size = bytes.length by omega]
    exact hbytes.2

theorem twins_readUserMemory (hseen : ∀ a, UserByte v.start task a → v.Seen a) (addr size : Nat) :
    Twins env (Beside v) (fun r => r.isSome = true → MappedTo v.start task addr size)
      (readUserMemory task addr size) := by
  refine twins_bind (twins_readUserMemoryTo hseen addr size) fun r hr => twins_pure fun h => ?_
  obtain ⟨success, bytes⟩ := r
  cases success with
  | true => exact hr rfl
  | false => exact absurd h (by simp)

theorem twins_writeUserMemory (hstored : ∀ a, UserByte v.start task a → v.Stored a) (bytes : List UInt8)
    (addr : Nat) : Twins env (Beside v)
      (fun success => success = true → MappedTo v.start task addr bytes.length)
      (writeUserMemory task bytes addr) := by
  refine twins_kloop (fun written => written ≤ bytes.length ∧ MappedTo v.start task addr written)
    (fun written hwritten => ?_) ⟨Nat.zero_le _, fun i hi => absurd hi (Nat.not_lt_zero i)⟩
  refine twins_ite (fun hlt => ?_) fun hge => twins_pure fun _ => ?_
  · refine twins_bind (twins_walk _ _) fun found hfound => ?_
    cases found with
    | none => exact twins_pure fun h => absurd h (by decide)
    | some found =>
      obtain ⟨pte, level⟩ := found
      refine twins_bind (twins_modify fun k k' h => h.storeBytes fun j hj => ?_) fun _ _ =>
        twins_pure ⟨?_, hwritten.2.chunk hfound.symm (Nat.min_le_left _ _)⟩
      · rw [List.length_take] at hj
        exact hstored _ (userByte_page hfound.symm (Nat.lt_of_lt_of_le hj
          (Nat.le_trans (Nat.min_le_left _ _) (Nat.min_le_left _ _))))
      · omega
  · rw [show bytes.length = written by omega]
    exact hwritten.2

/-- The pages of the destination are looked up where a page of the source begins. -/
def MappedAlong (k : Kernel) (srcTask dstTask : TaskPtr) (src dst n : Nat) : Prop :=
  ∀ i, i < n → ∃ j, j ≤ i ∧ ∃ srcPte srcLevel,
    k.userEntry srcTask ((src + j) % 2 ^ 64) = some (srcPte, srcLevel) ∧
    i - j < (pageChunk ((src + j) % 2 ^ 64) srcLevel).2 ∧
    (k.userEntry dstTask ((dst + j) % 2 ^ 64)).isSome = true

theorem twins_forwardUserMemory (hseen : ∀ a, UserByte v.start src a → v.Seen a)
    (hstored : ∀ a, UserByte v.start dst a → v.Stored a) (hover : ∀ a, Overrun v.start dst src a → v.Stored a)
    (srcAddr dstAddr size : Nat) : Twins env (Beside v)
      (fun success => success = true → MappedAlong v.start src dst srcAddr dstAddr size)
      (forwardUserMemory src dst srcAddr dstAddr size) := by
  refine twins_kloop (fun c => c ≤ size ∧ MappedAlong v.start src dst srcAddr dstAddr c)
    (fun c hc => ?_) ⟨Nat.zero_le _, fun i hi => absurd hi (Nat.not_lt_zero i)⟩
  refine twins_ite (fun hlt => ?_) fun hge => twins_pure fun _ => ?_
  · refine twins_bind (twins_walk _ _) fun found hfound => ?_
    cases found with
    | none => exact twins_pure fun h => absurd h (by decide)
    | some found =>
      obtain ⟨srcPte, srcLevel⟩ := found
      refine twins_bind (twins_walk _ _) fun found' hfound' => ?_
      cases found' with
      | none => exact twins_pure fun h => absurd h (by decide)
      | some found' =>
        obtain ⟨dstPte, dstLevel⟩ := found'
        dsimp only
        refine twins_bind (twins_modify fun k k' h => ?_) fun _ _ => twins_pure ⟨by omega, ?_⟩
        · rw [h.loadBytes fun j hj => hseen _ (userByte_page hfound.symm
            (Nat.lt_of_lt_of_le hj (Nat.min_le_left _ _)))]
          refine h.storeBytes fun j hj => ?_
          rw [Kernel.loadBytes, List.length_map, List.length_range] at hj
          -- The byte is on the page of the destination, or behind it.
          by_cases hin : j < (pageChunk ((dstAddr + c) % 2 ^ 64) dstLevel).2
          · exact hstored _ (userByte_page hfound'.symm hin)
          · exact hover _ ⟨_, srcPte, srcLevel, _, dstPte, dstLevel, j, hfound.symm, hfound'.symm,
              Nat.not_lt.mp hin, Nat.lt_of_lt_of_le hj (Nat.min_le_left _ _), rfl⟩
        · intro i hi
          by_cases hbefore : i < c
          · exact hc.2 i hbefore
          · have hrest : i - c < min (pageChunk ((srcAddr + c) % 2 ^ 64) srcLevel).2 (size - c) := by
              change i < c + min (pageChunk ((srcAddr + c) % 2 ^ 64) srcLevel).2 (size - c) at hi
              omega
            refine ⟨c, Nat.not_lt.mp hbefore, srcPte, srcLevel, hfound.symm,
              Nat.lt_of_lt_of_le hrest (Nat.min_le_left _ _), ?_⟩
            rw [← hfound']
            rfl
  · rw [show size = c by omega]
    exact hc.2

/-! ### Capabilities -/

/-- A program that has nothing to do with the memory. -/
abbrev Blind (env : Env) (v : View) (m : K α) : Prop :=
  Twins env (Beside v) (fun _ => True) m

theorem blind_checkSlotTask (slot : SlotPtr) : Blind env v (checkSlotTask slot) := by
  refine twins_read (fun _ _ => rfl) fun _ _ _ => twins_bind (twins_deref _) fun _ _ => ?_
  refine twins_read (fun _ _ => rfl) fun _ _ _ => ?_
  exact twins_ite (fun _ => twins_stop _) fun _ => twins_pure trivial

theorem blind_setLinks (f : Kernel → Links SlotPtr) (hf : ∀ k m, f { k with memory := m } = f k) :
    Blind env v (modify fun k => k.setLinks (f k) : K Unit) :=
  twins_store (fun k m => by rw [hf]; rfl) (fun _ => rfl) fun _ t => .refl t _

theorem blind_insertBefore (this slot : SlotPtr) : Blind env v (insertBefore this slot) := by
  refine twins_read (fun _ _ => rfl) fun _ _ _ => twins_bind (twins_kassert _) fun _ _ => ?_
  exact twins_bind (blind_checkSlotTask slot) fun _ _ => blind_setLinks _ fun _ _ => rfl

theorem blind_insertAfter (this slot : SlotPtr) : Blind env v (insertAfter this slot) := by
  refine twins_read (fun _ _ => rfl) fun _ _ _ => twins_bind (twins_kassert _) fun _ _ => ?_
  refine twins_bind (blind_checkSlotTask slot) fun _ _ => ?_
  refine twins_bind (twins_kloop (fun _ => True) (fun tail _ => ?_) trivial) fun tail (_ : True) => ?_
  · refine twins_read (fun _ _ => rfl) fun k _ _ => ?_
    cases (k.slots tail).next with
    | none => exact twins_pure trivial
    | some next => exact twins_pure trivial
  · exact blind_setLinks _ fun _ _ => rfl

theorem blind_eraseThis (this : SlotPtr) : Blind env v (eraseThis this) := by
  refine twins_bind (blind_checkSlotTask this) fun _ _ => twins_read (fun _ _ => rfl) fun _ _ _ => ?_
  exact twins_bind (blind_setLinks _ fun _ _ => rfl) fun _ _ => twins_pure trivial

theorem blind_replace (this slot : SlotPtr) : Blind env v (replace this slot) := by
  refine twins_read (fun _ _ => rfl) fun _ _ _ => twins_bind (twins_kassert _) fun _ _ => ?_
  exact twins_bind (blind_checkSlotTask slot) fun _ _ => blind_setLinks _ fun _ _ => rfl

theorem blind_setCap (slot : SlotPtr) (cap : Capability) :
    Blind env v (modify fun k => k.setCap slot cap : K Unit) :=
  twins_store (fun _ _ => rfl) (fun _ => rfl) fun _ t => .refl t _

/-- Stores to one task, which leave its root table. -/
theorem blind_setTask (task : TaskPtr) (f : Task → Task)
    (hf : ∀ t, SameMessage v.Loose task t (f t)) :
    Blind env v (modify fun k => k.setTask task (f (k.tasks task)) : K Unit) := by
  refine twins_store (fun _ _ => rfl) (fun _ => rfl) fun k t => ?_
  show SameMessage v.Loose t (k.tasks t) (upd k.tasks task (f (k.tasks task)) t)
  rw [upd_apply]
  split
  · rename_i h
    rw [h]
    exact hf _
  · exact .refl t _

theorem blind_pushFreeSlots (task : TaskPtr) (slot : SlotPtr) :
    Blind env v (pushFreeSlots task slot) := by
  refine twins_read (fun _ _ => rfl) fun _ _ _ => twins_bind (twins_kassert _) fun _ _ => ?_
  refine twins_bind (blind_eraseThis slot) fun _ _ => twins_bind (blind_setCap _ _) fun _ _ => ?_
  have hhead : Blind env v (modify fun k => k.setTask task { k.tasks task with
      freeSlots := some slot, freeSlotsCount := (k.tasks task).freeSlotsCount + 1 } : K Unit) :=
    blind_setTask task (fun t => { t with
      freeSlots := some slot, freeSlotsCount := t.freeSlotsCount + 1 }) fun _ => ⟨rfl, rfl, fun _ => rfl⟩
  refine twins_read (fun _ _ => rfl) fun k _ _ => ?_
  cases (k.tasks task).freeSlots with
  | none => exact hhead
  | some head => exact twins_bind (blind_insertBefore head slot) fun _ _ => hhead

theorem blind_popFreeSlots (task : TaskPtr) : Blind env v (popFreeSlots task) := by
  refine twins_read (fun _ _ => rfl) fun k _ _ => ?_
  cases (k.tasks task).freeSlots with
  | none => exact twins_bind (twins_setErrno _) fun _ _ => twins_pure trivial
  | some slot =>
    refine twins_bind (blind_eraseThis slot) fun head _ => ?_
    have hhead : Blind env v (modify fun k => k.setTask task { k.tasks task with
        freeSlots := head, freeSlotsCount := (k.tasks task).freeSlotsCount - 1 } : K Unit) :=
      blind_setTask task (fun t => { t with
        freeSlots := head, freeSlotsCount := t.freeSlotsCount - 1 }) fun _ => ⟨rfl, rfl, fun _ => rfl⟩
    exact twins_bind hhead fun _ _ => twins_pure trivial

theorem blind_insertCap (task : TaskPtr) (cap : Capability) :
    Blind env v (insertCap task cap) := by
  refine twins_read (fun _ _ => rfl) fun _ _ _ => twins_ite (fun _ => ?_) fun _ => ?_
  · exact twins_bind (twins_setErrno _) fun _ _ => twins_pure trivial
  · refine twins_bind (blind_popFreeSlots task) fun slot _ => ?_
    cases slot with
    | none => exact twins_bind (twins_setErrno _) fun _ _ => twins_pure trivial
    | some slot => exact twins_bind (blind_setCap _ _) fun _ _ => twins_pure trivial

/-- A call that fails with an error code. -/
theorem blind_fail (e : SysError) :
    Blind env v (do setErrno e; return none : K (Option α)) :=
  twins_bind (twins_setErrno e) fun _ _ => twins_pure trivial

theorem blind_transferCap (task : TaskPtr) (slot : Option SlotPtr) :
    Blind env v (transferCap task slot) := by
  refine twins_bind (twins_kassert _) fun _ _ => twins_bind (twins_deref _) fun srcSlot _ => ?_
  refine twins_read (fun _ _ => rfl) fun _ _ _ => twins_bind (twins_deref _) fun srcTask _ => ?_
  refine twins_read (fun _ _ => rfl) fun _ _ _ => twins_ite (fun _ => blind_fail _) fun _ => ?_
  refine twins_read (fun _ _ => rfl) fun _ _ _ => twins_ite (fun _ => blind_fail _) fun _ => ?_
  refine twins_read (fun _ _ => rfl) fun _ _ _ => twins_ite (fun _ => blind_fail _) fun _ => ?_
  refine twins_read (fun _ _ => rfl) fun _ _ _ => twins_bind (blind_insertCap _ _) fun found _ => ?_
  cases found with
  | none => exact twins_pure trivial
  | some dstSlot =>
    refine twins_bind (blind_replace _ _) fun _ _ => ?_
    exact twins_bind (blind_pushFreeSlots _ _) fun _ _ => twins_pure trivial

theorem blind_delegateCap (task : TaskPtr) (slot : Option SlotPtr) :
    Blind env v (delegateCap task slot) := by
  refine twins_bind (twins_deref _) fun srcSlot _ => ?_
  refine twins_read (fun _ _ => rfl) fun _ _ _ => twins_bind (twins_deref _) fun srcTask _ => ?_
  refine twins_read (fun _ _ => rfl) fun _ _ _ => twins_ite (fun _ => blind_fail _) fun _ => ?_
  refine twins_read (fun _ _ => rfl) fun _ _ _ => twins_ite (fun _ => blind_fail _) fun _ => ?_
  refine twins_read (fun _ _ => rfl) fun _ _ _ => twins_ite (fun _ => blind_fail _) fun _ => ?_
  refine twins_read (fun _ _ => rfl) fun _ _ _ => twins_bind (blind_insertCap _ _) fun found _ => ?_
  cases found with
  | none => exact twins_pure trivial
  | some dstSlot =>
    refine twins_bind (blind_setCap _ _) fun _ _ => ?_
    exact twins_bind (blind_insertAfter _ _) fun _ _ => twins_pure trivial

theorem blind_walkMapped (levels : List Nat) (table : TablePtr) :
    Blind env v (walkMapped va levels table) := by
  induction levels generalizing table with
  | nil => exact twins_pure trivial
  | cons level levels ih =>
    refine twins_bind (twins_pageTableWalk va level) fun _ _ => ?_
    refine twins_read (fun _ _ => rfl) fun _ _ _ => ?_
    exact twins_ite (fun _ => twins_pure trivial) fun _ => ih _

theorem blind_lookupCap (task : TaskPtr) (desc : Nat) :
    Blind env v (lookupCap task desc) := by
  refine twins_read (fun _ _ => rfl) fun _ _ _ => twins_ite (fun _ => blind_fail _) fun _ => ?_
  refine twins_ite (fun _ => blind_fail _) fun _ => ?_
  refine twins_bind (blind_walkMapped _ _) fun found _ => ?_
  cases found with
  | none => exact blind_fail _
  | some space =>
    refine twins_read (fun _ _ => rfl) fun _ _ _ => ?_
    exact twins_ite (fun _ => blind_fail _) fun _ => twins_pure trivial

theorem blind_getCapSlotIndex (slot : SlotPtr) : Blind env v (getCapSlotIndex slot) :=
  twins_read (fun _ _ => rfl) fun _ _ _ => twins_pure trivial

end Caprese

import Caprese.Lib.Prog
import Mathlib.Data.Fintype.EquivFin

/-!
# `Caprese.Lib.Paging`: copies through an address translation

A `Paging` translates virtual addresses page by page. `chunk va` is where the byte of `va`
lies, and how many bytes from there on lie on the same page. What is done byte by byte, and
what is done chunk by chunk, is the same: `reach_chunk`, `fetch_chunk` and `store_chunk` are
the steps of a copy that goes from page to page.

* `reach va n`: how many of the `n` bytes from `va` on are mapped, up to the first that is not.
* `fetch m va n`: these bytes in the memory `m`.
* `store m va bytes`: the memory after `bytes` were stored one at a time, in increasing order,
  up to the first address that is not mapped.
-/

set_option autoImplicit false

namespace Lib

/-- A translation of addresses that maps pages. -/
structure Paging where
  chunk : Nat → Option (Nat × Nat)
  pos : ∀ {va pa rest}, chunk va = some (pa, rest) → 0 < rest
  linear : ∀ {va pa rest j}, chunk va = some (pa, rest) → j < rest →
    chunk (va + j) = some (pa + j, rest - j)

namespace Paging

variable {β : Type} (P : Paging) (m : Nat → β)

/-- Where the byte of `va` lies. -/
def translate (va : Nat) : Option Nat := (P.chunk va).map Prod.fst

/-- How many of the bytes from `va` on are mapped. -/
def reach (va : Nat) : Nat → Nat
  | 0 => 0
  | n + 1 =>
    match P.translate va with
    | none => 0
    | some _ => reach (va + 1) n + 1

/-- The mapped ones of the bytes from `va` on. -/
def fetch (va : Nat) : Nat → List β
  | 0 => []
  | n + 1 =>
    match P.translate va with
    | none => []
    | some pa => m pa :: fetch (va + 1) n

/-- The memory after the stores of bytes, one at a time. -/
def store (m : Nat → β) (va : Nat) : List β → Nat → β
  | [] => m
  | b :: bytes =>
    match P.translate va with
    | none => m
    | some pa => store (upd m pa b) (va + 1) bytes

/-- A range of the physical memory. -/
def load (pa n : Nat) : List β := (List.range n).map fun i => m (pa + i)

/-- The memory after a range of it was stored. -/
def blit (m : Nat → β) (pa : Nat) : List β → Nat → β
  | [] => m
  | b :: bytes => blit (upd m pa b) (pa + 1) bytes

variable {P m} {Q : Paging} {va vb pa pb rest n n' i j a : Nat} {bytes bytes' : List β} {b : β}

/-! ### Ranges of the physical memory -/

@[simp] theorem length_load : (load m pa n).length = n := by
  unfold load
  rw [List.length_map, List.length_range]

theorem load_succ : load m pa (n + 1) = m pa :: load m (pa + 1) n := by
  unfold load
  rw [List.range_succ_eq_map, List.map_cons, List.map_map]
  refine congrArg₂ _ rfl (List.map_congr_left fun i _ => ?_)
  show m (pa + (i + 1)) = m (pa + 1 + i)
  rw [show pa + (i + 1) = pa + 1 + i by omega]

theorem load_congr {m' : Nat → β} (h : ∀ i, i < n → m' (pa + i) = m (pa + i)) :
    load m' pa n = load m pa n :=
  List.map_congr_left fun i hi => h i (List.mem_range.mp hi)

theorem blit_ne (h : ¬ (pa ≤ a ∧ a < pa + bytes.length)) : blit m pa bytes a = m a := by
  induction bytes generalizing m pa with
  | nil => rfl
  | cons b bytes ih =>
    rw [List.length_cons] at h
    show blit (upd m pa b) (pa + 1) bytes a = m a
    rw [ih (by omega), upd_ne _ _ (by omega)]

theorem blit_apply (hi : i < bytes.length) : blit m pa bytes (pa + i) = bytes[i] := by
  induction bytes generalizing m pa i with
  | nil => exact absurd hi (Nat.not_lt_zero i)
  | cons b bytes ih =>
    show blit (upd m pa b) (pa + 1) bytes (pa + i) = _
    cases i with
    | zero =>
      rw [blit_ne (by omega)]
      exact upd_same _ _ _
    | succ i =>
      rw [show pa + (i + 1) = pa + 1 + i by omega, ih (by simpa using hi)]
      rfl

/-! ### From page to page -/

theorem translate_eq_none : P.translate va = none ↔ P.chunk va = none := by
  unfold translate
  rw [Option.map_eq_none_iff]

theorem translate_of_chunk (h : P.chunk va = some (pa, rest)) : P.translate va = some pa := by
  unfold translate
  rw [h]
  rfl

theorem translate_chunk (h : P.chunk va = some (pa, rest)) (hj : j < rest) :
    P.translate (va + j) = some (pa + j) := translate_of_chunk (P.linear h hj)

/-- The rest of a page, behind its first byte. -/
theorem chunk_succ (h : P.chunk va = some (pa, rest)) (hn : n + 1 ≤ rest) (hpos : 0 < n) :
    P.chunk (va + 1) = some (pa + 1, rest - 1) ∧ n ≤ rest - 1 :=
  ⟨P.linear h (by omega), by omega⟩

theorem reach_succ (h : P.translate va = some pa) :
    P.reach va (n + 1) = P.reach (va + 1) n + 1 := by
  show (match P.translate va with | none => 0 | some _ => P.reach (va + 1) n + 1) = _
  rw [h]

theorem fetch_succ (h : P.translate va = some pa) :
    P.fetch m va (n + 1) = m pa :: P.fetch m (va + 1) n := by
  show (match P.translate va with | none => [] | some pa => m pa :: P.fetch m (va + 1) n) = _
  rw [h]

theorem store_cons (h : P.translate va = some pa) :
    P.store m va (b :: bytes) = P.store (upd m pa b) (va + 1) bytes := by
  show (match P.translate va with | none => m | some pa => P.store (upd m pa b) (va + 1) bytes) = _
  rw [h]

theorem reach_unmapped (h : P.translate va = none) : P.reach va n = 0 := by
  cases n with
  | zero => rfl
  | succ n =>
    show (match P.translate va with | none => 0 | some _ => P.reach (va + 1) n + 1) = _
    rw [h]

theorem fetch_unmapped (h : P.translate va = none) : P.fetch m va n = [] := by
  cases n with
  | zero => rfl
  | succ n =>
    show (match P.translate va with | none => [] | some pa => m pa :: P.fetch m (va + 1) n) = _
    rw [h]

theorem store_unmapped (h : P.translate va = none) : P.store m va bytes = m := by
  cases bytes with
  | nil => rfl
  | cons b bytes =>
    show (match P.translate va with
      | none => m
      | some pa => P.store (upd m pa b) (va + 1) bytes) = _
    rw [h]

theorem reach_chunk (h : P.chunk va = some (pa, rest)) (hn : n ≤ rest) :
    P.reach va (n + n') = n + P.reach (va + n) n' := by
  induction n generalizing va pa rest with
  | zero => simp
  | succ n ih =>
    rw [show n + 1 + n' = n + n' + 1 by omega, reach_succ (translate_of_chunk h)]
    rcases Nat.eq_zero_or_pos n with rfl | hpos
    · simp [Nat.add_comm]
    · obtain ⟨h', hn'⟩ := chunk_succ h hn hpos
      rw [ih h' hn', show va + 1 + n = va + (n + 1) by omega]
      omega

theorem fetch_chunk (h : P.chunk va = some (pa, rest)) (hn : n ≤ rest) :
    P.fetch m va (n + n') = load m pa n ++ P.fetch m (va + n) n' := by
  induction n generalizing va pa rest with
  | zero => simp [load]
  | succ n ih =>
    rw [show n + 1 + n' = n + n' + 1 by omega, fetch_succ (translate_of_chunk h), load_succ]
    rcases Nat.eq_zero_or_pos n with rfl | hpos
    · simp [load]
    · obtain ⟨h', hn'⟩ := chunk_succ h hn hpos
      rw [ih h' hn', show va + 1 + n = va + (n + 1) by omega]
      rfl

theorem store_chunk (h : P.chunk va = some (pa, rest)) (hn : bytes.length ≤ rest) :
    P.store m va (bytes ++ bytes') = P.store (blit m pa bytes) (va + bytes.length) bytes' := by
  induction bytes generalizing m va pa rest with
  | nil => rfl
  | cons b bytes ih =>
    rw [List.cons_append, store_cons (translate_of_chunk h), List.length_cons]
    cases bytes with
    | nil => rfl
    | cons b' bytes =>
      obtain ⟨h', hn'⟩ := chunk_succ h hn (Nat.succ_pos _)
      rw [ih h' hn', show va + 1 + (b' :: bytes).length = va + ((b' :: bytes).length + 1) by omega]
      rfl

/-! ### Byte by byte -/

theorem length_fetch : (P.fetch m va n).length = P.reach va n := by
  induction n generalizing va with
  | zero => rfl
  | succ n ih =>
    cases h : P.translate va with
    | none => rw [fetch_unmapped h, reach_unmapped h, List.length_nil]
    | some pa => rw [fetch_succ h, reach_succ h, List.length_cons, ih]

theorem reach_le : P.reach va n ≤ n := by
  induction n generalizing va with
  | zero => exact Nat.le_refl 0
  | succ n ih =>
    cases h : P.translate va with
    | none =>
      rw [reach_unmapped h]
      exact Nat.zero_le _
    | some pa =>
      rw [reach_succ h]
      exact Nat.succ_le_succ ih

/-- The bytes in front of the first one that is not mapped. -/
theorem translate_of_lt_reach (hi : i < P.reach va n) : ∃ pa, P.translate (va + i) = some pa := by
  induction n generalizing va i with
  | zero => exact absurd hi (Nat.not_lt_zero i)
  | succ n ih =>
    cases h : P.translate va with
    | none =>
      rw [reach_unmapped h] at hi
      exact absurd hi (Nat.not_lt_zero i)
    | some pa =>
      rw [reach_succ h] at hi
      cases i with
      | zero => exact ⟨pa, h⟩
      | succ i =>
        rw [show va + (i + 1) = va + 1 + i by omega]
        exact ih (by omega)

/-- The first byte that is not mapped. -/
theorem translate_reach (h : P.reach va n < n) : P.translate (va + P.reach va n) = none := by
  induction n generalizing va with
  | zero => exact absurd h (Nat.not_lt_zero _)
  | succ n ih =>
    cases hva : P.translate va with
    | none =>
      rw [reach_unmapped hva]
      exact hva
    | some pa =>
      rw [reach_succ hva] at h ⊢
      rw [show va + (P.reach (va + 1) n + 1) = va + 1 + P.reach (va + 1) n by omega]
      exact ih (by omega)

theorem reach_eq_iff : P.reach va n = n ↔ ∀ i, i < n → (P.translate (va + i)).isSome = true := by
  constructor
  · intro h i hi
    obtain ⟨pa, hpa⟩ := translate_of_lt_reach (h.symm ▸ hi : i < P.reach va n)
    rw [hpa]
    rfl
  · intro h
    by_contra hne
    have hlt : P.reach va n < n := Nat.lt_of_le_of_ne reach_le hne
    have hsome := h _ hlt
    rw [translate_reach hlt] at hsome
    exact absurd hsome (by decide)

theorem getElem?_fetch (hi : i < P.reach va n) :
    (P.fetch m va n)[i]? = (P.translate (va + i)).map m := by
  induction n generalizing va i with
  | zero => exact absurd hi (Nat.not_lt_zero i)
  | succ n ih =>
    cases h : P.translate va with
    | none =>
      rw [reach_unmapped h] at hi
      exact absurd hi (Nat.not_lt_zero i)
    | some pa =>
      rw [reach_succ h] at hi
      rw [fetch_succ h]
      cases i with
      | zero =>
        show some (m pa) = (P.translate va).map m
        rw [h]
        rfl
      | succ i =>
        rw [show va + (i + 1) = va + 1 + i by omega]
        exact ih (by omega)

theorem reach_add (h : P.reach va n = n) : P.reach va (n + n') = n + P.reach (va + n) n' := by
  induction n generalizing va with
  | zero => simp
  | succ n ih =>
    cases hva : P.translate va with
    | none =>
      rw [reach_unmapped hva] at h
      exact absurd h (by simp)
    | some pa =>
      rw [reach_succ hva] at h
      rw [show n + 1 + n' = n + n' + 1 by omega, reach_succ hva, ih (by omega),
        show va + 1 + n = va + (n + 1) by omega]
      omega

theorem fetch_add (h : P.reach va n = n) :
    P.fetch m va (n + n') = P.fetch m va n ++ P.fetch m (va + n) n' := by
  induction n generalizing va with
  | zero => simp [fetch]
  | succ n ih =>
    cases hva : P.translate va with
    | none =>
      rw [reach_unmapped hva] at h
      exact absurd h (by simp)
    | some pa =>
      rw [reach_succ hva] at h
      rw [show n + 1 + n' = n + n' + 1 by omega, fetch_succ hva, fetch_succ hva, ih (by omega),
        show va + 1 + n = va + (n + 1) by omega, List.cons_append]

/-- A copy that meets an unmapped byte ends there. -/
theorem reach_stop (h : P.reach va n = n) (hstop : P.translate (va + n) = none) (hn : n ≤ n') :
    P.reach va n' = n := by
  rw [← Nat.add_sub_cancel' hn, reach_add h, reach_unmapped hstop, Nat.add_zero]

theorem fetch_stop (h : P.reach va n = n) (hstop : P.translate (va + n) = none) (hn : n ≤ n') :
    P.fetch m va n' = P.fetch m va n := by
  rw [← Nat.add_sub_cancel' hn, fetch_add h, fetch_unmapped hstop, List.append_nil]

/-- One page more. -/
theorem reach_next (h : P.reach va n = n) (hchunk : P.chunk (va + n) = some (pa, rest))
    (hn : n' ≤ rest) : P.reach va (n + n') = n + n' := by
  have hpage : P.reach (va + n) (n' + 0) = n' + P.reach (va + n + n') 0 := reach_chunk hchunk hn
  rw [Nat.add_zero] at hpage
  rw [reach_add h, hpage]
  rfl

theorem fetch_next (h : P.reach va n = n) (hchunk : P.chunk (va + n) = some (pa, rest))
    (hn : n' ≤ rest) : P.fetch m va (n + n') = P.fetch m va n ++ load m pa n' := by
  have hpage : P.fetch m (va + n) (n' + 0) = load m pa n' ++ P.fetch m (va + n + n') 0 :=
    fetch_chunk hchunk hn
  rw [Nat.add_zero] at hpage
  rw [fetch_add h, hpage]
  exact congrArg _ (List.append_nil _)

/-- The stores change mapped bytes only. -/
theorem store_ne (h : ∀ i, i < bytes.length → P.translate (va + i) ≠ some a) :
    P.store m va bytes a = m a := by
  induction bytes generalizing m va with
  | nil => rfl
  | cons b bytes ih =>
    cases hva : P.translate va with
    | none => rw [store_unmapped hva]
    | some pa =>
      have hne : a ≠ pa := by
        rintro rfl
        exact h 0 (Nat.succ_pos _) hva
      rw [store_cons hva, ih fun i hi => ?_, upd_ne _ _ hne]
      rw [show va + 1 + i = va + (i + 1) by omega]
      exact h (i + 1) (Nat.succ_lt_succ hi)

theorem store_append (h : P.reach va bytes.length = bytes.length) :
    P.store m va (bytes ++ bytes') = P.store (P.store m va bytes) (va + bytes.length) bytes' := by
  induction bytes generalizing m va with
  | nil => rfl
  | cons b bytes ih =>
    cases hva : P.translate va with
    | none =>
      rw [reach_unmapped hva] at h
      exact absurd h (by simp)
    | some pa =>
      rw [List.length_cons, reach_succ hva] at h
      rw [List.cons_append, store_cons hva, store_cons hva, ih (by omega), List.length_cons,
        show va + 1 + bytes.length = va + (bytes.length + 1) by omega]

theorem store_stop (h : P.reach va bytes.length = bytes.length)
    (hstop : P.translate (va + bytes.length) = none) :
    P.store m va (bytes ++ bytes') = P.store m va bytes := by
  rw [store_append h, store_unmapped hstop]

theorem store_next (h : P.reach va bytes.length = bytes.length)
    (hchunk : P.chunk (va + bytes.length) = some (pa, rest)) (hn : bytes'.length ≤ rest) :
    P.store m va (bytes ++ bytes') = blit (P.store m va bytes) pa bytes' := by
  have hpage : P.store (P.store m va bytes) (va + bytes.length) (bytes' ++ []) = _ :=
    store_chunk hchunk hn
  rw [List.append_nil] at hpage
  rw [store_append h, hpage]
  rfl

/-- The stores to bytes that lie in a row, also over the ends of pages. -/
theorem store_row (h : ∀ j, j < bytes.length → P.translate (va + j) = some (pa + j)) :
    P.store m va bytes = blit m pa bytes := by
  induction bytes generalizing m va pa with
  | nil => rfl
  | cons b bytes ih =>
    have hfirst : P.translate va = some pa := h 0 (Nat.succ_pos _)
    rw [store_cons hfirst]
    refine ih fun j hj => ?_
    rw [show va + 1 + j = va + (j + 1) by omega, show pa + 1 + j = pa + (j + 1) by omega]
    exact h (j + 1) (Nat.succ_lt_succ hj)

/-! ### From one translation to another one -/

variable (P Q va vb n)

/-- A copy of `n` bytes that goes by the pages of its source `P` stops at the byte `c`. -/
def Boundary (c : Nat) : Prop := c = 0 ∨ ∃ pa, P.chunk (va + (c - 1)) = some (pa, 1)

/-- A copy that goes by the pages of its source meets mapped bytes only. -/
structure GetsThrough : Prop where
  source : ∀ i, i < n → (P.translate (va + i)).isSome = true
  first : 0 < n → (Q.translate vb).isSome = true
  next : ∀ i pa, i + 1 < n → P.chunk (va + i) = some (pa, 1) →
    (Q.translate (vb + (i + 1))).isSome = true

/-- All along a page of the source the destination lies in a row. -/
def LinesUp : Prop :=
  ∀ i pa rest, i + 1 < n → P.chunk (va + i) = some (pa, rest) → 1 < rest →
    ∃ pb, Q.translate (vb + i) = some pb ∧ Q.translate (vb + (i + 1)) = some (pb + 1)

/-- The bytes of the two buffers are different ones. -/
def Apart : Prop :=
  ∀ i j pa, i < n → j < n → P.translate (va + i) = some pa → Q.translate (vb + j) ≠ some pa

variable {P Q va vb n}

theorem GetsThrough.zero : P.GetsThrough Q va vb 0 :=
  ⟨fun _ hi => absurd hi (Nat.not_lt_zero _), fun h => absurd h (Nat.not_lt_zero _),
    fun _ _ hi => absurd hi (Nat.not_lt_zero _)⟩

theorem GetsThrough.mono (h : P.GetsThrough Q va vb n) (hn : n' ≤ n) :
    P.GetsThrough Q va vb n' :=
  ⟨fun i hi => h.source i (Nat.lt_of_lt_of_le hi hn), fun h' => h.first (Nat.lt_of_lt_of_le h' hn),
    fun i pa hi => h.next i pa (Nat.lt_of_lt_of_le hi hn)⟩

/-- A copy that gets through meets a mapped byte of the destination wherever it stops. -/
theorem GetsThrough.dest (h : P.GetsThrough Q va vb n) {c : Nat} (hc : P.Boundary va c)
    (hlt : c < n) : (Q.translate (vb + c)).isSome = true := by
  rcases hc with rfl | ⟨pa, hpa⟩
  · exact h.first hlt
  · rcases Nat.eq_zero_or_pos c with rfl | hpos
    · exact h.first hlt
    · have hnext := h.next (c - 1) pa (by omega) hpa
      rwa [Nat.sub_add_cancel hpos] at hnext

/-- One page of the source more. -/
theorem GetsThrough.chunk {c : Nat} (h : P.GetsThrough Q va vb c)
    (hchunk : P.chunk (va + c) = some (pa, rest)) (hdest : (Q.translate (vb + c)).isSome = true)
    (hn : n ≤ rest) : P.GetsThrough Q va vb (c + n) where
  source i hi := by
    by_cases hic : i < c
    · exact h.source i hic
    · obtain ⟨j, rfl⟩ := Nat.exists_eq_add_of_le (Nat.not_lt.mp hic)
      rw [← Nat.add_assoc, translate_chunk hchunk (by omega)]
      rfl
  first hpos := by
    rcases Nat.eq_zero_or_pos c with rfl | hc
    · exact hdest
    · exact h.first hc
  next i pb hi hone := by
    by_cases hic : i + 1 < c
    · exact h.next i pb hic hone
    · by_cases heq : i + 1 = c
      · rw [heq]
        exact hdest
      · obtain ⟨j, rfl⟩ : ∃ j, i = c + j := Nat.exists_eq_add_of_le (by omega)
        have hrest := P.linear hchunk (show j < rest by omega)
        rw [Nat.add_assoc, hone] at hrest
        have hlast : 1 = rest - j := (Prod.mk.inj (Option.some.inj hrest)).2
        omega

theorem boundary_chunk {c : Nat} (hchunk : P.chunk (va + c) = some (pa, rest)) :
    P.Boundary va (c + rest) := by
  have hpos := P.pos hchunk
  have hlast := P.linear hchunk (show rest - 1 < rest by omega)
  refine Or.inr ⟨pa + (rest - 1), ?_⟩
  rw [show va + (c + rest - 1) = va + c + (rest - 1) by omega, hlast,
    show rest - (rest - 1) = 1 by omega]

/-- From one stop to the next one there is none in between. -/
theorem boundary_le {c c' : Nat} (hchunk : P.chunk (va + c) = some (pa, rest))
    (hc' : P.Boundary va c') (hlt : c < c') : c + rest ≤ c' := by
  obtain ⟨qa, hqa⟩ := hc'.resolve_left (by omega)
  by_contra hgt
  have hin := P.linear hchunk (show c' - 1 - c < rest by omega)
  rw [show va + c + (c' - 1 - c) = va + (c' - 1) by omega, hqa] at hin
  have hlast : 1 = rest - (c' - 1 - c) := (Prod.mk.inj (Option.some.inj hin)).2
  omega

/-- Where the bytes of one page of the source land. -/
theorem LinesUp.row (h : P.LinesUp Q va vb n) {c : Nat}
    (hchunk : P.chunk (va + c) = some (pa, rest)) (hdest : Q.translate (vb + c) = some pb)
    (hj : j < rest) (hn : c + j < n) : Q.translate (vb + c + j) = some (pb + j) := by
  induction j with
  | zero => exact hdest
  | succ j ih =>
    have hprev := ih (by omega) (by omega)
    have hrest := P.linear hchunk (show j < rest by omega)
    obtain ⟨pb', hpb', hnext⟩ := h (c + j) _ _ (by omega)
      (by rw [← Nat.add_assoc]; exact hrest) (by omega)
    rw [← Nat.add_assoc] at hpb'
    obtain rfl : pb + j = pb' := Option.some.inj (hprev.symm.trans hpb')
    rw [show vb + c + (j + 1) = vb + (c + j + 1) by omega, hnext]
    rfl

/-- The bytes of a buffer are different ones. -/
def Distinct (P : Paging) (va n : Nat) : Prop :=
  ∀ i j pa, i < n → j < n → P.translate (va + i) = some pa → P.translate (va + j) = some pa → i = j

/-- A byte that is stored once. -/
theorem store_apply (h : P.Distinct va bytes.length) (hall : P.reach va bytes.length = bytes.length)
    (hi : i < bytes.length) (hpa : P.translate (va + i) = some pa) :
    P.store m va bytes pa = bytes[i] := by
  have hsplit : bytes = bytes.take i ++ bytes[i] :: bytes.drop (i + 1) := by
    rw [← List.drop_eq_getElem_cons hi, List.take_append_drop]
  have htake : (bytes.take i).length = i := by
    rw [List.length_take]
    omega
  have hreach : P.reach va i = i := reach_eq_iff.mpr fun j hj =>
    reach_eq_iff.mp hall j (by omega)
  conv_lhs => rw [hsplit]
  rw [store_append (by rw [htake, hreach]), htake, store_cons hpa, store_ne fun j hj hlater => ?_,
    upd_same]
  rw [List.length_drop] at hj
  rw [show va + i + 1 + j = va + (i + 1 + j) by omega] at hlater
  have heq := h i (i + 1 + j) pa hi (by omega) hpa hlater
  omega

/-- An invariant of the memory in a copy that goes by the pages of its source. -/
def CopyStep (P Q : Paging) (va vb n : Nat) (M : Nat → (Nat → β) → Prop) : Prop :=
  ∀ c m pa rest pb, c < n → P.Boundary va c → P.chunk (va + c) = some (pa, rest) →
    Q.translate (vb + c) = some pb → M c m →
    M (c + min rest (n - c)) (blit m pb (load m pa (min rest (n - c))))

/-- Where the destination lines up, and the buffers are apart, the copy stores byte by byte what
was read byte by byte. -/
theorem LinesUp.copyStep (h : P.LinesUp Q va vb n) (hapart : P.Apart Q va vb n) :
    P.CopyStep Q va vb n fun c m' => P.reach va c = c ∧ Q.reach vb c = c ∧
      m' = Q.store m vb (P.fetch m va c) := by
  rintro c m' pa rest pb hlt - hsrc hdst ⟨hP, hQ, rfl⟩
  have hrow : ∀ j, j < min rest (n - c) → Q.translate (vb + c + j) = some (pb + j) :=
    fun j hj => h.row hsrc hdst (by omega) (by omega)
  have hlength : (P.fetch m va c).length = c := by rw [length_fetch, hP]
  have hload : load (Q.store m vb (P.fetch m va c)) pa (min rest (n - c))
      = load m pa (min rest (n - c)) := by
    -- The bytes of the source are not among those that were stored.
    refine load_congr fun j hj => store_ne fun i hi hdest => ?_
    have htranslate := translate_chunk hsrc (show j < rest by omega)
    rw [Nat.add_assoc] at htranslate
    exact hapart (c + j) i _ (by omega) (by omega) htranslate hdest
  refine ⟨reach_next hP hsrc (Nat.min_le_left _ _), reach_eq_iff.mpr fun i hi => ?_, ?_⟩
  · by_cases hic : i < c
    · exact reach_eq_iff.mp hQ i hic
    · obtain ⟨j, rfl⟩ := Nat.exists_eq_add_of_le (Nat.not_lt.mp hic)
      rw [← Nat.add_assoc, hrow j (by omega)]
      rfl
  · rw [hload, fetch_next hP hsrc (Nat.min_le_left _ _), store_append (by rw [hlength, hQ]), hlength,
      store_row fun j hj => hrow j (by rwa [length_load] at hj)]

/-! ### Where the bytes land -/

section Landing

variable (P Q va vb)

/-- Where the byte `j` of a copy lands that goes by the pages of its source. -/
def landing : Nat → Nat
  | 0 => (Q.translate vb).getD 0
  | j + 1 =>
    match P.chunk (va + j) with
    | some (_, 1) => (Q.translate (vb + (j + 1))).getD 0
    | _ => landing j + 1

variable {P Q va vb}

theorem landing_boundary {c : Nat} (hc : P.Boundary va c) (h : Q.translate (vb + c) = some pb) :
    P.landing Q va vb c = pb := by
  cases c with
  | zero =>
    show (Q.translate vb).getD 0 = pb
    rw [show Q.translate vb = some pb from h]
    rfl
  | succ c =>
    obtain ⟨pa, hpa⟩ := hc.resolve_left (Nat.succ_ne_zero c)
    rw [Nat.add_sub_cancel] at hpa
    unfold landing
    rw [hpa]
    show (Q.translate (vb + (c + 1))).getD 0 = pb
    rw [h]
    rfl

theorem landing_succ (h : P.chunk (va + j) = some (pa, rest)) (hrest : 1 < rest) :
    P.landing Q va vb (j + 1) = P.landing Q va vb j + 1 := by
  conv_lhs => unfold landing
  rw [h]
  split
  · rename_i heq
    obtain ⟨-, rfl⟩ := Prod.mk.inj (Option.some.inj heq)
    exact absurd hrest (Nat.lt_irrefl 1)
  · rfl

/-- The bytes of one page of the source land in a row. -/
theorem landing_chunk {c : Nat} (hc : P.Boundary va c) (hsrc : P.chunk (va + c) = some (pa, rest))
    (hdst : Q.translate (vb + c) = some pb) (hj : j < rest) :
    P.landing Q va vb (c + j) = pb + j := by
  induction j with
  | zero => exact landing_boundary hc hdst
  | succ j ih =>
    have hchunk := P.linear hsrc (show j < rest by omega)
    rw [Nat.add_assoc] at hchunk
    rw [← Nat.add_assoc, landing_succ hchunk (by omega), ih (by omega), Nat.add_assoc]

theorem linesUp_of_landing
    (h : ∀ j, j < n → Q.translate (vb + j) = some (P.landing Q va vb j)) :
    P.LinesUp Q va vb n := by
  intro i pa rest hi hchunk hrest
  refine ⟨_, h i (by omega), ?_⟩
  rw [h (i + 1) hi, landing_succ hchunk hrest]

/-- What lies where the bytes landed, if no byte of the source is among the places. -/
theorem copyStep_landing
    (haway : ∀ i j, i < n → j < n → P.translate (va + i) ≠ some (P.landing Q va vb j))
    (hinj : ∀ i j, i < n → j < n → P.landing Q va vb i = P.landing Q va vb j → i = j) :
    P.CopyStep Q va vb n fun c m' =>
      (∀ i pa, i < c → P.translate (va + i) = some pa → m' (P.landing Q va vb i) = m pa) ∧
        ∀ a, (∀ i, i < c → P.landing Q va vb i ≠ a) → m' a = m a := by
  rintro c m' pa rest pb hlt hc hchunk hdst ⟨hlanded, hother⟩
  have hrow : ∀ j, j < min rest (n - c) → P.landing Q va vb (c + j) = pb + j :=
    fun j hj => landing_chunk hc hchunk hdst (by omega)
  -- No byte of the row was stored over, so the row is still what it was at the start.
  have hload : load m' pa (min rest (n - c)) = load m pa (min rest (n - c)) := by
    refine load_congr fun j hj => hother _ fun i hi hland => ?_
    have htranslate := translate_chunk hchunk (show j < rest by omega)
    rw [Nat.add_assoc] at htranslate
    exact haway (c + j) i (by omega) (by omega) (htranslate.trans (congrArg some hland.symm))
  rw [hload]
  constructor
  · intro i qa hi hqa
    -- A byte of an earlier row is not stored over, as no two bytes land at one place.
    by_cases hic : i < c
    · rw [blit_ne, hlanded i qa hic hqa]
      rintro ⟨hlow, hhigh⟩
      rw [length_load] at hhigh
      obtain ⟨j, hj⟩ := Nat.exists_eq_add_of_le hlow
      have heq := hinj i (c + j) (by omega) (by omega) (by rw [hj, hrow j (by omega)])
      omega
    · obtain ⟨j, rfl⟩ := Nat.exists_eq_add_of_le (Nat.not_lt.mp hic)
      have hj : j < (load m pa (min rest (n - c))).length := by
        rw [length_load]
        omega
      have htranslate := translate_chunk hchunk (show j < rest by omega)
      rw [Nat.add_assoc, hqa] at htranslate
      rw [hrow j (by omega), blit_apply hj, Option.some.inj htranslate]
      simp [load]
  · intro a ha
    rw [blit_ne, hother a fun i hi => ha i (by omega)]
    rintro ⟨hlow, hhigh⟩
    rw [length_load] at hhigh
    obtain ⟨j, rfl⟩ := Nat.exists_eq_add_of_le hlow
    exact ha (c + j) (by omega) (hrow j (by omega))

/-- A source of equal bytes stays one, and whatever is stored is such a byte. -/
theorem copyStep_equal {b₀ b₁ : β} : P.CopyStep Q va vb n
    fun c m' => (∀ i pa, i < n → P.translate (va + i) = some pa → m' pa = b₁) ∧
      ∀ a, (∀ i, i < n → P.translate (va + i) ≠ some a) →
        (∀ j, j < c → P.landing Q va vb j ≠ a) → m' a = b₀ := by
  rintro c m' pa rest pb hlt hc hchunk hdst ⟨hones, hzeros⟩
  have hload : ∀ b ∈ load m' pa (min rest (n - c)), b = b₁ := by
    intro b hb
    obtain ⟨j, hj, rfl⟩ := List.mem_map.mp hb
    have hj := List.mem_range.mp hj
    have htranslate := translate_chunk hchunk (show j < rest by omega)
    rw [Nat.add_assoc] at htranslate
    exact hones (c + j) _ (by omega) htranslate
  -- A place holds the byte of the source now, or is not in the row.
  have hblit : ∀ a, blit m' pb (load m' pa (min rest (n - c))) a = b₁ ∨
      blit m' pb (load m' pa (min rest (n - c))) a = m' a ∧
        ¬ (pb ≤ a ∧ a < pb + min rest (n - c)) := by
    intro a
    by_cases ha : pb ≤ a ∧ a < pb + min rest (n - c)
    · obtain ⟨j, rfl⟩ := Nat.exists_eq_add_of_le ha.1
      have hj : j < (load m' pa (min rest (n - c))).length := by
        rw [length_load]
        omega
      left
      rw [blit_apply hj]
      exact hload _ (List.getElem_mem hj)
    · right
      rw [blit_ne (by rwa [length_load])]
      exact ⟨rfl, ha⟩
  constructor
  · intro i qa hi hqa
    rcases hblit qa with h | ⟨h, -⟩
    · exact h
    · rw [h, hones i qa hi hqa]
  · intro a haway hland
    have hout : ¬ (pb ≤ a ∧ a < pb + min rest (n - c)) := by
      rintro ⟨hlow, hhigh⟩
      obtain ⟨j, rfl⟩ := Nat.exists_eq_add_of_le hlow
      exact hland (c + j) (by omega) (landing_chunk hc hchunk hdst (by omega))
    rw [blit_ne (by rwa [length_load]), hzeros a haway fun j hj => hland j (by omega)]

/-- A copy that is right whatever the memory holds lines up. -/
theorem linesUp_of_copies {b₀ b₁ : β} (hne : b₀ ≠ b₁)
    (hsrc : ∀ i, i < n → (P.translate (va + i)).isSome = true)
    (hdst : ∀ i, i < n → (Q.translate (vb + i)).isSome = true) (hapart : P.Apart Q va vb n)
    (hP : P.Distinct va n) (hQ : Q.Distinct vb n)
    (hcopies : ∀ (m : Nat → β) (M : Nat → (Nat → β) → Prop), P.CopyStep Q va vb n M → M 0 m →
      M n (Q.store m vb (P.fetch m va n))) : P.LinesUp Q va vb n := by
  classical
  have hreachP : P.reach va n = n := reach_eq_iff.mpr hsrc
  have hreachQ : Q.reach vb n = n := reach_eq_iff.mpr hdst
  -- What the destination holds in the end.
  have hstored : ∀ (m : Nat → β) i pa pb, i < n → P.translate (va + i) = some pa →
      Q.translate (vb + i) = some pb → Q.store m vb (P.fetch m va n) pb = m pa := by
    intro m i pa pb hi hpa hpb
    have hlength : (P.fetch m va n).length = n := by rw [length_fetch, hreachP]
    have hget := getElem?_fetch (m := m) (hreachP.symm ▸ hi : i < P.reach va n)
    rw [store_apply (by rwa [hlength]) (by rw [hlength, hreachQ]) (by omega) hpb]
    rw [hpa, List.getElem?_eq_getElem (by omega)] at hget
    exact Option.some.inj hget
  -- Every byte of the destination is one that a byte lands on.
  have hland : ∀ i, i < n → ∃ j, j < n ∧ Q.translate (vb + i) = some (P.landing Q va vb j) := by
    intro i hi
    obtain ⟨pb, hpb⟩ := Option.isSome_iff_exists.mp (hdst i hi)
    obtain ⟨pa, hpa⟩ := Option.isSome_iff_exists.mp (hsrc i hi)
    by_contra hno
    let m : Nat → β := fun a => if ∃ i, i < n ∧ P.translate (va + i) = some a then b₁ else b₀
    have hones : ∀ i pa, i < n → P.translate (va + i) = some pa → m pa = b₁ :=
      fun i pa hi hpa => if_pos ⟨i, hi, hpa⟩
    have hzeros : ∀ a, (∀ i, i < n → P.translate (va + i) ≠ some a) → m a = b₀ :=
      fun a ha => if_neg fun ⟨i, hi, heq⟩ => ha i hi heq
    have hend := (hcopies m _ copyStep_equal ⟨hones, fun a ha _ => hzeros a ha⟩).2 pb
      (fun i' hi' heq => hapart i' i pb hi' hi heq hpb)
      fun j hj heq => hno ⟨j, hj, by rw [hpb, heq]⟩
    rw [hstored m i pa pb hi hpa hpb, hones i pa hi hpa] at hend
    exact hne hend.symm
  choose f hf using hland
  -- So the bytes land on the destination, in some order.
  have hinj : Function.Injective fun i : Fin n => (⟨f i i.2, (hf i i.2).1⟩ : Fin n) := by
    intro i j hij
    have heq : f i i.2 = f j j.2 := congrArg Fin.val hij
    have hi := (hf i i.2).2
    rw [heq] at hi
    exact Fin.ext (hQ i j _ i.2 j.2 hi (hf j j.2).2)
  have hsurj := Finite.surjective_of_injective hinj
  have hback : ∀ j, j < n → ∃ i, i < n ∧ Q.translate (vb + i) = some (P.landing Q va vb j) := by
    intro j hj
    obtain ⟨i, hi⟩ := hsurj ⟨j, hj⟩
    have hfi : f i i.2 = j := congrArg Fin.val hi
    have hplace := (hf i i.2).2
    rw [hfi] at hplace
    exact ⟨i, i.2, hplace⟩
  have haway : ∀ i j, i < n → j < n → P.translate (va + i) ≠ some (P.landing Q va vb j) := by
    intro i j hi hj heq
    obtain ⟨i', hi', heq'⟩ := hback j hj
    exact hapart i i' _ hi hi' heq heq'
  have hlandinj : ∀ i j, i < n → j < n → P.landing Q va vb i = P.landing Q va vb j → i = j := by
    intro i j hi hj heq
    obtain ⟨i', hi'⟩ := hsurj ⟨i, hi⟩
    obtain ⟨j', hj'⟩ := hsurj ⟨j, hj⟩
    have hi'' : f i' i'.2 = i := congrArg Fin.val hi'
    have hj'' : f j' j'.2 = j := congrArg Fin.val hj'
    have hsame := (hf i' i'.2).2
    rw [hi'', heq, ← hj''] at hsame
    have hij : (i' : Nat) = j' := hQ i' j' _ i'.2 j'.2 hsame (hf j' j'.2).2
    have hij' : i' = j' := Fin.ext hij
    rw [← hi'', ← hj'', hij']
  -- The byte that is told from the others tells its place.
  refine linesUp_of_landing fun i hi => ?_
  obtain ⟨pa, hpa⟩ := Option.isSome_iff_exists.mp (hsrc i hi)
  obtain ⟨hj, hpb⟩ := hf i hi
  obtain ⟨qa, hqa⟩ := Option.isSome_iff_exists.mp (hsrc _ hj)
  let m : Nat → β := fun a => if a = pa then b₁ else b₀
  have hend := (hcopies m _ (copyStep_landing haway hlandinj) ⟨fun _ _ h =>
    absurd h (Nat.not_lt_zero _), fun _ _ => rfl⟩).1 (f i hi) qa hj hqa
  rw [hstored m i pa _ hi hpa hpb] at hend
  have hsame : qa = pa := by
    by_contra hdiff
    have hone : m pa = b₁ := if_pos rfl
    have hzero : m qa = b₀ := if_neg hdiff
    rw [hone, hzero] at hend
    exact hne hend.symm
  rw [hsame] at hqa
  have hplace : f i hi = i := (hP i (f i hi) pa hi hj hpa hqa).symm
  rw [hplace] at hpb
  exact hpb

end Landing

end Paging

end Lib

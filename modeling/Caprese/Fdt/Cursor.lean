import Caprese.Fdt.Block

/-!
# `Caprese.Fdt.Cursor`: the cursor on a structure block

What the cursor reads at the parts of a layout. `wp_items` is the rule for the loops of the reader.
Each of them takes items off a sequence, with `FDT_NOP` tokens between them.
-/

set_option autoImplicit false

namespace Caprese.Fdt

open Lib Prog

variable {σ α β : Type} {mem : Mem} {p q n : Nat} {l : List UInt8}

/-! ### Lengths -/

theorem nopTokens_length : (nopTokens n).length = 4 * n := by
  induction n with
  | zero => rfl
  | succ n ih =>
    rw [nopTokens, List.length_append, ih, word32_length]
    omega

theorem pad_length : (pad l).length = l.length + (4 - l.length % 4) % 4 := by
  rw [pad, List.length_append, List.length_replicate]

/-- `_dtb_align` goes to the end of what is padded. -/
theorem align_pad (h : q % 4 = 0) : (q + l.length + 4 - 1) / 4 * 4 = q + (pad l).length := by
  rw [pad_length]
  omega

theorem pad_length_mod : (pad l).length % 4 = 0 := by
  rw [pad_length]
  omega

theorem Property.body_length (p : Property) : p.body.length = 12 + (pad p.value).length := by
  simp only [Property.body, List.length_append, word32_length]
  omega

theorem Property.encode_length (p : Property) : p.encode.length = p.body.length + 4 * p.nops := by
  rw [Property.encode, List.length_append, nopTokens_length]

/-! ### Reads -/

/-- A word at the cursor. -/
theorem dtbToU32_word (hn : n < 2 ^ 32) (h : Bytes mem p (word32 n)) : dtbToU32 mem p = n := by
  rw [dtbToU32, byteswap32_load32 h rfl, bigEndian_word32 hn]

/-- The first cell of a value. -/
theorem dtbToU32_value (h : Bytes mem p (pad l)) (hl : l ≠ []) : dtbToU32 mem p = reading32 l := by
  have hpos : 0 < l.length := List.length_pos_iff.mpr hl
  have htake : (pad l).take 4 = (l ++ List.replicate 4 0).take 4 := by
    rw [pad, List.take_append, List.take_append, List.take_replicate, List.take_replicate]
    congr 2
    omega
  have hlen : ((l ++ List.replicate 4 0).take 4).length = 4 := by
    rw [List.length_take, List.length_append, List.length_replicate]
    omega
  have hfirst := h.take 4
  rw [htake] at hfirst
  exact byteswap32_load32 hfirst hlen

section Rules

variable {reader : Reader} {E : Stop → Scan σ → Prop} {s : Scan σ}

theorem wp_dtbAssert {Q : Unit → Scan σ → Prop} {c : Prop} [Decidable c] (hc : c) (hQ : Q () s) :
    wp (dtbAssert c) reader Q E s := by
  rw [dtbAssert, wp_ite, if_pos hc]
  exact hQ

theorem wp_peekU32 {Q : Nat → Scan σ → Prop} :
    wp peekU32 reader Q E s ↔ Q (dtbToU32 reader.mem s.src) s := Iff.rfl

theorem wp_dtbNextU32 {Q : Nat → Scan σ → Prop} : wp dtbNextU32 reader Q E s ↔
    Q (dtbToU32 reader.mem s.src) { s with src := s.src + 4 } := Iff.rfl

theorem wp_advance {Q : Unit → Scan σ → Prop} :
    wp (advance n) reader Q E s ↔ Q () { s with src := s.src + n } := Iff.rfl

theorem wp_dtbAlign {Q : Unit → Scan σ → Prop} :
    wp dtbAlign reader Q E s ↔ Q () { s with src := (s.src + 4 - 1) / 4 * 4 } := Iff.rfl

theorem wp_readStr {Q : List UInt8 → Scan σ → Prop} (hzero : 0 ∉ l)
    (h : Bytes reader.mem p (l ++ [0])) (hbound : l.length < reader.loopBound) (hQ : Q l s) :
    wp (readStr p) reader Q E s := by
  rw [readStr, wp_bind, wp_ask, cstr_eq hzero h hbound]
  exact hQ

theorem wp_callNode {Q : Bool → Scan σ → Prop} {callback : NodeCallback σ} {node : DtbNode} :
    wp (callNode callback node) reader Q E s ↔
      Q (callback node s.user).1 { s with user := (callback node s.user).2 } := Iff.rfl

/-- There is nothing but `FDT_NOP` tokens between the cursor and `q`. -/
def Before (reader : Reader) (s : Scan σ) (q : Nat) : Prop :=
  ∃ k, Bytes reader.mem s.src (nopTokens k) ∧ s.src + 4 * k = q ∧ k < reader.loopBound

theorem Before.le (h : Before reader s q) : s.src ≤ q := by
  obtain ⟨k, -, rfl, -⟩ := h
  omega

theorem wp_dtbSkipNop {Q : Unit → Scan σ → Prop} (h : Before reader s q)
    (hnext : dtbToU32 reader.mem q ≠ FDT_NOP) (hQ : Q () { s with src := q }) :
    wp dtbSkipNop reader Q E s := by
  obtain ⟨k, hnops, hq, hbound⟩ := h
  rw [dtbSkipNop, turns, wp_bind, wp_ask]
  refine wp_loop_list (ι := Unit) (fun l _ s' => Bytes reader.mem s'.src (nopTokens l.length) ∧
    s'.src + 4 * l.length = q ∧ s'.user = s.user) ?_ ?_ (List.replicate k ()) _ _ _ ?_ ?_
  · rintro ⟨⟩ rest ⟨⟩ s' ⟨hrest, hend, huser⟩
    have htoken : dtbToU32 reader.mem s'.src = FDT_NOP := dtbToU32_word (by decide) hrest.left
    rw [skipOneNop, wp_bind, wp_peekU32, if_pos htoken]
    refine ⟨hrest.right, ?_, huser⟩
    show s'.src + 4 + 4 * rest.length = q
    rw [List.length_cons] at hend
    omega
  · rintro ⟨⟩ s' ⟨-, hend, huser⟩
    obtain rfl : s'.src = q := hend
    rw [skipOneNop, wp_bind, wp_peekU32, if_neg hnext]
    show Q () s'
    rw [← huser] at hQ
    exact hQ
  · rw [List.length_replicate]
    exact ⟨hnops, hq, rfl⟩
  · rw [List.length_replicate]
    exact hbound

/-- The rule for a loop over items at `q`, each with `FDT_NOP` tokens behind it. `P` is what holds
before an item at a place. -/
theorem wp_items {ι : Type} (item : ι → List UInt8) (nops : ι → Nat)
    {body : α → Parse σ (α ⊕ β)} {Q : β → Scan σ → Prop} {stop : Nat}
    (P : List ι → α → Nat → σ → Prop)
    (hitem : ∀ i rest a q s, P (i :: rest) a q s.user → Before reader s q →
      Bytes reader.mem q (item i) → q + (item i).length ≤ stop → wp (body a) reader
        (fun c s' => match c with
          | .inl a' => s'.src = q + (item i).length ∧
              P rest a' (q + (item i).length + 4 * nops i) s'.user
          | .inr b => Q b s') E s)
    (hend : ∀ a s, P [] a stop s.user → Before reader s stop → wp (body a) reader
      (fun c s' => match c with | .inl _ => False | .inr b => Q b s') E s)
    {items : List ι} {a : α} (hP : P items a q s.user) (hbefore : Before reader s q)
    (hbytes : Bytes reader.mem q (items.flatMap fun i => item i ++ nopTokens (nops i)))
    (hstop : q + (items.flatMap fun i => item i ++ nopTokens (nops i)).length = stop)
    (hcount : items.length < reader.loopBound)
    (hnops : ∀ i ∈ items, nops i < reader.loopBound) : wp (turns body a) reader Q E s := by
  rw [turns, wp_bind, wp_ask]
  -- The invariant of the loop: the cursor is at the rest of the items, or at the tokens before it.
  refine wp_loop_list (fun rest a s => ∃ q, P rest a q s.user ∧ Before reader s q ∧
    Bytes reader.mem q (rest.flatMap fun i => item i ++ nopTokens (nops i)) ∧
    q + (rest.flatMap fun i => item i ++ nopTokens (nops i)).length = stop ∧
    ∀ i ∈ rest, nops i < reader.loopBound) ?_ ?_ items _ _ _ ⟨q, hP, hbefore, hbytes, hstop, hnops⟩
    hcount
  · rintro i rest a s ⟨q, hP, hbefore, hbytes, hstop, hnops⟩
    rw [List.flatMap_cons] at hbytes hstop
    rw [List.length_append, List.length_append, nopTokens_length] at hstop
    refine wp_mono (hitem i rest a q s hP hbefore hbytes.left.left (by omega)) ?_ fun _ _ hE => hE
    intro c s' hc
    cases c with
    | inr b => exact hc
    | inl a' =>
      -- The item is read, and the tokens behind it are now those before the next one.
      obtain ⟨hsrc, hrest⟩ := hc
      have hright := hbytes.right
      rw [List.length_append, nopTokens_length, ← Nat.add_assoc] at hright
      refine ⟨_, hrest, ⟨nops i, ?_, by rw [hsrc], hnops i List.mem_cons_self⟩, hright, by omega,
        fun j hj => hnops j (List.mem_cons_of_mem _ hj)⟩
      rw [hsrc]
      exact hbytes.left.right
  · rintro a s ⟨q, hP, hbefore, -, hstop, -⟩
    obtain rfl : q = stop := hstop
    exact hend a s hP hbefore

end Rules

end Caprese.Fdt

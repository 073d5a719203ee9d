import Mathlib.Data.List.Lex
import Mathlib.Tactic.Ring

/-!
# `Caprese.Lib.Bytes`: bytes in memory

A memory is a function from addresses to bytes. `Bytes mem p l` says that the bytes `l` lie at the
address `p`. Words are read in the byte order of the machine, which is little endian, and
`byteswap32` turns one into the other order. A C string ends at its first zero byte.
-/

set_option autoImplicit false

namespace Lib

/-- The bytes of an address space. -/
abbrev Mem := Nat → UInt8

/-- The bytes `l` lie at `p`. -/
def Bytes (mem : Mem) : Nat → List UInt8 → Prop
  | _, [] => True
  | p, b :: l => mem p = b ∧ Bytes mem (p + 1) l

section Bytes

variable {mem : Mem} {p n : Nat} {l l' : List UInt8}

instance decidableBytes : (p : Nat) → (l : List UInt8) → Decidable (Bytes mem p l)
  | _, [] => instDecidableTrue
  | p, b :: l =>
    have := decidableBytes (p + 1) l
    inferInstanceAs (Decidable (mem p = b ∧ Bytes mem (p + 1) l))

theorem bytes_append : Bytes mem p (l ++ l') ↔ Bytes mem p l ∧ Bytes mem (p + l.length) l' := by
  induction l generalizing p with
  | nil => simp [Bytes]
  | cons b l ih =>
    rw [List.cons_append, Bytes, Bytes, ih, and_assoc, List.length_cons, Nat.add_assoc,
      Nat.add_comm 1]

theorem Bytes.left (h : Bytes mem p (l ++ l')) : Bytes mem p l := (bytes_append.mp h).1

theorem Bytes.right (h : Bytes mem p (l ++ l')) : Bytes mem (p + l.length) l' :=
  (bytes_append.mp h).2

theorem Bytes.take (h : Bytes mem p l) (n : Nat) : Bytes mem p (l.take n) := by
  rw [← List.take_append_drop n l] at h
  exact h.left

/-- The bytes of a list, laid out from `p` on. -/
def store (l : List UInt8) (p : Nat) : Mem := fun q => l.getD (q - p) 0

end Bytes

/-! ### Words -/

/-- The 32-bit word at `p`, in the order of the machine. -/
def load32 (mem : Mem) (p : Nat) : Nat :=
  (mem p).toNat + 2 ^ 8 * (mem (p + 1)).toNat + 2 ^ 16 * (mem (p + 2)).toNat +
    2 ^ 24 * (mem (p + 3)).toNat

/-- The bytes of a 32-bit word in the other order. -/
def byteswap32 (n : Nat) : Nat :=
  2 ^ 24 * (n % 2 ^ 8) + 2 ^ 16 * (n / 2 ^ 8 % 2 ^ 8) + 2 ^ 8 * (n / 2 ^ 16 % 2 ^ 8) +
    n / 2 ^ 24 % 2 ^ 8

/-- The number that bytes are in big endian order. -/
def bigEndian (l : List UInt8) : Nat := l.foldl (fun n b => 2 ^ 8 * n + b.toNat) 0

/-- A 32-bit word in big endian order. -/
def word32 (n : Nat) : List UInt8 :=
  [UInt8.ofNat (n / 2 ^ 24), UInt8.ofNat (n / 2 ^ 16), UInt8.ofNat (n / 2 ^ 8), UInt8.ofNat n]

@[simp] theorem word32_length (n : Nat) : (word32 n).length = 4 := rfl

theorem bigEndian_word32 {n : Nat} (h : n < 2 ^ 32) : bigEndian (word32 n) = n := by
  simp only [bigEndian, word32, List.foldl_cons, List.foldl_nil, UInt8.toNat_ofNat']
  omega

theorem byteswap32_digits {a b c d : Nat} (ha : a < 2 ^ 8) (hb : b < 2 ^ 8) (hc : c < 2 ^ 8)
    (hd : d < 2 ^ 8) : byteswap32 (a + 2 ^ 8 * b + 2 ^ 16 * c + 2 ^ 24 * d) =
      2 ^ 24 * a + 2 ^ 16 * b + 2 ^ 8 * c + d := by
  have h₀ : (a + 2 ^ 8 * b + 2 ^ 16 * c + 2 ^ 24 * d) % 2 ^ 8 = a := by omega
  have h₁ : (a + 2 ^ 8 * b + 2 ^ 16 * c + 2 ^ 24 * d) / 2 ^ 8 % 2 ^ 8 = b := by omega
  have h₂ : (a + 2 ^ 8 * b + 2 ^ 16 * c + 2 ^ 24 * d) / 2 ^ 16 % 2 ^ 8 = c := by omega
  have h₃ : (a + 2 ^ 8 * b + 2 ^ 16 * c + 2 ^ 24 * d) / 2 ^ 24 % 2 ^ 8 = d := by omega
  rw [byteswap32, h₀, h₁, h₂, h₃]

/-- Four bytes that lie at `p` are read as the big endian number. -/
theorem byteswap32_load32 {mem : Mem} {p : Nat} {l : List UInt8} (h : Bytes mem p l)
    (hl : l.length = 4) : byteswap32 (load32 mem p) = bigEndian l := by
  obtain ⟨b₀, b₁, b₂, b₃, rfl⟩ : ∃ b₀ b₁ b₂ b₃, l = [b₀, b₁, b₂, b₃] := by
    match l, hl with
    | [b₀, b₁, b₂, b₃], _ => exact ⟨b₀, b₁, b₂, b₃, rfl⟩
  obtain ⟨rfl, rfl, rfl, rfl, -⟩ := h
  rw [load32, byteswap32_digits (mem p).toNat_lt (mem (p + 1)).toNat_lt (mem (p + 2)).toNat_lt
    (mem (p + 3)).toNat_lt]
  show _ = 2 ^ 8 * (2 ^ 8 * (2 ^ 8 * (2 ^ 8 * 0 + (mem p).toNat) + (mem (p + 1)).toNat) +
    (mem (p + 2)).toNat) + (mem (p + 3)).toNat
  ring

/-- A word in big endian order is loaded with its bytes in the other order. -/
theorem load32_word32 {mem : Mem} {p n : Nat} (h : Bytes mem p (word32 n)) :
    load32 mem p = byteswap32 n := by
  obtain ⟨h₀, h₁, h₂, h₃, -⟩ := h
  rw [load32, h₀, h₁, h₂, h₃, byteswap32]
  simp only [UInt8.toNat_ofNat']
  ring

/-! ### Strings

A text is the list of its bytes, without the zero byte behind it. The order on lists is that of
`strcmp`.
-/

instance linearOrderUInt8 : LinearOrder UInt8 where
  le_refl := UInt8.le_refl
  le_trans _ _ _ := UInt8.le_trans
  le_antisymm _ _ := UInt8.le_antisymm
  le_total := UInt8.le_total
  lt_iff_le_not_ge a b := by
    rw [UInt8.lt_iff_toNat_lt, UInt8.le_iff_toNat_le, UInt8.le_iff_toNat_le]
    omega
  toDecidableLE := inferInstance
  toDecidableEq := inferInstance
  toDecidableLT := inferInstance

/-- The bytes of an ASCII literal. -/
def ascii (s : String) : List UInt8 := s.toList.map fun c => UInt8.ofNat c.toNat

/-- The C string at `p`: the bytes before the first zero. There is none within `fuel` bytes. -/
def cstr (mem : Mem) : Nat → Nat → Option (List UInt8)
  | 0, _ => none
  | fuel + 1, p => if mem p = 0 then some [] else (cstr mem fuel (p + 1)).map (mem p :: ·)

theorem cstr_eq {mem : Mem} {text : List UInt8} (hzero : 0 ∉ text) {p fuel : Nat}
    (h : Bytes mem p (text ++ [0])) (hfuel : text.length < fuel) : cstr mem fuel p = some text := by
  induction text generalizing p fuel with
  | nil =>
    obtain ⟨fuel, rfl⟩ := Nat.exists_eq_succ_of_ne_zero (Nat.ne_zero_of_lt hfuel)
    exact if_pos h.1
  | cons b text ih =>
    obtain ⟨fuel, rfl⟩ := Nat.exists_eq_succ_of_ne_zero (Nat.ne_zero_of_lt hfuel)
    rw [List.mem_cons, not_or] at hzero
    rw [cstr, if_neg (h.1 ▸ Ne.symm hzero.1), ih hzero.2 h.2 (Nat.lt_of_succ_lt_succ hfuel), h.1]
    rfl

end Lib

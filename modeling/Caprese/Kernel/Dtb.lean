import Caprese.Kernel.Types
import Caprese.Lib.BinarySearch
import Caprese.Lib.Bytes

/-!
# `Caprese.Kernel.Dtb`: the reader of the device tree blob

`dtb.cpp` and the tables of `dtb.h`. The reader moves a cursor over the blob, and works through
callbacks. A callback is a function on a state of the caller's choice. Pointers are addresses, and
the log lines are left out.
-/

set_option autoImplicit false

namespace Caprese

open Lib Prog

def FDT_HEADER_MAGIC : Nat := 0xd00dfeed
def FDT_BEGIN_NODE : Nat := 1
def FDT_END_NODE : Nat := 2
def FDT_PROP : Nat := 3
def FDT_NOP : Nat := 4
def FDT_END : Nat := 9

/-! ### The tables of property names -/

def FDT_U32_TYPES : List (List UInt8) :=
  [ "#address-cells", "#interrupt-cells", "#size-cells", "cache-block-size", "cache-line-size",
    "cache-op-block-size", "cache-sets", "cache-size", "d-cache-block-size", "d-cache-line-size",
    "d-cache-sets", "d-cache-size", "d-tlb-sets", "d-tlb-sets", "d-tlb-size", "i-cache-block-size",
    "i-cache-line-size", "i-cache-sets", "i-cache-size", "i-tlb-sets", "reservation-granule-size",
    "riscv,ndev", "tlb-sets", "tlb-size", "virtual-reg" ].map ascii

def FDT_U64_TYPES : List (List UInt8) := ["cpu-release-addr"].map ascii

def FDT_STR_TYPES : List (List UInt8) :=
  [ "bootargs", "device_type", "mmu-type", "model", "name", "riscv,isa", "status", "stdin-path",
    "stdout-path" ].map ascii

def FDT_ARRAY_TYPES : List (List UInt8) :=
  [ "clock-frequency", "dma-ranges", "initial-mapped-area", "interrupt-map-mask", "interrupt-map",
    "interrupts-extended", "interrupts", "ranges", "reg", "timebase-frequency" ].map ascii

def FDT_PHANDLE_TYPES : List (List UInt8) :=
  ["interrupt-parent", "next-level-cache", "phandle"].map ascii

def FDT_STR_LIST_TYPES : List (List UInt8) := ["compatible", "enable-method"].map ascii

inductive DtbPropType where
  | empty | u32 | u64 | str | array | phandle | strList | unknown
deriving DecidableEq, Repr

/-- `find_prop_type`. -/
def findPropType (name : List UInt8) : DtbPropType :=
  if binarySearch FDT_U32_TYPES name then .u32
  else if binarySearch FDT_U64_TYPES name then .u64
  else if binarySearch FDT_STR_TYPES name then .str
  else if binarySearch FDT_ARRAY_TYPES name then .array
  else if binarySearch FDT_PHANDLE_TYPES name then .phandle
  else if binarySearch FDT_STR_LIST_TYPES name then .strList
  else .unknown

/-! ### What the callbacks get -/

/-- `dtb_node_t`. The name is the text in the array of 32 characters. -/
structure DtbNode where
  next : Nat
  unitAddress : Nat
  header : Nat
  addressCells : Nat
  sizeCells : Nat
  name : List UInt8
deriving DecidableEq, Repr

/-- The union in `dtb_prop_t`, under the type that says which member is set. -/
inductive DtbPropValue where
  | empty
  | u32 (value : Nat)
  | u64 (value : Nat)
  | str (ptr : Nat)
  | array (length data : Nat)
  | phandle (value : Nat)
  | strList (length data : Nat)
  | unknown
deriving DecidableEq, Repr

/-- `dtb_prop_t`. The name is a pointer into the strings block. -/
structure DtbProp where
  name : Nat
  value : DtbPropValue
deriving DecidableEq, Repr

/-! ### The cursor -/

/-- What the reader works with: the memory, `strtoull` to the base 16, and a bound on the turns of
a loop. -/
structure Reader where
  mem : Mem
  strtoull : List UInt8 → Nat
  loopBound : Nat

/-- The cursor, and the state that the callbacks work on. -/
structure Scan (σ : Type) where
  src : Nat
  user : σ

abbrev Parse (σ : Type) := Prog Reader Stop (Scan σ)

section Cursor

variable {σ : Type}

/-- `_dtb_to_u32`. -/
def dtbToU32 (mem : Mem) (ptr : Nat) : Nat := byteswap32 (load32 mem ptr)

/-- `_dtb_to_u64`, which reads a `uint32_t` as well. -/
def dtbToU64 (mem : Mem) (ptr : Nat) : Nat := byteswap32 (load32 mem ptr)

/-- `assert`. -/
def dtbAssert (p : Prop) [Decidable p] : Parse σ Unit :=
  if p then pure () else Prog.stop .assertFailed

/-- `*ptr += n`. -/
def advance (n : Nat) : Parse σ Unit := Prog.modify fun s => { s with src := s.src + n }

/-- The word under the cursor. -/
def peekU32 : Parse σ Nat := do
  let reader ← Prog.ask
  return dtbToU32 reader.mem (← Prog.get).src

/-- `_dtb_next_u32`. -/
def dtbNextU32 : Parse σ Nat := do
  let result ← peekU32
  advance 4
  return result

/-- The C string at `ptr`. -/
def readStr (ptr : Nat) : Parse σ (List UInt8) := do
  let reader ← Prog.ask
  match cstr reader.mem reader.loopBound ptr with
  | some text => pure text
  | none => Prog.stop .diverged

/-- `_dtb_next_str`. -/
def dtbNextStr : Parse σ (List UInt8) := do
  let result ← readStr (← Prog.get).src
  advance (result.length + 1)
  return result

/-- `_dtb_align`. -/
def dtbAlign : Parse σ Unit := Prog.modify fun s => { s with src := (s.src + 4 - 1) / 4 * 4 }

/-- `while` with a bound on the turns. -/
def turns {α β : Type} (body : α → Parse σ (α ⊕ β)) (a : α) : Parse σ β := do
  Prog.loop .diverged body (← Prog.ask).loopBound a

/-- One turn of the loop of `_dtb_skip_nop`. -/
def skipOneNop (_ : Unit) : Parse σ (Unit ⊕ Unit) := do
  if (← peekU32) = FDT_NOP then
    advance 4
    return .inl ()
  else return .inr ()

/-- `_dtb_skip_nop`. -/
def dtbSkipNop : Parse σ Unit := turns skipOneNop ()

end Cursor

/-! ### The header -/

/-- The fields of `fdt_header_t` that are read. -/
def fdtMagic (mem : Mem) (header : Nat) : Nat := load32 mem header
def fdtOffDtStruct (mem : Mem) (header : Nat) : Nat := load32 mem (header + 8)
def fdtOffDtStrings (mem : Mem) (header : Nat) : Nat := load32 mem (header + 12)
def fdtSizeDtStrings (mem : Mem) (header : Nat) : Nat := load32 mem (header + 32)
def fdtSizeDtStruct (mem : Mem) (header : Nat) : Nat := load32 mem (header + 36)

/-- The start and the end of the structure block. -/
def structStart (mem : Mem) (header : Nat) : Nat := header + byteswap32 (fdtOffDtStruct mem header)
def structEnd (mem : Mem) (header : Nat) : Nat :=
  structStart mem header + byteswap32 (fdtSizeDtStruct mem header)

/-- The start and the end of the strings block. -/
def strStart (mem : Mem) (header : Nat) : Nat := header + byteswap32 (fdtOffDtStrings mem header)
def strEnd (mem : Mem) (header : Nat) : Nat :=
  strStart mem header + byteswap32 (fdtSizeDtStrings mem header)

/-! ### The nodes -/

section Nodes

variable {σ : Type}

/-- A callback of `for_each_dtb_node`. -/
abbrev NodeCallback (σ : Type) := DtbNode → σ → Bool × σ

/-- A call of the callback. -/
def callNode (callback : NodeCallback σ) (node : DtbNode) : Parse σ Bool := do
  let (go, user) := callback node (← Prog.get).user
  Prog.modify fun s => { s with user := user }
  return go

/-- One turn of the loop over the properties in `_parse_dtb_node`. It keeps the cells of the
children. -/
def parseNodeProp (finish header : Nat) (cells : Nat × Nat) :
    Parse σ ((Nat × Nat) ⊕ (Nat × Nat)) := do
  if (← Prog.get).src < finish then
    dtbSkipNop
    if (← peekU32) ≠ FDT_PROP then return .inr cells
    else
      advance 4
      let len ← dtbNextU32
      let nameoff ← dtbNextU32
      let mem := (← Prog.ask).mem
      let name := strStart mem header + nameoff
      let cells ← (if name ≥ strEnd mem header then pure cells else do
        let text ← readStr name
        if text = ascii "#address-cells" then return (← peekU32, cells.2)
        else if text = ascii "#size-cells" then return (cells.1, ← peekU32)
        else return cells : Parse σ (Nat × Nat))
      advance len
      dtbAlign
      return .inl cells
  else return .inr cells

/-- One turn of the loop over the children in `_parse_dtb_node`, where `parse` parses a child. -/
def parseNodeChild (finish : Nat) (parse : Parse σ Unit) (_ : Unit) : Parse σ (Unit ⊕ Unit) := do
  if (← Prog.get).src < finish then
    dtbSkipNop
    if (← peekU32) ≠ FDT_BEGIN_NODE then return .inr ()
    else
      parse
      return .inl ()
  else return .inr ()

/-- The node that the callback gets, but for `_next`. -/
def makeNode (strtoull : List UInt8 → Nat) (header addressCells sizeCells : Nat) (name : List UInt8)
    (next : Nat) : DtbNode :=
  let atPos := name.idxOf 64
  { next := next
    unitAddress := if atPos < name.length then strtoull (name.drop (atPos + 1)) else 0
    header := header
    addressCells := addressCells
    sizeCells := sizeCells
    name := name.take (min atPos 31) }

/-- The callback of a subtree that is left out. -/
def skipNode : NodeCallback σ := fun _ user => (false, user)

/-- `_parse_dtb_node`. The first argument bounds the depth of the recursion. -/
def parseDtbNode (finish header : Nat) : Nat → Nat → Nat → NodeCallback σ → Parse σ Unit
  | 0, _, _, _ => Prog.stop .diverged
  | depth + 1, addressCells, sizeCells, callback => do
    dtbAssert ((← Prog.get).src ≠ 0)
    dtbAssert (finish ≠ 0)
    dtbAssert (header ≠ 0)
    dtbAssert (0 < addressCells)
    dtbAssert ((← Prog.get).src % 4 = 0)
    let token ← dtbNextU32
    if token ≠ FDT_BEGIN_NODE then return ()
    else
      let name ← dtbNextStr
      dtbAlign
      dtbSkipNop
      let reader ← Prog.ask
      let node := makeNode reader.strtoull header addressCells sizeCells name (← Prog.get).src
      let shouldContinue ← callNode callback node
      let (childAddressCells, childSizeCells) ← turns (parseNodeProp finish header) (2, 1)
      turns (parseNodeChild finish
        (parseDtbNode finish header depth childAddressCells childSizeCells
          (if shouldContinue then callback else skipNode))) ()
      if (← Prog.get).src ≥ finish then return ()
      else if (← peekU32) ≠ FDT_END_NODE then return ()
      else advance 4

/-- `for_each_dtb_node`. -/
def forEachDtbNode (dtb : Nat) (callback : NodeCallback σ) : Parse σ Unit := do
  dtbAssert (dtb ≠ 0)
  let reader ← Prog.ask
  if fdtMagic reader.mem dtb ≠ byteswap32 FDT_HEADER_MAGIC then return ()
  else
    Prog.modify fun s => { s with src := structStart reader.mem dtb }
    dtbSkipNop
    parseDtbNode (structEnd reader.mem dtb) dtb reader.loopBound 2 1 callback

end Nodes

/-! ### The properties -/

section Props

variable {σ : Type}

/-- A callback of `for_each_dtb_prop`. -/
abbrev PropCallback (σ : Type) := DtbNode → DtbProp → σ → Bool × σ

/-- The union of a property whose data of `len` bytes is at `src`. -/
def propValue (mem : Mem) (name : List UInt8) (len src : Nat) : DtbPropValue :=
  if len = 0 then .empty
  else
    match findPropType name with
    | .empty => .empty
    | .u32 => .u32 (dtbToU32 mem src)
    | .u64 => .u64 (dtbToU64 mem src)
    | .str => .str src
    | .array => .array len src
    | .phandle => .phandle (dtbToU32 mem src)
    | .strList => .strList len src
    | .unknown => .unknown

/-- A call of the callback. -/
def callProp (callback : PropCallback σ) (node : DtbNode) (prop : DtbProp) : Parse σ Bool := do
  let (go, user) := callback node prop (← Prog.get).user
  Prog.modify fun s => { s with user := user }
  return go

/-- One turn of the loop of `for_each_dtb_prop`. -/
def parseProp (finish : Nat) (node : DtbNode) (callback : PropCallback σ) (_ : Unit) :
    Parse σ (Unit ⊕ Unit) := do
  if (← Prog.get).src < finish then
    dtbSkipNop
    if (← peekU32) ≠ FDT_PROP then return .inr ()
    else
      advance 4
      let len ← dtbNextU32
      let nameoff ← dtbNextU32
      let mem := (← Prog.ask).mem
      let name := strStart mem node.header + nameoff
      let go ← (if name ≥ strEnd mem node.header then pure true else do
        let text ← readStr name
        callProp callback node ⟨name, propValue mem text len (← Prog.get).src⟩ : Parse σ Bool)
      if go then
        advance len
        dtbAlign
        return .inl ()
      else return .inr ()
  else return .inr ()

/-- `for_each_dtb_prop`. -/
def forEachDtbProp (node : DtbNode) (callback : PropCallback σ) : Parse σ Unit := do
  let mem := (← Prog.ask).mem
  Prog.modify fun s => { s with src := node.next }
  turns (parseProp (structEnd mem node.header) node callback) ()

end Props

end Caprese

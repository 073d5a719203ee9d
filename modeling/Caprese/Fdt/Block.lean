import Caprese.Kernel.Dtb

/-!
# `Caprese.Fdt.Block`: device trees and their structure blocks

A device tree, with what a blob adds to it: where in the strings block the name of a property is,
and how many `FDT_NOP` tokens are behind a property, behind the head of a node and behind a node.
`Node.encode` lays a node out. `Blob.At` says that a well-formed blob is in memory.
-/

set_option autoImplicit false

namespace Caprese.Fdt

open Lib

/-! ### The layout -/

/-- Zeros up to the next multiple of four bytes. -/
def pad (l : List UInt8) : List UInt8 := l ++ List.replicate ((4 - l.length % 4) % 4) 0

/-- A number of `FDT_NOP` tokens. -/
def nopTokens : Nat → List UInt8
  | 0 => []
  | n + 1 => word32 FDT_NOP ++ nopTokens n

structure Property where
  name : List UInt8
  nameoff : Nat
  value : List UInt8
  nops : Nat

namespace Property

variable (p : Property)

/-- The property without the `FDT_NOP` tokens behind it. -/
def body : List UInt8 :=
  word32 FDT_PROP ++ (word32 p.value.length ++ (word32 p.nameoff ++ pad p.value))

def encode : List UInt8 := p.body ++ nopTokens p.nops

end Property

inductive Node where
  | mk (name : List UInt8) (nops : Nat) (props : List Property) (children : List Node) (after : Nat)

namespace Node

def name : Node → List UInt8
  | mk name _ _ _ _ => name

def props : Node → List Property
  | mk _ _ props _ _ => props

def children : Node → List Node
  | mk _ _ _ children _ => children

/-- The number of `FDT_NOP` tokens behind the node. -/
def after : Node → Nat
  | mk _ _ _ _ after => after

/-- The start of the node, up to its first property. -/
def head : Node → List UInt8
  | mk name nops _ _ _ => word32 FDT_BEGIN_NODE ++ (pad (name ++ [0]) ++ nopTokens nops)

/-- The properties of the node. -/
def propBytes (node : Node) : List UInt8 := node.props.flatMap Property.encode

mutual

/-- The node, from its `FDT_BEGIN_NODE` to its `FDT_END_NODE`. -/
def encode : Node → List UInt8
  | mk name nops props children after =>
    (mk name nops props children after).head ++ ((mk name nops props children after).propBytes ++
      (encodeAll children ++ word32 FDT_END_NODE))

def encodeAll : List Node → List UInt8
  | [] => []
  | node :: nodes => encode node ++ (nopTokens node.after ++ encodeAll nodes)

end

theorem encode_eq (node : Node) : node.encode =
    node.head ++ (node.propBytes ++ (encodeAll node.children ++ word32 FDT_END_NODE)) := by
  cases node
  rw [encode]
  rfl

mutual

/-- The nodes of a tree, in pre-order. -/
def nodes : Node → List Node
  | mk name nops props children after => mk name nops props children after :: nodesAll children

def nodesAll : List Node → List Node
  | [] => []
  | node :: rest => nodes node ++ nodesAll rest

end

end Node

/-! ### Cells -/

/-- The number in the first four bytes of a value. A shorter value goes on with zeros. -/
def reading32 (value : List UInt8) : Nat := bigEndian ((value ++ List.replicate 4 0).take 4)

/-- The number in the first eight bytes of a value. -/
def reading64 (value : List UInt8) : Nat := bigEndian ((value ++ List.replicate 8 0).take 8)

/-- The number that a node sets by a property of a name: by the last one, if there are several. -/
def cellProp (name : String) (default : Nat) (props : List Property) : Nat :=
  match (props.filter fun p => p.name = ascii name).getLast? with
  | some p => reading32 p.value
  | none => default

/-- `#address-cells` and `#size-cells` of the children of a node. -/
def Node.cells (node : Node) : Nat × Nat :=
  (cellProp "#address-cells" 2 node.props, cellProp "#size-cells" 1 node.props)

/-! ### What a node is presented as -/

namespace Node

/-- The number behind `@` in the name of the node. -/
def unitAddress (strtoull : List UInt8 → Nat) (node : Node) : Nat :=
  match node.name.dropWhile (· ≠ 64) with
  | [] => 0
  | _ :: text => strtoull text

/-- The node as it is presented, for a node at `p` whose parent sets `cells`. -/
def describe (reader : Reader) (header : Nat) (cells : Nat × Nat) (p : Nat) (node : Node) :
    DtbNode where
  next := p + node.head.length
  unitAddress := node.unitAddress reader.strtoull
  header := header
  addressCells := cells.1
  sizeCells := cells.2
  name := (node.name.takeWhile (· ≠ 64)).take 31

/-- Where the first child is. -/
def childStart (node : Node) (p : Nat) : Nat := p + node.head.length + node.propBytes.length

/-- A node of a tree, with the cells that its parent sets and the place where it starts. -/
structure Place where
  node : Node
  cells : Nat × Nat
  start : Nat

mutual

/-- The nodes of a tree at `p`, in pre-order. -/
def places : Node → Nat × Nat → Nat → List Place
  | mk name nops props children after, cells, p =>
    let node := mk name nops props children after
    ⟨node, cells, p⟩ :: placesAll children node.cells (node.childStart p)

def placesAll : List Node → Nat × Nat → Nat → List Place
  | [], _, _ => []
  | node :: nodes, cells, p => places node cells p ++
      placesAll nodes cells (p + node.encode.length + (nopTokens node.after).length)

end

section Walk

variable {σ : Type} (reader : Reader) (header : Nat) (callback : NodeCallback σ)

mutual

/-- The walk over a tree at `p`: the callback on the node, and then, if it returned true, on the
nodes below. -/
def walk : Node → Nat × Nat → Nat → σ → σ
  | mk name nops props children after, cells, p, user =>
    let node := mk name nops props children after
    let (go, user) := callback (node.describe reader header cells p) user
    if go then walkAll children node.cells (node.childStart p) user else user

def walkAll : List Node → Nat × Nat → Nat → σ → σ
  | [], _, _, user => user
  | node :: nodes, cells, p, user =>
    walkAll nodes cells (p + node.encode.length + (nopTokens node.after).length)
      (walk node cells p user)

end

end Walk

end Node

/-! ### Well-formed blobs -/

/-- The name of the property is in the strings block, and its numbers are words. -/
structure Property.WellFormed (mem : Mem) (header : Nat) (p : Property) : Prop where
  name : 0 ∉ p.name
  named : Bytes mem (strStart mem header + p.nameoff) (p.name ++ [0])
  inside : strStart mem header + p.nameoff + p.name.length < strEnd mem header
  nameoff : p.nameoff < 2 ^ 32
  length : p.value.length < 2 ^ 32
  cells : p.name = ascii "#address-cells" ∨ p.name = ascii "#size-cells" → p.value ≠ []

/-- A node whose children can be addressed. -/
structure Node.WellFormed (mem : Mem) (header : Nat) (node : Node) : Prop where
  name : 0 ∉ node.name
  props : ∀ p ∈ node.props, p.WellFormed mem header
  cells : node.children ≠ [] → 0 < node.cells.1

structure Blob where
  nops : Nat
  root : Node

/-- The structure block. -/
def Blob.block (b : Blob) : List UInt8 :=
  nopTokens b.nops ++ (b.root.encode ++ (nopTokens b.root.after ++ word32 FDT_END))

/-- The blob is at `dtb`. -/
structure Blob.At (mem : Mem) (dtb : Nat) (b : Blob) : Prop where
  nonnull : dtb ≠ 0
  magic : Bytes mem dtb (word32 FDT_HEADER_MAGIC)
  aligned : structStart mem dtb % 4 = 0
  block : Bytes mem (structStart mem dtb) b.block
  size : structEnd mem dtb = structStart mem dtb + b.block.length
  nodes : ∀ node ∈ b.root.nodes, node.WellFormed mem dtb

/-- A blob with its header and its strings block, and without memory reservations. -/
def Blob.encode (b : Blob) (strings : List UInt8) : List UInt8 :=
  word32 FDT_HEADER_MAGIC ++ (word32 (40 + b.block.length + strings.length) ++ (word32 40 ++
    (word32 (40 + b.block.length) ++ (word32 0 ++ (word32 17 ++ (word32 16 ++ (word32 0 ++
      (word32 strings.length ++ (word32 b.block.length ++ (b.block ++ strings))))))))))

/-! ### A blob -/

/-- A tree with one processor, whose address is one cell. -/
def sampleBlob : Blob where
  nops := 0
  root := .mk [] 1 [⟨ascii "#address-cells", 0, word32 1, 2⟩, ⟨ascii "model", 15, ascii "q\x00", 0⟩]
    [.mk (ascii "cpu@3") 0 [⟨ascii "interrupts", 21, word32 5, 0⟩] [] 1] 0

/-- The sample in memory, with `strtoull` as it is on decimal digits. -/
def sampleReader : Reader where
  mem := store (sampleBlob.encode (ascii "#address-cells\x00model\x00interrupts\x00")) 0x1000
  strtoull := fun text => text.foldl (fun n b => 16 * n + (b.toNat - 48)) 0
  loopBound := 1000

theorem sampleBlob_at : sampleBlob.At sampleReader.mem 0x1000 := by
  have hprops : ∀ prop ∈ sampleBlob.root.props, prop.WellFormed sampleReader.mem 0x1000 := by
    intro prop hprop
    rcases List.mem_cons.mp hprop with rfl | hprop
    · constructor <;> decide +kernel
    · obtain rfl := List.mem_singleton.mp hprop
      constructor <;> decide +kernel
  refine ⟨by decide, by decide +kernel, by decide +kernel, by decide +kernel, by decide +kernel, ?_⟩
  intro node hnode
  rcases List.mem_cons.mp hnode with rfl | hnode
  · exact ⟨by decide, hprops, by decide +kernel⟩
  · obtain rfl := List.mem_singleton.mp hnode
    refine ⟨by decide +kernel, fun prop hprop => ?_, by decide⟩
    obtain rfl := List.mem_singleton.mp hprop
    constructor <;> decide +kernel

end Caprese.Fdt

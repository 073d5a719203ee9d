import Caprese.Fdt.Parse

/-!
# `Caprese.Proofs.DeviceTree`: the nodes of a device tree

`for_each_dtb_node` presents the nodes of a well-formed blob in pre-order, without the nodes below
one for which the callback returned false (`for_each_dtb_node_walks`).
-/

set_option autoImplicit false

namespace Caprese.Fdt

open Lib Prog

variable {σ : Type} {reader : Reader} {mem : Mem} {header dtb p q : Nat} {cells : Nat × Nat}

/-! ### Places in a blob -/

/-- A node that lies between `p` and `stop`, and that the parser can be started at. -/
structure Node.Place.Inside (mem : Mem) (header p stop : Nat) (place : Node.Place) : Prop where
  bytes : Bytes mem place.start place.node.encode
  aligned : place.start % 4 = 0
  above : p ≤ place.start
  below : place.start + place.node.encode.length ≤ stop
  cells : 0 < place.cells.1
  nodes : ∀ n ∈ place.node.nodes, n.WellFormed mem header

theorem Node.Place.Inside.mono {place : Node.Place} {p' stop stop' : Nat}
    (h : place.Inside mem header p stop) (hp : p' ≤ p) (hstop : stop ≤ stop') :
    place.Inside mem header p' stop' :=
  ⟨h.bytes, h.aligned, Nat.le_trans hp h.above, Nat.le_trans h.below hstop, h.cells, h.nodes⟩

mutual

theorem Node.places_inside : ∀ (node : Node) (cells : Nat × Nat) (p : Nat),
    Bytes mem p node.encode → p % 4 = 0 → 0 < cells.1 →
    (∀ n ∈ node.nodes, n.WellFormed mem header) →
    ∀ place ∈ node.places cells p, place.Inside mem header p (p + node.encode.length)
  | .mk name nops props children after, cells, p, hbytes, hp, hcells, hwf => by
    intro place hplace
    have hhead := (Node.mk name nops props children after).head_length_mod
    have hprops := (Node.mk name nops props children after).propBytes_length_mod
    have hself := hwf _ (Node.self_mem_nodes _)
    rw [Node.places] at hplace
    rcases List.mem_cons.mp hplace with rfl | hplace
    · exact ⟨hbytes, hp, le_rfl, le_rfl, hcells, hwf⟩
    · have hlen := (Node.mk name nops props children after).encode_length
      change _ = _ + _ + (Node.encodeAll children).length + 4 at hlen
      have hstart : (Node.mk name nops props children after).childStart p = p +
          (Node.mk name nops props children after).head.length +
          (Node.mk name nops props children after).propBytes.length := rfl
      have hinside := placesAll_inside children _ _ hbytes.right.right.left (by omega) ?_
        (fun c hc n hn => hwf n (Node.nodes_child hc hn)) place hplace
      · exact hinside.mono (by omega) (by omega)
      · exact fun hne => hself.cells hne

theorem Node.placesAll_inside : ∀ (nodes : List Node) (cells : Nat × Nat) (p : Nat),
    Bytes mem p (Node.encodeAll nodes) → p % 4 = 0 → (nodes ≠ [] → 0 < cells.1) →
    (∀ node ∈ nodes, ∀ n ∈ node.nodes, n.WellFormed mem header) →
    ∀ place ∈ Node.placesAll nodes cells p,
      place.Inside mem header p (p + (Node.encodeAll nodes).length)
  | [], cells, p, _, _, _, _ => by
    intro place hplace
    rw [Node.placesAll] at hplace
    exact absurd hplace List.not_mem_nil
  | node :: nodes, cells, p, hbytes, hp, hcells, hwf => by
    intro place hplace
    have hmod := node.encode_length_mod
    have hnops : (nopTokens node.after).length = 4 * node.after := nopTokens_length
    rw [Node.encodeAll] at hbytes
    have hlen : (Node.encodeAll (node :: nodes)).length =
        node.encode.length + (nopTokens node.after).length + (Node.encodeAll nodes).length := by
      rw [Node.encodeAll, List.length_append, List.length_append, Nat.add_assoc]
    rw [Node.placesAll] at hplace
    rcases List.mem_append.mp hplace with hplace | hplace
    · exact (places_inside node cells p hbytes.left hp (hcells (List.cons_ne_nil _ _))
        (hwf node List.mem_cons_self) place hplace).mono le_rfl (by omega)
    · exact (placesAll_inside nodes cells _ hbytes.right.right (by omega)
        (fun _ => hcells (List.cons_ne_nil _ _)) (fun n hn => hwf n (List.mem_cons_of_mem _ hn))
        place hplace).mono (by omega) (by omega)

end

/-! ### Recorded walks -/

/-- The callback that notes the nodes that it is called on, and goes on. -/
def noteNode : NodeCallback (List DtbNode) := fun node seen => (true, seen ++ [node])

mutual

theorem Node.walk_note : ∀ (node : Node) (cells : Nat × Nat) (p : Nat) (seen : List DtbNode),
    node.walk reader header noteNode cells p seen = seen ++
      (node.places cells p).map fun place => place.node.describe reader header place.cells place.start
  | .mk name nops props children after, cells, p, seen => by
    rw [Node.walk, Node.places]
    show Node.walkAll reader header noteNode children _ _ (seen ++ [_]) = _
    rw [walkAll_note children, List.map_cons, List.append_assoc]
    rfl

theorem Node.walkAll_note : ∀ (nodes : List Node) (cells : Nat × Nat) (p : Nat)
    (seen : List DtbNode), Node.walkAll reader header noteNode nodes cells p seen = seen ++
      (Node.placesAll nodes cells p).map
        fun place => place.node.describe reader header place.cells place.start
  | [], cells, p, seen => by rw [Node.walkAll, Node.placesAll, List.map_nil, List.append_nil]
  | node :: nodes, cells, p, seen => by
    rw [Node.walkAll, Node.placesAll, walk_note node, walkAll_note nodes, List.map_append,
      List.append_assoc]

end

/-! ### The claim -/

namespace Blob

variable {b : Blob}

/-- Where the root node starts. -/
def rootStart (mem : Mem) (dtb : Nat) (b : Blob) : Nat :=
  structStart mem dtb + (nopTokens b.nops).length

/-- The nodes of the blob, in pre-order. -/
def places (mem : Mem) (dtb : Nat) (b : Blob) : List Node.Place :=
  b.root.places (2, 1) (b.rootStart mem dtb)

theorem At.rootBytes (h : b.At mem dtb) : Bytes mem (b.rootStart mem dtb) b.root.encode :=
  h.block.right.left

theorem At.rootStart_mod (h : b.At mem dtb) : b.rootStart mem dtb % 4 = 0 := by
  have haligned := h.aligned
  rw [rootStart, nopTokens_length]
  omega

theorem At.rootEnd (h : b.At mem dtb) :
    b.rootStart mem dtb + b.root.encode.length < structEnd mem dtb := by
  rw [h.size, rootStart, Blob.block, List.length_append, List.length_append, List.length_append,
    word32_length]
  omega

theorem At.inside (h : b.At mem dtb) {place : Node.Place} (hplace : place ∈ b.places mem dtb) :
    place.Inside mem dtb (b.rootStart mem dtb) (b.rootStart mem dtb + b.root.encode.length) :=
  b.root.places_inside (2, 1) _ h.rootBytes h.rootStart_mod (by decide) h.nodes place hplace

/-- Loops may turn often enough for a blob of this size. -/
structure Bounded (reader : Reader) (dtb : Nat) (b : Blob) : Prop where
  block : b.block.length < reader.loopBound
  strings : strEnd reader.mem dtb ≤ strStart reader.mem dtb + reader.loopBound

theorem At.root_lt (h : b.At reader.mem dtb) (hbounded : b.Bounded reader dtb) :
    b.root.encode.length < reader.loopBound := by
  have hend := h.rootEnd
  have hsize := h.size
  have hblock := hbounded.block
  rw [rootStart] at hend
  omega

end Blob

/-- What the parser does at a node of a blob. -/
theorem wp_parse_place {E : Stop → Scan σ → Prop} {Q : Unit → Scan σ → Prop} {b : Blob}
    (h : b.At reader.mem dtb) (hbounded : b.Bounded reader dtb) {place : Node.Place}
    (hplace : place.Inside reader.mem dtb (b.rootStart reader.mem dtb)
      (b.rootStart reader.mem dtb + b.root.encode.length)) (callback : NodeCallback σ) (user : σ)
    (hQ : Q () ⟨place.start + place.node.encode.length,
      place.node.walk reader dtb callback place.cells place.start user⟩) :
    wp (parseDtbNode (structEnd reader.mem dtb) dtb reader.loopBound place.cells.1 place.cells.2
      callback) reader Q E ⟨place.start, user⟩ := by
  have hroot := h.root_lt hbounded
  have hrootEnd := h.rootEnd
  have habove := hplace.above
  have hbelow := hplace.below
  have hpos : 0 < b.rootStart reader.mem dtb := by
    have hdtb := h.nonnull
    rw [Blob.rootStart, structStart]
    omega
  exact wp_parseDtbNode hbounded.strings h.nonnull reader.loopBound place.node place.cells callback
    ⟨place.start, user⟩ hplace.nodes hplace.bytes (by dsimp only; omega) hplace.aligned hplace.cells
    (by dsimp only; omega) (by omega) (by omega) hQ

theorem wp_forEachDtbNode {E : Stop → Scan σ → Prop} {Q : Unit → Scan σ → Prop} {b : Blob}
    (h : b.At reader.mem dtb) (hbounded : b.Bounded reader dtb) (callback : NodeCallback σ)
    {s : Scan σ} (hQ : Q () ⟨b.rootStart reader.mem dtb + b.root.encode.length,
      b.root.walk reader dtb callback (2, 1) (b.rootStart reader.mem dtb) s.user⟩) :
    wp (forEachDtbNode dtb callback) reader Q E s := by
  have hblock := h.block
  have hmagic : fdtMagic reader.mem dtb = byteswap32 FDT_HEADER_MAGIC := load32_word32 h.magic
  have hnops : (nopTokens b.nops).length = 4 * b.nops := nopTokens_length
  have hlen : b.nops < reader.loopBound := by
    have hlt := hbounded.block
    rw [Blob.block, List.length_append] at hlt
    omega
  have hself : (⟨b.root, (2, 1), b.rootStart reader.mem dtb⟩ : Node.Place) ∈
      b.places reader.mem dtb := by
    rw [Blob.places]
    cases b.root
    rw [Node.places]
    exact List.mem_cons_self
  unfold forEachDtbNode
  rw [wp_bind]
  refine wp_dtbAssert h.nonnull ?_
  rw [wp_bind, wp_ask, wp_ite, if_neg (not_not.mpr hmagic), wp_bind, wp_modify, wp_bind]
  refine wp_dtbSkipNop (q := b.rootStart reader.mem dtb)
    ⟨b.nops, hblock.left, by rw [Blob.rootStart, hnops], hlen⟩ ?_ ?_
  · rw [Node.begin_token h.rootBytes]
    decide
  · exact wp_parse_place h hbounded (h.inside hself) callback s.user hQ

/-- The callback is called on the nodes as the walk over the tree does it, and the parse of each
node goes to the end of the node. -/
theorem for_each_dtb_node_walks {b : Blob} (h : b.At reader.mem dtb)
    (hbounded : b.Bounded reader dtb) :
    (∀ (σ : Type) (callback : NodeCallback σ) (s : Scan σ),
      forEachDtbNode dtb callback reader s =
        .ok () ⟨b.rootStart reader.mem dtb + b.root.encode.length,
          b.root.walk reader dtb callback (2, 1) (b.rootStart reader.mem dtb) s.user⟩) ∧
    (∀ s : Scan (List DtbNode), forEachDtbNode dtb noteNode reader s =
      .ok () ⟨b.rootStart reader.mem dtb + b.root.encode.length,
        s.user ++ (b.places reader.mem dtb).map
          fun place => place.node.describe reader dtb place.cells place.start⟩) ∧
    ∀ place ∈ b.places reader.mem dtb, ∀ (σ : Type) (callback : NodeCallback σ) (user : σ),
      parseDtbNode (structEnd reader.mem dtb) dtb reader.loopBound place.cells.1 place.cells.2
        callback reader ⟨place.start, user⟩ = .ok () ⟨place.start + place.node.encode.length,
          place.node.walk reader dtb callback place.cells place.start user⟩ := by
  have hwalks : ∀ (σ : Type) (callback : NodeCallback σ) (s : Scan σ),
      forEachDtbNode dtb callback reader s =
        .ok () ⟨b.rootStart reader.mem dtb + b.root.encode.length,
          b.root.walk reader dtb callback (2, 1) (b.rootStart reader.mem dtb) s.user⟩ := by
    intro σ callback s
    obtain ⟨⟨⟩, s', hrun, rfl⟩ := wp_returns (wp_forEachDtbNode (s := s) h hbounded callback
      (Q := fun _ s' => s' = _) rfl)
    exact hrun
  refine ⟨hwalks, fun s => ?_, fun place hplace σ callback user => ?_⟩
  · rw [hwalks, Node.walk_note]
    rfl
  · obtain ⟨⟨⟩, s', hrun, rfl⟩ := wp_returns (wp_parse_place h hbounded (h.inside hplace) callback
      user (Q := fun _ s' => s' = _) rfl)
    exact hrun

/-- The two nodes of the sample. -/
theorem for_each_dtb_node_walks_sample : forEachDtbNode 0x1000 noteNode sampleReader ⟨0, []⟩ =
    .ok () ⟨0x1084, [⟨0x1034, 0, 0x1000, 2, 1, []⟩, ⟨0x1068, 3, 0x1000, 1, 1, ascii "cpu"⟩]⟩ := by
  refine ((for_each_dtb_node_walks sampleBlob_at ⟨by decide, by decide +kernel⟩).2.1 ⟨0, []⟩).trans ?_
  have hnodes : (sampleBlob.places sampleReader.mem 0x1000).map (fun place =>
      place.node.describe sampleReader 0x1000 place.cells place.start) =
      [⟨0x1034, 0, 0x1000, 2, 1, []⟩, ⟨0x1068, 3, 0x1000, 1, 1, ascii "cpu"⟩] := by decide +kernel
  have hend : sampleBlob.rootStart sampleReader.mem 0x1000 + sampleBlob.root.encode.length =
      0x1084 := by decide +kernel
  rw [hnodes, hend]
  rfl

end Caprese.Fdt

import Caprese.Fdt.Cursor
import Mathlib.Data.List.Induction

/-!
# `Caprese.Fdt.Parse`: the parse of a node

`wp_parseDtbNode`: from the start of a node the parser goes exactly to its end, and does to the
state of the callback what the walk over the tree does. The proof is by induction on the depth that
the parser may go to, and each loop of the parser is an instance of `wp_items`.
-/

set_option autoImplicit false

namespace Caprese.Fdt

open Lib Prog

variable {σ : Type} {reader : Reader} {mem : Mem} {header finish p q : Nat}

/-! ### Properties -/

/-- What the cursor reads at a property. -/
structure Property.Lies (mem : Mem) (q : Nat) (prop : Property) : Prop where
  token : dtbToU32 mem q = FDT_PROP
  len : dtbToU32 mem (q + 4) = prop.value.length
  nameoff : dtbToU32 mem (q + 4 + 4) = prop.nameoff
  value : Bytes mem (q + 4 + 4 + 4) (pad prop.value)
  align : (q + 4 + 4 + 4 + prop.value.length + 4 - 1) / 4 * 4 = q + prop.body.length

theorem Property.WellFormed.lies {prop : Property} (h : prop.WellFormed mem header)
    (hbytes : Bytes mem q prop.body) (hq : q % 4 = 0) : prop.Lies mem q where
  token := dtbToU32_word (by decide) hbytes.left
  len := dtbToU32_word h.length hbytes.right.left
  nameoff := dtbToU32_word h.nameoff hbytes.right.right.left
  value := hbytes.right.right.right
  align := by
    rw [align_pad (by omega), prop.body_length]
    omega

/-- What a property does to the cells of the children. -/
def Property.setCells (prop : Property) (cells : Nat × Nat) : Nat × Nat :=
  (if prop.name = ascii "#address-cells" then reading32 prop.value else cells.1,
    if prop.name = ascii "#size-cells" then reading32 prop.value else cells.2)

theorem cellProp_append (name : String) (default : Nat) (props : List Property) (prop : Property) :
    cellProp name default (props ++ [prop]) =
      if prop.name = ascii name then reading32 prop.value else cellProp name default props := by
  unfold cellProp
  rw [List.filter_append]
  by_cases hname : prop.name = ascii name
  · rw [List.filter_cons_of_pos (by simpa using hname), if_pos hname, List.filter_nil,
      List.getLast?_concat]
  · rw [List.filter_cons_of_neg (by simpa using hname), if_neg hname, List.filter_nil,
      List.append_nil]

/-- The loop keeps the cells of a node. -/
theorem foldl_setCells (node : Node) :
    node.props.foldl (fun cells prop => prop.setCells cells) (2, 1) = node.cells := by
  suffices h : ∀ props : List Property, props.foldl (fun cells prop => prop.setCells cells) (2, 1) =
      (cellProp "#address-cells" 2 props, cellProp "#size-cells" 1 props) from h node.props
  intro props
  induction props using List.reverseRecOn with
  | nil => rfl
  | append_singleton props prop ih =>
    rw [List.foldl_append, List.foldl_cons, List.foldl_nil, ih, Property.setCells, cellProp_append,
      cellProp_append]

theorem Property.WellFormed.reading {prop : Property} (h : prop.WellFormed mem header)
    (hlies : prop.Lies mem q)
    (hname : prop.name = ascii "#address-cells" ∨ prop.name = ascii "#size-cells") :
    dtbToU32 mem (q + 4 + 4 + 4) = reading32 prop.value :=
  dtbToU32_value hlies.value (h.cells hname)

/-- One turn of the loop over the properties. -/
theorem wp_parseNodeProp {E : Stop → Scan σ → Prop} {s : Scan σ} {cells : Nat × Nat}
    {prop : Property} (h : prop.WellFormed reader.mem header)
    (hstrings : strEnd reader.mem header ≤ strStart reader.mem header + reader.loopBound)
    (hbytes : Bytes reader.mem q prop.body) (hq : q % 4 = 0) (hbefore : Before reader s q)
    (hfinish : q < finish) : wp (parseNodeProp finish header cells) reader
      (fun c s' => c = .inl (prop.setCells cells) ∧ s' = ⟨q + prop.body.length, s.user⟩) E s := by
  have hlies := h.lies hbytes hq
  have hinside : ¬ strStart reader.mem header + prop.nameoff ≥ strEnd reader.mem header := by
    have := h.inside
    omega
  have hbound : prop.name.length < reader.loopBound := by
    have := h.inside
    omega
  unfold parseNodeProp
  rw [wp_bind, wp_get, wp_ite, if_pos (lt_of_le_of_lt hbefore.le hfinish), wp_bind]
  refine wp_dtbSkipNop hbefore (by rw [hlies.token]; decide) ?_
  rw [wp_bind, wp_peekU32, wp_ite, if_neg (by rw [hlies.token]; decide), wp_bind, wp_advance,
    wp_bind, wp_dtbNextU32, wp_bind, wp_dtbNextU32, wp_bind, wp_ask]
  dsimp only
  rw [hlies.len, hlies.nameoff, wp_bind, wp_ite, if_neg hinside, wp_bind]
  refine wp_readStr h.name h.named hbound ?_
  -- In all three cases the cursor goes on to the padding behind the value.
  have hdone : ∀ cells', cells' = prop.setCells cells →
      (Sum.inl cells' : (Nat × Nat) ⊕ (Nat × Nat)) = .inl (prop.setCells cells) ∧
        (⟨(q + 4 + 4 + 4 + prop.value.length + 4 - 1) / 4 * 4, s.user⟩ : Scan σ) =
          ⟨q + prop.body.length, s.user⟩ := by
    rintro cells' rfl
    rw [hlies.align]
    exact ⟨rfl, rfl⟩
  rw [wp_ite]
  split
  · rename_i hname
    refine hdone _ ?_
    rw [Property.setCells, if_pos hname, if_neg (by rw [hname]; decide)]
    exact congrArg (·, cells.2) (h.reading hlies (Or.inl hname))
  · rename_i haddress
    rw [wp_ite]
    split
    · rename_i hname
      refine hdone _ ?_
      rw [Property.setCells, if_neg haddress, if_pos hname]
      exact congrArg (cells.1, ·) (h.reading hlies (Or.inr hname))
    · rename_i hsize
      refine hdone _ ?_
      rw [Property.setCells, if_neg haddress, if_neg hsize]

/-! ### Sequences of items -/

section Items

variable {ι : Type} {item : ι → List UInt8}

/-- A bound on the bytes of a sequence bounds all that is in it. -/
theorem items_bound (nops : ι → Nat) {items : List ι} (hpos : ∀ i ∈ items, 0 < (item i).length) :
    items.length ≤ (items.flatMap fun i => item i ++ nopTokens (nops i)).length ∧
    ∀ i ∈ items, (item i).length ≤ (items.flatMap fun i => item i ++ nopTokens (nops i)).length ∧
      nops i ≤ (items.flatMap fun i => item i ++ nopTokens (nops i)).length := by
  induction items with
  | nil => exact ⟨le_rfl, fun i hi => absurd hi List.not_mem_nil⟩
  | cons i items ih =>
    obtain ⟨hcount, hbound⟩ := ih fun j hj => hpos j (List.mem_cons_of_mem _ hj)
    have hi := hpos i List.mem_cons_self
    rw [List.flatMap_cons, List.length_append, List.length_append, nopTokens_length,
      List.length_cons]
    refine ⟨by omega, fun j hj => ?_⟩
    rcases List.mem_cons.mp hj with rfl | hj
    · omega
    · have := hbound j hj
      omega

end Items

theorem Node.propBytes_eq (node : Node) :
    node.propBytes = node.props.flatMap fun prop => prop.body ++ nopTokens prop.nops := rfl

theorem Node.encodeAll_eq (nodes : List Node) :
    Node.encodeAll nodes = nodes.flatMap fun node => node.encode ++ nopTokens node.after := by
  induction nodes with
  | nil => rfl
  | cons node nodes ih => rw [Node.encodeAll, ih, List.flatMap_cons, List.append_assoc]

/-- The loop over the properties of a node ends at the first child, or at the end of the node. -/
theorem wp_parseNodeProps {E : Stop → Scan σ → Prop} {Q : Nat × Nat → Scan σ → Prop} {s : Scan σ}
    (node : Node) (stop : Nat) (hwf : ∀ prop ∈ node.props, prop.WellFormed reader.mem header)
    (hstrings : strEnd reader.mem header ≤ strStart reader.mem header + reader.loopBound)
    (hbytes : Bytes reader.mem s.src node.propBytes) (hsrc : s.src % 4 = 0)
    (hstop : s.src + node.propBytes.length = stop) (hfinish : stop < finish)
    (hbound : node.propBytes.length < reader.loopBound)
    (hnext : dtbToU32 reader.mem stop ≠ FDT_NOP ∧ dtbToU32 reader.mem stop ≠ FDT_PROP)
    (hQ : Q node.cells ⟨stop, s.user⟩) :
    wp (turns (parseNodeProp finish header) (2, 1)) reader Q E s := by
  rw [Node.propBytes_eq] at hbytes hstop hbound
  have hpos : ∀ prop ∈ node.props, 0 < prop.body.length := by
    intro prop _
    rw [prop.body_length]
    omega
  obtain ⟨hcount, hnops⟩ := items_bound Property.nops hpos
  -- The cells so far and those of the rest make up the cells of the node.
  refine wp_items Property.body Property.nops (fun rest cells q user => user = s.user ∧
    q % 4 = 0 ∧ (∀ prop ∈ rest, prop.WellFormed reader.mem header) ∧
    rest.foldl (fun cells prop => prop.setCells cells) cells = node.cells) ?_ ?_
    ⟨rfl, hsrc, hwf, foldl_setCells node⟩ ⟨0, trivial, rfl, by omega⟩ hbytes hstop (by omega)
    fun prop hprop => by
      have := (hnops prop hprop).2
      omega
  · rintro prop rest cells q s' ⟨huser, hq, hwf, hcells⟩ hbefore hbytes hle
    have hlen := prop.body_length
    refine wp_mono (wp_parseNodeProp (hwf prop List.mem_cons_self) hstrings hbytes hq hbefore
      (by omega)) ?_ fun _ _ hE => hE
    rintro _ s'' ⟨rfl, rfl⟩
    have hpad : (pad prop.value).length % 4 = 0 := pad_length_mod
    exact ⟨rfl, huser, by omega, fun p hp => hwf p (List.mem_cons_of_mem _ hp), hcells⟩
  · rintro cells s' ⟨huser, -, -, hcells⟩ hbefore
    -- No property is left: the next token is neither a property nor skipped.
    have hle := hbefore.le
    unfold parseNodeProp
    rw [wp_bind, wp_get, wp_ite, if_pos (by omega), wp_bind]
    refine wp_dtbSkipNop hbefore hnext.1 ?_
    rw [wp_bind, wp_peekU32, wp_ite, if_pos hnext.2]
    obtain rfl : cells = node.cells := hcells
    show Q node.cells ⟨stop, s'.user⟩
    rw [huser]
    exact hQ

/-! ### Nodes -/

section Walk

variable {cells : Nat × Nat} {user : σ} {callback : NodeCallback σ}

theorem Node.walk_eq (node : Node) : node.walk reader header callback cells p user =
    if (callback (node.describe reader header cells p) user).1 then
      Node.walkAll reader header callback node.children node.cells (node.childStart p)
        (callback (node.describe reader header cells p) user).2
    else (callback (node.describe reader header cells p) user).2 := by
  cases node
  rw [Node.walk]
  rfl

theorem Node.walk_skip (node : Node) :
    node.walk reader header skipNode cells p user = user := by
  rw [Node.walk_eq]
  exact if_neg nofun

theorem Node.walkAll_skip (nodes : List Node) :
    Node.walkAll reader header skipNode nodes cells p user = user := by
  induction nodes generalizing p with
  | nil => rw [Node.walkAll]
  | cons node nodes ih => rw [Node.walkAll, Node.walk_skip, ih]

/-- The subtree below a node is walked over with the callback that goes with its answer. -/
theorem Node.walk_children (node : Node) : node.walk reader header callback cells p user =
    Node.walkAll reader header
      (if (callback (node.describe reader header cells p) user).1 then callback else skipNode)
      node.children node.cells (node.childStart p)
      (callback (node.describe reader header cells p) user).2 := by
  rw [Node.walk_eq]
  split
  · rfl
  · rw [Node.walkAll_skip]

end Walk

theorem Node.nodes_eq (node : Node) : node.nodes = node :: Node.nodesAll node.children := by
  cases node
  rw [Node.nodes]
  rfl

theorem Node.nodes_child {node child : Node} (h : child ∈ node.children) {n : Node}
    (hn : n ∈ child.nodes) : n ∈ node.nodes := by
  rw [Node.nodes_eq]
  refine List.mem_cons_of_mem _ ?_
  generalize node.children = children at h
  induction children with
  | nil => exact absurd h List.not_mem_nil
  | cons c children ih =>
    rw [Node.nodesAll, List.mem_append]
    rcases List.mem_cons.mp h with rfl | h
    · exact Or.inl hn
    · exact Or.inr (ih h)

theorem Node.encode_length (node : Node) : node.encode.length =
    node.head.length + node.propBytes.length + (Node.encodeAll node.children).length + 4 := by
  rw [Node.encode_eq, List.length_append, List.length_append, List.length_append, word32_length]
  omega

theorem Node.encode_pos (node : Node) : 0 < node.encode.length := by
  rw [Node.encode_length]
  omega

theorem Node.self_mem_nodes (node : Node) : node ∈ node.nodes := by
  rw [Node.nodes_eq]
  exact List.mem_cons_self

theorem Node.head_length_mod (node : Node) : node.head.length % 4 = 0 := by
  cases node with
  | mk name nops props children after =>
    have hpad : (pad (name ++ [0])).length % 4 = 0 := pad_length_mod
    simp only [Node.head, List.length_append, word32_length, nopTokens_length]
    omega

theorem Node.propBytes_length_mod (node : Node) : node.propBytes.length % 4 = 0 := by
  unfold Node.propBytes
  generalize node.props = props
  induction props with
  | nil => rfl
  | cons prop props ih =>
    have hpad : (pad prop.value).length % 4 = 0 := pad_length_mod
    rw [List.flatMap_cons, List.length_append, prop.encode_length, prop.body_length]
    omega

/-- The place of a byte in a text splits the text. -/
theorem takeWhile_dropWhile_idxOf (text : List UInt8) (b : UInt8) :
    text.takeWhile (· ≠ b) = text.take (text.idxOf b) ∧
      text.dropWhile (· ≠ b) = text.drop (text.idxOf b) := by
  induction text with
  | nil => exact ⟨rfl, rfl⟩
  | cons c text ih =>
    by_cases hc : c = b
    · subst hc
      rw [List.idxOf_cons_self, List.takeWhile_cons_of_neg (by simp),
        List.dropWhile_cons_of_neg (by simp)]
      exact ⟨rfl, rfl⟩
    · rw [List.idxOf_cons_ne _ hc, List.takeWhile_cons_of_pos (by simpa using hc),
        List.dropWhile_cons_of_pos (by simpa using hc), ih.1, ih.2]
      exact ⟨rfl, rfl⟩

/-- The reader makes the node that is to be presented. -/
theorem makeNode_describe (node : Node) (cells : Nat × Nat) :
    makeNode reader.strtoull header cells.1 cells.2 node.name (p + node.head.length) =
      node.describe reader header cells p := by
  obtain ⟨htake, hdrop⟩ := takeWhile_dropWhile_idxOf node.name 64
  have hunit : (if node.name.idxOf 64 < node.name.length then
      reader.strtoull (node.name.drop (node.name.idxOf 64 + 1)) else 0) =
      node.unitAddress reader.strtoull := by
    rw [Node.unitAddress, hdrop]
    split
    · rename_i hlt
      rw [List.drop_eq_getElem_cons hlt]
    · rename_i hle
      rw [List.drop_eq_nil_of_le (by omega)]
  unfold makeNode Node.describe
  dsimp only
  rw [hunit, htake, List.take_take, Nat.min_comm]

mutual

theorem Node.encode_length_mod : ∀ node : Node, node.encode.length % 4 = 0
  | .mk name nops props children after => by
    have hhead := (Node.mk name nops props children after).head_length_mod
    have hprops := (Node.mk name nops props children after).propBytes_length_mod
    have hchildren := encodeAll_length_mod children
    rw [Node.encode_length]
    change (_ + _ + (Node.encodeAll children).length + 4) % 4 = 0
    omega

theorem Node.encodeAll_length_mod : ∀ nodes : List Node, (Node.encodeAll nodes).length % 4 = 0
  | [] => rfl
  | node :: nodes => by
    have hnode := encode_length_mod node
    have hnodes := encodeAll_length_mod nodes
    rw [Node.encodeAll, List.length_append, List.length_append, nopTokens_length]
    omega

end

/-! ### The tokens that the reader finds -/

theorem Node.begin_token {node : Node} (h : Bytes mem q node.encode) :
    dtbToU32 mem q = FDT_BEGIN_NODE := by
  cases node
  exact dtbToU32_word (by decide) h.left.left

/-- Behind the properties is a child, or the end of the node. -/
theorem child_token {nodes : List Node}
    (h : Bytes mem q (Node.encodeAll nodes ++ word32 FDT_END_NODE)) :
    dtbToU32 mem q = FDT_BEGIN_NODE ∨ dtbToU32 mem q = FDT_END_NODE := by
  cases nodes with
  | nil => exact Or.inr (dtbToU32_word (by decide) h)
  | cons node nodes =>
    rw [Node.encodeAll, List.append_assoc] at h
    exact Or.inl (Node.begin_token h.left)

/-- Behind the head of a node is a property, a child, or the end of the node. -/
theorem next_token {node : Node} (h : Bytes mem q
    (node.propBytes ++ (Node.encodeAll node.children ++ word32 FDT_END_NODE))) :
    dtbToU32 mem q ≠ FDT_NOP := by
  unfold Node.propBytes at h
  generalize node.props = props at h
  cases props with
  | nil =>
    rcases child_token h with heq | heq
    · rw [heq]
      decide
    · rw [heq]
      decide
  | cons prop props =>
    rw [List.flatMap_cons, List.append_assoc] at h
    rw [dtbToU32_word (by decide) h.left.left.left]
    decide

/-! ### The parse -/

/-- The loop over the children of a node ends at the end of the node. -/
theorem wp_parseNodeChildren {E : Stop → Scan σ → Prop} {Q : Unit → Scan σ → Prop} {s : Scan σ}
    (header : Nat) (nodes : List Node) (cells : Nat × Nat) (callback : NodeCallback σ)
    {parse : Parse σ Unit}
    (hparse : ∀ child ∈ nodes, ∀ (s' : Scan σ) {Q' : Unit → Scan σ → Prop},
      Bytes reader.mem s'.src child.encode → s.src ≤ s'.src → s'.src % 4 = 0 →
      s'.src + child.encode.length < finish →
      Q' () ⟨s'.src + child.encode.length,
        child.walk reader header callback cells s'.src s'.user⟩ → wp parse reader Q' E s')
    (hbytes : Bytes reader.mem s.src (Node.encodeAll nodes ++ word32 FDT_END_NODE))
    (hsrc : s.src % 4 = 0) (hfinish : s.src + (Node.encodeAll nodes).length < finish)
    (hbound : (Node.encodeAll nodes).length < reader.loopBound)
    (hQ : Q () ⟨s.src + (Node.encodeAll nodes).length,
      Node.walkAll reader header callback nodes cells s.src s.user⟩) :
    wp (turns (parseNodeChild finish parse) ()) reader Q E s := by
  have hend : dtbToU32 reader.mem (s.src + (Node.encodeAll nodes).length) = FDT_END_NODE :=
    dtbToU32_word (by decide) hbytes.right
  have hpos : ∀ child ∈ nodes, 0 < child.encode.length := fun child _ => child.encode_pos
  have hitems := hbytes.left
  rw [Node.encodeAll_eq] at hitems hbound
  obtain ⟨hcount, hnops⟩ := items_bound Node.after hpos
  have hstop : s.src + (nodes.flatMap fun node => node.encode ++ nopTokens node.after).length =
      s.src + (Node.encodeAll nodes).length := by rw [Node.encodeAll_eq]
  -- What was walked so far and the walk of the rest make up the walk of all children.
  refine wp_items Node.encode Node.after (fun rest _ q user => s.src ≤ q ∧ q % 4 = 0 ∧ (∀ child ∈ rest, child ∈ nodes) ∧
      Node.walkAll reader header callback rest cells q user =
        Node.walkAll reader header callback nodes cells s.src s.user) ?_ ?_
    ⟨le_rfl, hsrc, fun _ hchild => hchild, rfl⟩ ⟨0, trivial, rfl, by omega⟩ hitems
    hstop (by omega) fun child hchild => by
      have := (hnops child hchild).2
      omega
  · rintro child rest ⟨⟩ q s' ⟨hle, hq, hsub, hwalk⟩ hbefore hchild hstop
    have hbegin := Node.begin_token hchild
    have hmod := child.encode_length_mod
    have hq' := hbefore.le
    unfold parseNodeChild
    rw [wp_bind, wp_get, wp_ite, if_pos (by have := hpos child (hsub child List.mem_cons_self); omega),
      wp_bind]
    refine wp_dtbSkipNop hbefore (by rw [hbegin]; decide) ?_
    rw [wp_bind, wp_peekU32, wp_ite, if_neg (by rw [hbegin]; decide), wp_bind]
    refine hparse child (hsub child List.mem_cons_self) ⟨q, s'.user⟩ hchild hle hq
      (by dsimp only; omega) ?_
    rw [Node.walkAll, nopTokens_length] at hwalk
    exact ⟨rfl, by omega, by omega, fun c hc => hsub c (List.mem_cons_of_mem _ hc), hwalk⟩
  · rintro ⟨⟩ s' ⟨-, -, -, hwalk⟩ hbefore
    -- No child is left: the next token ends the node.
    have hq' := hbefore.le
    unfold parseNodeChild
    rw [wp_bind, wp_get, wp_ite, if_pos (by omega), wp_bind]
    refine wp_dtbSkipNop hbefore (by rw [hend]; decide) ?_
    rw [wp_bind, wp_peekU32, wp_ite, if_pos (by rw [hend]; decide)]
    rw [Node.walkAll] at hwalk
    rw [← hwalk] at hQ
    exact hQ

theorem Node.head_eq (node : Node) : ∃ k, node.head =
    word32 FDT_BEGIN_NODE ++ (pad (node.name ++ [0]) ++ nopTokens k) := by
  cases node with
  | mk name nops props children after => exact ⟨nops, rfl⟩

/-- The parse of a node goes to its end, and does what the walk does. -/
theorem wp_parseDtbNode {E : Stop → Scan σ → Prop}
    (hstrings : strEnd reader.mem header ≤ strStart reader.mem header + reader.loopBound)
    (hheader : header ≠ 0) : ∀ (depth : Nat) (node : Node) (cells : Nat × Nat)
      (callback : NodeCallback σ) (s : Scan σ) {Q : Unit → Scan σ → Prop},
      (∀ n ∈ node.nodes, n.WellFormed reader.mem header) → Bytes reader.mem s.src node.encode →
      s.src ≠ 0 → s.src % 4 = 0 → 0 < cells.1 → s.src + node.encode.length < finish →
      node.encode.length < reader.loopBound → node.encode.length ≤ depth →
      Q () ⟨s.src + node.encode.length, node.walk reader header callback cells s.src s.user⟩ →
      wp (parseDtbNode finish header depth cells.1 cells.2 callback) reader Q E s := by
  intro depth
  induction depth with
  | zero =>
    intro node cells callback s Q hwf hbytes _ _ _ _ _ hdepth _
    have hpos := node.encode_pos
    omega
  | succ depth ih =>
    intro node cells callback s Q hwf hbytes hnonnull hsrc hcells hfinish hbound hdepth hQ
    -- The bytes of a node: its head, its properties, its children, and the end token.
    have hnode := hwf node node.self_mem_nodes
    have hlen := node.encode_length
    obtain ⟨k, hhead⟩ := node.head_eq
    have hheadlen : node.head.length = 4 + (pad (node.name ++ [0])).length + 4 * k := by
      rw [hhead, List.length_append, List.length_append, word32_length, nopTokens_length]
      omega
    have hheadmod := node.head_length_mod
    have hpropsmod := node.propBytes_length_mod
    rw [Node.encode_eq] at hbytes
    have hprops := hbytes.right
    have hchildren := hprops.right
    have hmark := hchildren.right
    have hstart := hbytes.left
    rw [hhead] at hstart
    have htext := hstart.right.left
    have hnops := hstart.right.right
    rw [pad] at htext
    have hpadlen : (pad (node.name ++ [0])).length = node.name.length + 1 +
        (4 - (node.name ++ [0]).length % 4) % 4 := by
      rw [pad_length, List.length_append]
      rfl
    unfold parseDtbNode
    rw [wp_bind, wp_get, wp_bind]
    refine wp_dtbAssert hnonnull ?_
    rw [wp_bind]
    refine wp_dtbAssert (by omega) ?_
    rw [wp_bind]
    refine wp_dtbAssert hheader ?_
    rw [wp_bind]
    refine wp_dtbAssert hcells ?_
    rw [wp_bind, wp_get, wp_bind]
    refine wp_dtbAssert hsrc ?_
    rw [wp_bind, wp_dtbNextU32, wp_ite, dtbToU32_word (by decide) hstart.left,
      if_neg (not_not.mpr rfl), wp_bind, dtbNextStr, wp_bind, wp_get, wp_bind]
    refine wp_readStr hnode.name htext.left (by omega) ?_
    rw [wp_bind, wp_advance, wp_pure, wp_bind, wp_dtbAlign, wp_bind]
    dsimp only
    have halign : (s.src + 4 + (node.name.length + 1) + 4 - 1) / 4 * 4 =
        s.src + 4 + (pad (node.name ++ [0])).length := by
      have := align_pad (l := node.name ++ [0]) (q := s.src + 4) (by omega)
      rw [List.length_append] at this
      exact this
    rw [halign]
    refine wp_dtbSkipNop (q := s.src + node.head.length) ⟨k, hnops, by dsimp only; omega, by omega⟩
      (next_token hprops) ?_
    rw [wp_bind, wp_ask, wp_bind, wp_get]
    dsimp only
    rw [makeNode_describe, wp_bind, wp_callNode, wp_bind]
    -- The loop over the properties stops where the children begin.
    have hpast : dtbToU32 reader.mem (node.childStart s.src) ≠ FDT_NOP ∧
        dtbToU32 reader.mem (node.childStart s.src) ≠ FDT_PROP := by
      rcases child_token hchildren with heq | heq
      · rw [Node.childStart, heq]
        decide
      · rw [Node.childStart, heq]
        decide
    have hcs : node.childStart s.src = s.src + node.head.length + node.propBytes.length := rfl
    refine wp_parseNodeProps node (node.childStart s.src) hnode.props hstrings
      hprops.left (by dsimp only; omega) rfl (by omega) (by omega) hpast ?_
    dsimp only
    rw [wp_bind]
    rw [Node.walk_children] at hQ
    refine wp_parseNodeChildren header node.children node.cells
      (if (callback (node.describe reader header cells s.src) s.user).1 then callback else skipNode)
      ?_ hchildren
      (by dsimp only; omega) (by dsimp only; omega) (by omega) ?_
    · intro child hchild s' Q' hbytes' hle hmod hfin hQ'
      have hsub := ((items_bound Node.after fun c _ => c.encode_pos).2 child hchild).1
      rw [← Node.encodeAll_eq] at hsub
      -- A child is shorter than its node, so the depth that is left is enough for it.
      refine ih child node.cells _ s' (fun n hn => hwf n (Node.nodes_child hchild hn)) hbytes'
        (by dsimp only at hle; omega) hmod
        (hnode.cells (List.ne_nil_of_mem hchild)) hfin (by omega) (by omega) hQ'
    · dsimp only
      rw [wp_bind, wp_get, wp_ite, if_neg (by dsimp only; omega), wp_bind, wp_peekU32, wp_ite]
      dsimp only
      have hfinal : dtbToU32 reader.mem
          (node.childStart s.src + (Node.encodeAll node.children).length) = FDT_END_NODE :=
        dtbToU32_word (by decide) hmark
      rw [if_neg (by rw [hfinal]; decide), wp_advance]
      dsimp only
      have hstop : node.childStart s.src + (Node.encodeAll node.children).length + 4 =
          s.src + node.encode.length := by omega
      rw [hstop]
      exact hQ

end Caprese.Fdt

import Caprese.Proofs.DeviceTree

/-!
# `Caprese.Proofs.DeviceProps`: the properties of a device tree node

`for_each_dtb_prop` presents the properties of a node in order. Two slips change what it presents.
`FDT_ARRAY_TYPES` is not in the order of `strcmp`, and three of its names are not found. And the
reading of a 64-bit value stops behind its first half (`for_each_dtb_prop_presents_iff`).
-/

set_option autoImplicit false

namespace Caprese.Fdt

open Lib Prog

variable {σ : Type} {reader : Reader} {mem : Mem} {header dtb q : Nat}

/-! ### The types of properties -/

/-- The type of the table that a name is in. -/
def tableType (name : List UInt8) : DtbPropType :=
  if name ∈ FDT_U32_TYPES then .u32
  else if name ∈ FDT_U64_TYPES then .u64
  else if name ∈ FDT_STR_TYPES then .str
  else if name ∈ FDT_ARRAY_TYPES then .array
  else if name ∈ FDT_PHANDLE_TYPES then .phandle
  else if name ∈ FDT_STR_LIST_TYPES then .strList
  else .unknown

/-- The names that are behind a greater one in `FDT_ARRAY_TYPES`, or before a smaller one. -/
def lostNames : List (List UInt8) :=
  ["interrupt-map-mask", "interrupt-map", "interrupts"].map ascii

theorem binarySearch_arrayTypes (name : List UInt8) :
    binarySearch FDT_ARRAY_TYPES name = true ↔ name ∈ FDT_ARRAY_TYPES ∧ name ∉ lostNames := by
  have hmembers : ∀ n ∈ FDT_ARRAY_TYPES,
      (binarySearch FDT_ARRAY_TYPES n = true ↔ n ∉ lostNames) := by decide
  constructor
  · intro h
    have hmem := mem_of_binarySearch h
    exact ⟨hmem, (hmembers name hmem).mp h⟩
  · rintro ⟨hmem, hfound⟩
    exact (hmembers name hmem).mpr hfound

/-- `find_prop_type` finds the table of a name, but for three names. -/
theorem findPropType_eq (name : List UInt8) :
    findPropType name = if name ∈ lostNames then .unknown else tableType name := by
  unfold findPropType
  simp only [binarySearch_iff FDT_U32_TYPES (by decide),
    binarySearch_iff FDT_U64_TYPES (by decide),
    binarySearch_iff FDT_STR_TYPES (by decide), binarySearch_arrayTypes,
    binarySearch_iff FDT_PHANDLE_TYPES (by decide),
    binarySearch_iff FDT_STR_LIST_TYPES (by decide)]
  by_cases hlost : name ∈ lostNames
  · have hothers : ∀ n ∈ lostNames, n ∉ FDT_U32_TYPES ∧ n ∉ FDT_U64_TYPES ∧ n ∉ FDT_STR_TYPES ∧
        n ∉ FDT_PHANDLE_TYPES ∧ n ∉ FDT_STR_LIST_TYPES := by decide
    obtain ⟨h₁, h₂, h₃, h₄, h₅⟩ := hothers name hlost
    rw [if_neg h₁, if_neg h₂, if_neg h₃, if_neg (fun h => h.2 hlost), if_neg h₄, if_neg h₅,
      if_pos hlost]
  · rw [if_neg hlost]
    unfold tableType
    simp only [hlost, not_false_eq_true, and_true]

theorem tableType_ne_empty {name : List UInt8} : tableType name ≠ .empty := by
  unfold tableType
  split_ifs <;> decide

theorem tableType_u64 {name : List UInt8} :
    tableType name = .u64 ↔ name = ascii "cpu-release-addr" := by
  constructor
  · unfold tableType
    split_ifs with h₁ h₂
    · exact nofun
    · exact fun _ => List.mem_singleton.mp h₂
    all_goals exact nofun
  · rintro rfl
    decide

/-! ### Values -/

/-- What a property is to be presented as: the reading of its data that its table prescribes. -/
def Property.ReadAs (mem : Mem) (prop : Property) (value : DtbPropValue) : Prop :=
  if prop.value = [] then value = .empty
  else
    match tableType prop.name with
    | .empty => False
    | .u32 => value = .u32 (reading32 prop.value)
    | .u64 => value = .u64 (reading64 prop.value)
    | .str => ∃ ptr, value = .str ptr ∧ Bytes mem ptr prop.value
    | .array => ∃ ptr, value = .array prop.value.length ptr ∧ Bytes mem ptr prop.value
    | .phandle => value = .phandle (reading32 prop.value)
    | .strList => ∃ ptr, value = .strList prop.value.length ptr ∧ Bytes mem ptr prop.value
    | .unknown => value = .unknown

/-- A property without data, or one that is found in its table, and that no 64 bits are read of
unless they are zero. -/
def Property.Regular (prop : Property) : Prop :=
  prop.value = [] ∨
    prop.name ∉ lostNames ∧ (prop.name = ascii "cpu-release-addr" → reading64 prop.value = 0)

instance (prop : Property) : Decidable prop.Regular := inferInstanceAs (Decidable (_ ∨ _ ∧ (_ → _)))

theorem bigEndian_append (l l' : List UInt8) :
    bigEndian (l ++ l') = 2 ^ (8 * l'.length) * bigEndian l + bigEndian l' := by
  induction l' using List.reverseRecOn with
  | nil => simp [bigEndian]
  | append_singleton l' b ih =>
    have hsnoc : ∀ m : List UInt8, bigEndian (m ++ [b]) = 2 ^ 8 * bigEndian m + b.toNat := by
      intro m
      rw [bigEndian, List.foldl_append]
      rfl
    rw [← List.append_assoc, hsnoc, hsnoc, ih, List.length_append, List.length_singleton]
    ring

/-- The first half of 64 bits is all of them where they are zero, and nowhere else. -/
theorem reading32_eq_reading64 (value : List UInt8) :
    reading32 value = reading64 value ↔ reading64 value = 0 := by
  have hsplit : (value ++ List.replicate 8 0).take 8 = (value ++ List.replicate 4 0).take 4 ++
      ((value ++ List.replicate 8 0).take 8).drop 4 := by
    have hzeros : List.replicate 8 (0 : UInt8) = List.replicate 4 0 ++ List.replicate 4 0 := rfl
    have hhalf : (value ++ List.replicate 4 0).take 4 =
        ((value ++ List.replicate 8 0).take 8).take 4 := by
      rw [List.take_take, hzeros, ← List.append_assoc]
      refine (List.take_append_of_le_length ?_).symm
      rw [List.length_append, List.length_replicate]
      omega
    rw [hhalf, List.take_append_drop]
  have hlen : (((value ++ List.replicate 8 0).take 8).drop 4).length = 4 := by
    simp
  have hreading : reading64 value = 2 ^ 32 * reading32 value +
      bigEndian (((value ++ List.replicate 8 0).take 8).drop 4) := by
    rw [reading64, hsplit, bigEndian_append, ← hsplit, hlen]
    rfl
  omega

/-- The property that the reader makes of one at `q`. -/
def Property.present (mem : Mem) (header q : Nat) (prop : Property) : DtbProp :=
  ⟨strStart mem header + prop.nameoff, propValue mem prop.name prop.value.length (q + 4 + 4 + 4)⟩

/-- What the reader makes of a property is the reading of its data, exactly if it is regular. -/
theorem Property.Lies.readAs_iff {prop : Property} (hlies : prop.Lies mem q) :
    prop.ReadAs mem (prop.present mem header q).value ↔ prop.Regular := by
  have hdata : Bytes mem (q + 4 + 4 + 4) prop.value := hlies.value.left
  unfold Property.ReadAs Property.Regular Property.present propValue
  dsimp only
  by_cases hempty : prop.value = []
  · rw [if_pos hempty, if_pos (by rw [hempty]; rfl)]
    exact ⟨fun _ => Or.inl hempty, fun _ => rfl⟩
  · have hword : dtbToU32 mem (q + 4 + 4 + 4) = reading32 prop.value :=
      dtbToU32_value hlies.value hempty
    have hwide : dtbToU64 mem (q + 4 + 4 + 4) = reading32 prop.value := hword
    rw [if_neg hempty, if_neg (fun hlen => hempty (List.eq_nil_of_length_eq_zero hlen)),
      findPropType_eq, hword, hwide]
    by_cases hlost : prop.name ∈ lostNames
    · have htype : ∀ n ∈ lostNames, tableType n = .array := by decide
      rw [htype _ hlost, if_pos hlost]
      dsimp only
      constructor
      · rintro ⟨ptr, heq, -⟩
        exact nomatch heq
      · rintro (hnil | hregular)
        · exact absurd hnil hempty
        · exact absurd hlost hregular.1
    · rw [if_neg hlost]
      have hother : tableType prop.name ≠ .u64 → (prop.value = [] ∨ prop.name ∉ lostNames ∧
          (prop.name = ascii "cpu-release-addr" → reading64 prop.value = 0)) := fun hne =>
        Or.inr ⟨hlost, fun hname => absurd (tableType_u64.mpr hname) hne⟩
      cases htype : tableType prop.name with
      | empty => exact absurd htype tableType_ne_empty
      | u64 =>
        dsimp only
        have hname := tableType_u64.mp htype
        constructor
        · intro heq
          exact Or.inr ⟨hlost, fun _ =>
            (reading32_eq_reading64 prop.value).mp (DtbPropValue.u64.inj heq)⟩
        · rintro (hnil | ⟨-, hzero⟩)
          · exact absurd hnil hempty
          · exact congrArg _ ((reading32_eq_reading64 prop.value).mpr (hzero hname))
      | u32 => exact ⟨fun _ => hother (by rw [htype]; decide), fun _ => rfl⟩
      | str => exact ⟨fun _ => hother (by rw [htype]; decide), fun _ => ⟨_, rfl, hdata⟩⟩
      | array => exact ⟨fun _ => hother (by rw [htype]; decide), fun _ => ⟨_, rfl, hdata⟩⟩
      | phandle => exact ⟨fun _ => hother (by rw [htype]; decide), fun _ => rfl⟩
      | strList => exact ⟨fun _ => hother (by rw [htype]; decide), fun _ => ⟨_, rfl, hdata⟩⟩
      | unknown => exact ⟨fun _ => hother (by rw [htype]; decide), fun _ => rfl⟩

/-! ### The run -/

/-- The properties that the reader makes of those at `q`. -/
def presents (mem : Mem) (header : Nat) : List Property → Nat → List DtbProp
  | [], _ => []
  | prop :: props, q => prop.present mem header q :: presents mem header props (q + prop.encode.length)

/-- The callback on one property after the other, up to the first for which it returns false. -/
def presentAll (callback : PropCallback σ) (node : DtbNode) : List DtbProp → σ → σ
  | [], user => user
  | prop :: props, user =>
    let (go, user) := callback node prop user
    if go then presentAll callback node props user else user

theorem wp_callProp {E : Stop → Scan σ → Prop} {Q : Bool → Scan σ → Prop} {s : Scan σ}
    {callback : PropCallback σ} {node : DtbNode} {prop : DtbProp} :
    wp (callProp callback node prop) reader Q E s ↔ Q (callback node prop s.user).1
      { s with user := (callback node prop s.user).2 } := Iff.rfl

/-- One turn of the loop over the properties. -/
theorem wp_parseProp {E : Stop → Scan σ → Prop} {s : Scan σ} {finish : Nat} {node : DtbNode}
    {callback : PropCallback σ} {prop : Property}
    (h : prop.WellFormed reader.mem node.header)
    (hstrings : strEnd reader.mem node.header ≤ strStart reader.mem node.header + reader.loopBound)
    (hbytes : Bytes reader.mem q prop.body) (hq : q % 4 = 0) (hbefore : Before reader s q)
    (hfinish : q < finish) : wp (parseProp finish node callback ()) reader
      (fun c s' => s'.user =
          (callback node (prop.present reader.mem node.header q) s.user).2 ∧
        if (callback node (prop.present reader.mem node.header q) s.user).1 then
          c = .inl () ∧ s'.src = q + prop.body.length
        else c = .inr ()) E s := by
  have hlies := h.lies hbytes hq
  have hinside : ¬ strStart reader.mem node.header + prop.nameoff ≥
      strEnd reader.mem node.header := by
    have := h.inside
    omega
  have hbound : prop.name.length < reader.loopBound := by
    have := h.inside
    omega
  unfold parseProp
  rw [wp_bind, wp_get, wp_ite, if_pos (lt_of_le_of_lt hbefore.le hfinish), wp_bind]
  refine wp_dtbSkipNop hbefore (by rw [hlies.token]; decide) ?_
  rw [wp_bind, wp_peekU32, wp_ite, if_neg (by rw [hlies.token]; decide), wp_bind, wp_advance,
    wp_bind, wp_dtbNextU32, wp_bind, wp_dtbNextU32, wp_bind, wp_ask]
  dsimp only
  rw [hlies.len, hlies.nameoff, wp_bind, wp_ite, if_neg hinside, wp_bind]
  refine wp_readStr h.name h.named hbound ?_
  rw [wp_bind, wp_get, wp_callProp, wp_ite]
  split
  · rename_i hgo
    change (callback node (prop.present reader.mem node.header q) s.user).1 = true at hgo
    refine ⟨rfl, ?_⟩
    rw [if_pos hgo]
    exact ⟨rfl, hlies.align⟩
  · rename_i hstop
    change ¬ (callback node (prop.present reader.mem node.header q) s.user).1 = true at hstop
    refine ⟨rfl, ?_⟩
    rw [if_neg hstop]

/-- The loop over the properties of a node. -/
theorem wp_parseProps {E : Stop → Scan σ → Prop} {Q : Unit → Scan σ → Prop} {s : Scan σ}
    {finish stop : Nat} {props : List Property} {node : DtbNode} {callback : PropCallback σ}
    (hwf : ∀ prop ∈ props, prop.WellFormed reader.mem node.header)
    (hstrings : strEnd reader.mem node.header ≤ strStart reader.mem node.header + reader.loopBound)
    (hbytes : Bytes reader.mem s.src (props.flatMap Property.encode)) (hsrc : s.src % 4 = 0)
    (hstop : s.src + (props.flatMap Property.encode).length = stop) (hfinish : stop < finish)
    (hbound : (props.flatMap Property.encode).length < reader.loopBound)
    (hnext : dtbToU32 reader.mem stop ≠ FDT_NOP ∧ dtbToU32 reader.mem stop ≠ FDT_PROP)
    (hQ : ∀ src, Q () ⟨src, presentAll callback node
      (presents reader.mem node.header props s.src) s.user⟩) :
    wp (turns (parseProp finish node callback) ()) reader Q E s := by
  have hpos : ∀ prop ∈ props, 0 < prop.body.length := by
    intro prop _
    rw [prop.body_length]
    omega
  obtain ⟨hcount, hnops⟩ := items_bound Property.nops hpos
  change props.length ≤ (props.flatMap Property.encode).length at hcount
  refine wp_items Property.body Property.nops (fun rest _ q user => q % 4 = 0 ∧
    (∀ prop ∈ rest, prop.WellFormed reader.mem node.header) ∧
    presentAll callback node (presents reader.mem node.header rest q) user =
      presentAll callback node (presents reader.mem node.header props s.src) s.user) ?_ ?_
    ⟨hsrc, hwf, rfl⟩ ⟨0, trivial, rfl, by omega⟩ hbytes hstop (by omega) fun prop hprop => by
      exact Nat.lt_of_le_of_lt (hnops prop hprop).2 hbound
  · rintro prop rest ⟨⟩ q s' ⟨hq, hwf, hpresents⟩ hbefore hbytes hle
    have hlen := prop.body_length
    have hpad : (pad prop.value).length % 4 = 0 := pad_length_mod
    refine wp_mono (wp_parseProp (hwf prop List.mem_cons_self) hstrings hbytes hq hbefore
      (by omega)) ?_ fun _ _ hE => hE
    rintro c s'' ⟨huser, hc⟩
    rw [presents, presentAll] at hpresents
    split at hc
    · rename_i hgo
      obtain ⟨rfl, hsrc⟩ := hc
      dsimp only at hpresents
      rw [if_pos hgo, prop.encode_length, ← Nat.add_assoc] at hpresents
      refine ⟨hsrc, by omega, fun p hp => hwf p (List.mem_cons_of_mem _ hp), ?_⟩
      rw [huser]
      exact hpresents
    · rename_i hstopped
      obtain rfl := hc
      dsimp only at hpresents
      rw [if_neg hstopped, ← huser] at hpresents
      have hdone := hQ s''.src
      rw [← hpresents] at hdone
      exact hdone
  · rintro ⟨⟩ s' ⟨-, -, hpresents⟩ hbefore
    have hle := hbefore.le
    unfold parseProp
    rw [wp_bind, wp_get, wp_ite, if_pos (by omega), wp_bind]
    refine wp_dtbSkipNop hbefore hnext.1 ?_
    rw [wp_bind, wp_peekU32, wp_ite, if_pos hnext.2]
    rw [presents, presentAll] at hpresents
    have hdone := hQ stop
    rw [← hpresents] at hdone
    exact hdone

/-! ### The claim -/

/-- A property is presented under its name, with the reading of its data. -/
def Property.PresentedAs (mem : Mem) (prop : Property) (value : DtbProp) : Prop :=
  Bytes mem value.name (prop.name ++ [0]) ∧ prop.ReadAs mem value.value

/-- The properties are presented in order, up to the first for which the callback returns false. -/
def Presents (reader : Reader) (node : DtbNode) (props : List Property) : Prop :=
  ∃ values, List.Forall₂ (Property.PresentedAs reader.mem) props values ∧
    ∀ (σ : Type) (callback : PropCallback σ) (s : Scan σ), ∃ src,
      forEachDtbProp node callback reader s =
        .ok () ⟨src, presentAll callback node values s.user⟩

/-- The callback that notes the properties that it is called on, and goes on. -/
def noteProp : PropCallback (List DtbProp) := fun _ prop seen => (true, seen ++ [prop])

theorem presentAll_note {node : DtbNode} (values seen : List DtbProp) :
    presentAll noteProp node values seen = seen ++ values := by
  induction values generalizing seen with
  | nil => rw [presentAll, List.append_nil]
  | cons value values ih =>
    show presentAll noteProp node values (seen ++ [value]) = _
    rw [ih, List.append_assoc]
    rfl

theorem forall₂_presents {props : List Property}
    (hwf : ∀ prop ∈ props, prop.WellFormed mem header)
    (hbytes : Bytes mem q (props.flatMap Property.encode)) (hq : q % 4 = 0) :
    List.Forall₂ (Property.PresentedAs mem) props (presents mem header props q) ↔
      ∀ prop ∈ props, prop.Regular := by
  induction props generalizing q with
  | nil => exact ⟨fun _ prop hprop => absurd hprop List.not_mem_nil, fun _ => .nil⟩
  | cons prop props ih =>
    have hprop := hwf prop List.mem_cons_self
    have hpad : (pad prop.value).length % 4 = 0 := pad_length_mod
    have hlen := prop.body_length
    have hencode := prop.encode_length
    rw [List.flatMap_cons] at hbytes
    rw [presents, List.forall₂_cons, ih (fun p hp => hwf p (List.mem_cons_of_mem _ hp))
      hbytes.right (by omega), List.forall_mem_cons, Property.PresentedAs,
      (hprop.lies hbytes.left.left hq).readAs_iff]
    exact and_congr_left' (and_iff_right hprop.named)

/-- What the reader makes of the properties of a node of a blob, whatever the callback. -/
theorem forEachDtbProp_run {b : Blob} (h : b.At reader.mem dtb) (hbounded : b.Bounded reader dtb)
    {place : Node.Place} (hplace : place ∈ b.places reader.mem dtb) :
    (List.Forall₂ (Property.PresentedAs reader.mem) place.node.props
        (presents reader.mem dtb place.node.props (place.start + place.node.head.length)) ↔
      ∀ prop ∈ place.node.props, prop.Regular) ∧
    ∀ (σ : Type) (callback : PropCallback σ) (s : Scan σ), ∃ src,
      forEachDtbProp (place.node.describe reader dtb place.cells place.start) callback reader s =
        .ok () ⟨src, presentAll callback (place.node.describe reader dtb place.cells place.start)
          (presents reader.mem dtb place.node.props (place.start + place.node.head.length))
          s.user⟩ := by
  have hin := h.inside hplace
  have hroot := h.root_lt hbounded
  have hrootEnd := h.rootEnd
  have habove := hin.above
  have hbelow := hin.below
  have hbytes := hin.bytes
  have hhead := place.node.head_length_mod
  have haligned := hin.aligned
  have hnode := hin.nodes _ place.node.self_mem_nodes
  have hlen := place.node.encode_length
  rw [Node.encode_eq] at hbytes
  have hprops := hbytes.right.left
  have hpast : dtbToU32 reader.mem
        (place.start + place.node.head.length + place.node.propBytes.length) ≠ FDT_NOP ∧
      dtbToU32 reader.mem
        (place.start + place.node.head.length + place.node.propBytes.length) ≠ FDT_PROP := by
    rcases child_token hbytes.right.right with heq | heq
    · rw [heq]
      decide
    · rw [heq]
      decide
  refine ⟨forall₂_presents hnode.props hprops (by omega), fun σ callback s => ?_⟩
  have hwp : wp (forEachDtbProp (place.node.describe reader dtb place.cells place.start) callback)
      reader (fun _ s' => ∃ src, s' = ⟨src, presentAll callback
        (place.node.describe reader dtb place.cells place.start)
        (presents reader.mem dtb place.node.props (place.start + place.node.head.length))
        s.user⟩) (fun _ _ => False) s := by
    unfold forEachDtbProp
    rw [wp_bind, wp_ask, wp_bind, wp_modify]
    refine wp_parseProps hnode.props hbounded.strings hprops ?_ rfl ?_ ?_ hpast
      fun src => ⟨src, rfl⟩
    · show (place.start + place.node.head.length) % 4 = 0
      omega
    · show place.start + place.node.head.length + place.node.propBytes.length <
        structEnd reader.mem dtb
      omega
    · show place.node.propBytes.length < _
      omega
  obtain ⟨⟨⟩, s', hrun, src, rfl⟩ := wp_returns hwp
  exact ⟨src, hrun⟩

theorem regular_of_presents {b : Blob} (h : b.At reader.mem dtb) (hbounded : b.Bounded reader dtb)
    {place : Node.Place} (hplace : place ∈ b.places reader.mem dtb)
    (hpresents : Presents reader (place.node.describe reader dtb place.cells place.start)
      place.node.props) : ∀ prop ∈ place.node.props, prop.Regular := by
  obtain ⟨hiff, hruns⟩ := forEachDtbProp_run h hbounded hplace
  obtain ⟨values, hvalues, hcalls⟩ := hpresents
  obtain ⟨src, hrun⟩ := hruns _ noteProp ⟨0, []⟩
  obtain ⟨src', hrun'⟩ := hcalls _ noteProp ⟨0, []⟩
  obtain ⟨-, heq⟩ := Outcome.ok.inj (hrun.symm.trans hrun')
  have hlists := congrArg Scan.user heq
  dsimp only at hlists
  rw [presentAll_note, presentAll_note, List.nil_append, List.nil_append] at hlists
  rw [← hlists] at hvalues
  exact hiff.mp hvalues

/-- The properties of a node are presented as they are to be exactly if all of them are regular. -/
theorem for_each_dtb_prop_presents_iff {b : Blob} (h : b.At reader.mem dtb)
    (hbounded : b.Bounded reader dtb) {place : Node.Place}
    (hplace : place ∈ b.places reader.mem dtb) :
    Presents reader (place.node.describe reader dtb place.cells place.start) place.node.props ↔
      ∀ prop ∈ place.node.props, prop.Regular := by
  refine ⟨regular_of_presents h hbounded hplace, fun hregular => ?_⟩
  obtain ⟨hiff, hruns⟩ := forEachDtbProp_run h hbounded hplace
  exact ⟨_, hiff.mpr hregular, hruns⟩

/-- The root of the sample. -/
theorem for_each_dtb_prop_presents_iff_root : ∃ place ∈ sampleBlob.places sampleReader.mem 0x1000,
    place.node.name = [] ∧
    Presents sampleReader (place.node.describe sampleReader 0x1000 place.cells place.start)
      place.node.props := by
  refine ⟨⟨sampleBlob.root, (2, 1), 0x1028⟩, ?_, rfl, ?_⟩
  · exact List.mem_cons_self
  · refine (for_each_dtb_prop_presents_iff sampleBlob_at ⟨by decide, by decide +kernel⟩ ?_).mpr ?_
    · exact List.mem_cons_self
    · decide

/-- The interrupts of the processor are presented as a property of an unknown type. -/
theorem interrupts_lost : ¬ ∀ (reader : Reader) (dtb : Nat) (b : Blob), b.At reader.mem dtb →
    b.Bounded reader dtb → ∀ place ∈ b.places reader.mem dtb,
      Presents reader (place.node.describe reader dtb place.cells place.start)
        place.node.props := by
  intro hclaim
  have hbounded : sampleBlob.Bounded sampleReader 0x1000 := ⟨by decide, by decide +kernel⟩
  have hplace : ⟨.mk (ascii "cpu@3") 0 [⟨ascii "interrupts", 21, word32 5, 0⟩] [] 1, (1, 1), 0x105c⟩ ∈
      sampleBlob.places sampleReader.mem 0x1000 := List.mem_cons_of_mem _ List.mem_cons_self
  have hpresents := hclaim sampleReader 0x1000 sampleBlob sampleBlob_at hbounded _ hplace
  have hregular := regular_of_presents sampleBlob_at hbounded hplace hpresents
  exact absurd (hregular _ List.mem_cons_self) (by decide)

end Caprese.Fdt

import FlatSchema.Proofs.AppendOnly
import FlatSchema.Proofs.RoundTrip

/-!
# The header of a finished buffer

A finished buffer begins with its size, if that was asked for, the root
reference and the file identifier.  No padding stands between them, since the
zeros before them are counted for the greatest alignment that was prepared,
which is a multiple of a word once a table, a vector or a string has been
written.  So the header reads back from every builder whose alignments are
powers of two, whatever calls have been made of it and whatever came of them.
-/

namespace FlatSchema

namespace Build

open Builder

variable {pre post : Builder Int} {sizes : Int → Prop} {least root : Int}

/-! ## The greatest alignment -/

/-- The greatest alignment so far is one of some sizes, and not below a least one. -/
def Aligned (sizes : Int → Prop) (least : Int) (b : Builder Int) : Prop :=
  sizes b.minAlign ∧ least ≤ b.minAlign

section

variable (scalar : ∀ kind : ScalarKind, sizes kind.size)
include scalar

theorem stable_aligned (least : Int) : StableFor sizes (Aligned sizes least) where
  put := by
    intro bs s aligned
    refine .get_bind ?_
    dsimp only
    split
    · exact aligned
    · exact aligned
  reserve := by
    intro needed s aligned
    refine .get_bind (Upholds.bind aligned fun _ mid _ left => ?_)
    exact Preserves.ite (.throw _) (.pure _) mid left
  scalar := scalar
  raise := fun _ _ admitted aligned larger => ⟨admitted, by have := aligned.2; simp only; omega⟩
  mark := fun _ aligned => aligned
  count := fun _ _ aligned => aligned
  nest := fun _ _ aligned => aligned

/-- Once the first word of a table has been written, nothing else of it lowers the alignment. -/
theorem aligned_endTable
    (stays : Aligned sizes least pre ∨ ∃ obj post, Yields endTable pre obj post)
    (begins : Upholds (Aligned sizes least) (addWord 4 0) pre) :
    Upholds (Aligned sizes least) endTable pre := by
  have stable := stable_aligned scalar least
  refine .get_bind (.get_bind ?_)
  split
  · refine begins.bind fun _ begun _ aligned => ?_
    refine Preserves.bind preserves_offset (fun obj => .get_bind fun _ => ?_) begun aligned
    refine .bind (.get_bind fun s => ?_) fun vt => .bind (fun s aligned => .get_bind ?_) fun _ => ?_
    · split
      · exact .pure _
      · refine .bind (.forM fun word _ => stable.addWord (scalar .uint16) word) fun _ => ?_
        exact fun _ aligned => aligned
    · split
      · exact aligned
      · exact aligned
    · exact fun _ aligned => aligned
  · next closed =>
    rcases stays with aligned | ⟨obj, post, ran⟩
    · exact aligned
    grind [Yields.throw_iff, Yields.get_bind_iff, endTable]

theorem stableTables_aligned (least : Int) : StableTablesFor sizes (Aligned sizes least) where
  toStableVectorsFor := (stable_aligned scalar least).vectors
  startTable := preserves_startTable fun _ _ aligned => aligned
  slot := preserves_slot fun _ _ _ aligned _ => aligned
  endTable := fun s aligned =>
    aligned_endTable scalar (.inl aligned)
      ((stable_aligned scalar least).addWord (scalar .uint32) _ s aligned)

end

/-- A word that is written raises the alignment to four at least. -/
theorem aligned_addWord (v : Int) (s : Builder Int) :
    Upholds (Aligned (fun _ => True) 4) (addWord 4 v) s := by
  have stable : StableFor (fun _ => True) (Aligned (fun _ => True) 4) :=
    stable_aligned (fun _ => trivial) 4
  have raised : Aligned (fun _ => True) 4 (s.raised 4) := by
    rw [raised_eq]
    exact ⟨trivial, Int.le_max_right _ _⟩
  exact (stable.prep_of_raised 0 raised).bind fun _ mid _ aligned => stable.put _ mid aligned

/-! ## Objects that may be the root -/

/-- An operation that ends an object and answers where it is. -/
inductive Places : Build Int Int → Prop
  | endTable : Places endTable
  | endVector : Places endVector
  | createString (content : List UInt8) : Places (createString content)

theorem placed_of_endVector (ran : Yields endVector pre root post) :
    root = post.offset ∧ 4 ≤ post.minAlign := by
  rw [endVector, Yields.get_bind_iff] at ran
  split at ran
  · rw [Yields.modify_bind_iff, Yields.get_bind_iff, Yields.bind_iff] at ran
    rcases ran with ⟨_, counted, worded, ended⟩
    rcases ended with ⟨rfl, rfl⟩
    exact ⟨rfl, ((aligned_addWord _ _).of_yields worded).2⟩
  · exact (Yields.throw_iff.mp ran).elim

theorem Places.preserves (places : Places op)
    (stable : StableTablesFor sizes prop) : Preserves prop op := by
  cases places with
  | endTable => exact stable.endTable
  | endVector => exact stable.endVector
  | createString content => exact stable.createString content

/-- An object lies behind the position of the builder, and is aligned to a word at least. -/
theorem placed_of_places (places : Places op) (orderly : pre.Orderly)
    (ran : Yields op pre root post) : 0 ≤ root ∧ root ≤ post.offset ∧ 4 ≤ post.minAlign := by
  have nonneg : ∀ {b : Builder Int}, b.Orderly → 0 ≤ b.offset := by
    intro b orderly
    have := orderly.bounded.space_le
    rw [Builder.offset, Extent.ofInt_int]
    omega
  have still := (places.preserves stableTables_orderly pre orderly).of_yields ran
  cases places with
  | endTable =>
    rcases slots_of_endTable ran with ⟨slots, isOpen⟩
    have closed := (endTable_ends orderly.bounded orderly.stand isOpen).yields ran
    have aligned := (aligned_endTable (fun _ => trivial) (.inr ⟨_, _, ran⟩)
      (aligned_addWord 0 pre)).of_yields ran
    have least := nonneg orderly
    refine ⟨Int.le_trans least (Int.le_of_lt closed.offset_lt), ?_, aligned.2⟩
    rw [closed.valid.offset_eq]
    exact closed.object_le
  | endVector =>
    rcases placed_of_endVector ran with ⟨rfl, aligned⟩
    exact ⟨nonneg still, Int.le_refl _, aligned⟩
  | createString content =>
    rw [createString] at ran
    simp only [Yields.bind_iff] at ran
    rcases ran with ⟨_, _, _, _, _, _, _, _, _, ended⟩
    rcases placed_of_endVector ended with ⟨rfl, aligned⟩
    exact ⟨nonneg still, Int.le_refl _, aligned⟩

/-! ## Reading the header -/

/-- A power of two, however large. -/
def IsPowerOfTwo (size : Int) : Prop :=
  ∃ expo : Nat, size = (2 ^ expo : Nat)

theorem isPowerOfTwo_scalar (kind : ScalarKind) : IsPowerOfTwo kind.size := by
  rcases isPower_of_isAlignment (StructLayout.isAlignment_scalarSize kind) with ⟨expo, _, same⟩
  exact ⟨expo, congrArg Int.ofNat same⟩

/-- A buffer is finished only if there is room for the greatest alignment. -/
theorem minAlign_lt_of_finish (bounded : pre.Bounded)
    (ran : Yields (finish root ident sizePrefix) pre res post) : pre.minAlign < 4294967296 := by
  have fits : ∀ {extra : Nat} {mid : Builder Int} {res : Unit},
      Yields (prep pre.minAlign (extra : Int)) pre res mid → pre.minAlign < 4294967296 := by
    intro extra mid res prepared
    rcases (prep_ends bounded (.inl bounded.minAlign_pos) (Int.natCast_nonneg _)).yields prepared
      with ⟨zeros, _, room, _⟩
    have least := BitVec.le_toInt
      (-Extent.word (pre.offset + extra) &&& Extent.word (pre.minAlign - Extent.ofInt 1))
    have position := zeros.valid.space_le
    have limit := zeros.valid.capacity_lt
    rw [padding] at room
    omega
  unfold finish at ran
  cases ident with
  | none =>
    have ran : Yields (refer root sizePrefix) pre res post := ran
    rw [refer, Yields.get_bind_iff, Yields.bind_iff] at ran
    rcases ran with ⟨_, _, prepared, _⟩
    exact fits prepared
  | some ident =>
    simp only at ran
    split at ran
    · exact (Yields.throw_bind_iff.mp ran).elim
    · rw [Yields.get_bind_iff, Yields.bind_iff] at ran
      rcases ran with ⟨_, _, prepared, _⟩
      exact fits prepared

/-- The bytes of a file identifier read as its characters. -/
theorem identifier_of_stands {content : List UInt8}
    (length_eq : text.length = Buffer.identifierLength) (narrow : ∀ unit ∈ text.units, unit < 256)
    (stands : Stands content (content.length - Buffer.prefixSize sizePrefix - 4)
      (identifierBytes text)) : (Buffer.ofList content).identifier sizePrefix = text := by
  have same : ∀ unit ∈ text.units, UInt16.ofNat (UInt8.ofNat (unit.toNat % 256)).toNat = unit := by
    intro unit own
    have small : unit.toNat < 256 := narrow unit own
    rw [Nat.mod_eq_of_lt small, UInt8.toNat_ofNat_of_lt' small, UInt16.ofNat_toNat]
  have cut := stands.clipped
  rw [show spot content (content.length - Buffer.prefixSize sizePrefix - 4) =
      (Buffer.prefixSize sizePrefix : Int) + 4 by rw [spot]; omega,
    identifierBytes, List.length_map, show text.units.length = Buffer.identifierLength
      from length_eq] at cut
  rw [Buffer.identifier]
  rw [cut, List.map_map]
  exact congrArg Text.mk ((List.map_congr_left same).trans (List.map_id _))

/-- Every builder whose alignments were powers of two finishes with a header that reads back, with
any object for its root that it has ended, unless there is no room. -/
theorem finish_readable {room : Int} (small : room < 2147483648) (force : Bool)
    (earlier later : List Call)
    (powers : ∀ call ∈ earlier ++ later, ∀ size, call.Asks size → IsPowerOfTwo size)
    {op : Build Int Int} (places : Places op) {root : Int} {mid : Builder Int}
    (returned : Yields op (Call.afterAll earlier (Builder.start room force)) root mid)
    (identifier : Option Text)
    (named :
      ∀ text ∈ identifier, text.length = Buffer.identifierLength ∧ ∀ unit ∈ text.units, unit < 256)
    (sizePrefix : Bool) :
    Proceeds IsFull (do finish root identifier sizePrefix; bytes) (Call.afterAll later mid) ∧
      ∀ content last,
        Yields (do finish root identifier sizePrefix; bytes) (Call.afterAll later mid) content
            last → (Buffer.ofList content).rootTable sizePrefix = .ok (spot content root) ∧
          (∀ text ∈ identifier,
            (Buffer.ofList content).identifier sizePrefix = text ∧
              (Buffer.ofList content).hasIdentifier text sizePrefix = .ok true) ∧
          (sizePrefix = true →
            (Buffer.ofList content).readNat 4 (0 : Int) = .ok (content.length - 4)) ∧
          (Call.afterAll later mid).minAlign ∣ content.length := by
  have lasts : ∀ calls {prop : Builder Int → Prop} {b : Builder Int}, StableTables prop → prop b →
      prop (Call.afterAll calls b) := fun calls _ _ stable holds =>
    Call.preserves_afterAll stable calls (fun _ _ _ _ => trivial) holds
  have stable := stableTables_aligned isPowerOfTwo_scalar
  rw [List.forall_mem_append] at powers
  have before := lasts earlier stableTables_orderly (orderly_start small force)
  have orderly :=
    lasts later stableTables_orderly
      ((places.preserves stableTables_orderly _ before).of_yields returned)
  rcases placed_of_places places before returned with ⟨nonneg, behind, word⟩
  have behind := Int.le_trans behind (Call.keeps_afterAll later mid).offset_le
  have aligned := (places.preserves (stable 1) _ (Call.preserves_afterAll (stable 1) earlier
    powers.1 ⟨⟨0, rfl⟩, Int.le_refl 1⟩)).of_yields returned
  rcases Call.preserves_afterAll (stable 4) later powers.2 ⟨aligned.1, word⟩ with
    ⟨⟨expo, minAlign_eq⟩, least⟩
  have finishes := finish_ends nonneg identifier sizePrefix orderly.bounded
  refine ⟨(finishes.bind (fun _ _ failed => ?_) ?_ : Ensures _ _ (fun _ _ => True) _).proceeds, ?_⟩
  · rcases failed with ⟨text, own, other⟩ | ahead | full
    · exact (other (named text own).1).elim
    · omega
    · exact full
  · rintro _ last ⟨finished, _⟩
    refine .get_bind ?_
    rw [if_pos finished.finished_eq]
    exact .pure trivial
  · intro content last ran
    rw [Yields.bind_iff] at ran
    rcases ran with ⟨_, fin, finishing, ending⟩
    rcases finishes.yields finishing with ⟨finished, stands⟩
    have limit := minAlign_lt_of_finish orderly.bounded finishing
    rw [bytes, Yields.get_bind_iff, if_pos finished.finished_eq, finished.valid.content_eq]
      at ending
    rcases ending with ⟨rfl, _⟩
    have positive : 2 ≤ expo := by
      by_contra low
      rcases Nat.lt_succ_iff.mp (Nat.lt_of_not_le low) with _ | ⟨⟨⟩⟩ <;> omega
    have power : IsPower (2 ^ expo) := by
      refine ⟨expo, ?_, rfl⟩
      by_contra large
      have := Nat.pow_le_pow_right (n := 2) (by decide) (Nat.lt_of_not_le large)
      omega
    have four : 4 ∣ 2 ^ expo := Nat.pow_dvd_pow 2 positive
    rcases finished.refers with ⟨forward, far, refers⟩
    have capacity := length_written_le last
    have bound := finished.valid.capacity_lt
    refine ⟨?_, ?_, ?_, ?_⟩
    · have followed := follow_of_forward refers far (by omega)
      rw [show spot last.written (last.written.length - Buffer.prefixSize sizePrefix) =
        Buffer.prefixSize sizePrefix by rw [spot]; omega] at followed
      exact followed
    · intro text own
      rcases named text own with ⟨length_eq, narrow⟩
      have reads := identifier_of_stands length_eq narrow (stands text own _ minAlign_eq power four)
      refine ⟨reads, ?_⟩
      rw [Buffer.hasIdentifier, if_pos length_eq, reads, beq_self_eq_true]
    · intro sized
      have read := (finished.sized sized).readNat (show _ < 4294967296 by omega)
      rw [spot, Int.sub_self] at read
      exact read
    · rw [minAlign_eq]
      exact Int.natCast_dvd_natCast.mpr (finished.multiple _ minAlign_eq power four)

theorem finish_readable_named :
    ∃ mid content last,
      Yields (createString [0x61]) (Call.afterAll [.prep 16 0] (Builder.start standardRoom false)) 8
          mid ∧
        Yields (do finish 8 (some ⟨[0x54, 0x45, 0x53, 0x54]⟩) true; bytes) mid content last ∧
        (Buffer.ofList content).rootTable true = .ok (spot content 8) ∧
        (Buffer.ofList content).identifier true = ⟨[0x54, 0x45, 0x53, 0x54]⟩ ∧
        (Buffer.ofList content).readNat 4 (0 : Int) = .ok (content.length - 4) ∧
        16 ∣ content.length := by
  let fresh : Builder Int := Builder.start standardRoom false
  let spaced : Builder Int := ((prep 16 0).run.run fresh).2
  let mid : Builder Int := ((createString [0x61]).run.run spaced).2
  let ending : Build Int (List UInt8) := do
    finish 8 (some ⟨[0x54, 0x45, 0x53, 0x54]⟩) true
    bytes
  have prepared : Yields (prep 16 0) fresh () spaced := Prod.ext (by decide +kernel) rfl
  have asked : Call.afterAll [.prep 16 0] fresh = spaced :=
    Call.after_of_quiet (by rw [Call.run]; rfl) prepared
  have created : Yields (createString [0x61]) (Call.afterAll [.prep 16 0] fresh) 8 mid := by
    rw [asked]
    exact Prod.ext (by decide +kernel) rfl
  have finished : Yields ending mid (ending.run.run mid).2.content (ending.run.run mid).2 :=
    Prod.ext (by decide +kernel) rfl
  have readable := finish_readable (by decide) false [.prep 16 0] [] ?_ (.createString [0x61])
    created (some ⟨[0x54, 0x45, 0x53, 0x54]⟩) ?_ true
  · rcases readable.2 _ _ finished with ⟨leads, named, sized, multiple⟩
    refine ⟨_, _, _, created, finished, leads, (named _ rfl).1, sized rfl, ?_⟩
    rw [show (Call.afterAll [] mid).minAlign = 16 by decide +kernel] at multiple
    exact Int.natCast_dvd_natCast.mp multiple
  · intro call own size asks
    cases List.mem_singleton.mp own
    cases asks
    exact ⟨4, rfl⟩
  · have narrow : ([0x54, 0x45, 0x53, 0x54] : List UInt16).all (· < 256) = true := by decide
    rintro _ ⟨⟩
    exact ⟨rfl, fun unit mem => of_decide_eq_true (List.all_eq_true.mp narrow unit mem)⟩

end Build

end FlatSchema

import FlatSchema.Proofs.VectorWriting

/-!
# Writing tables

While a table is open its fields are put one after another, and each slot
notes where its field begins.  At the end the vtable is put, or an equal one
is shared, and the table refers to it.  A reader that is sent to the table
then finds each field where its slot says.
-/

namespace FlatSchema

variable {res : Unit} {i : Nat}

open Builder

namespace Builder

/-- The two bytes of a word of a vtable. -/
def vtableWord (word : Int) : List UInt8 :=
  littleEndian 2 (Extent.word word).toNat

/-- Every vtable of a list stands where it is noted. -/
def VtablesStand (bs : List UInt8) (vtables : List (List Int × Int)) : Prop :=
  ∀ words vt,
    (words, vt) ∈ vtables → Stands bs vt (words.flatMap vtableWord)

/-- Slots are at hand, one at an index among them. -/
def HasSlot (b : Builder Int) (i : Nat) : Prop :=
  ∃ slots, b.slots = some slots ∧ i < slots.length

/-- What was written last is the field of a slot of the open table, which takes so many bytes after
zeros that align it. -/
structure Notes (pre : Builder Int) (i : Nat) (cell : Storage Nat) (post : Builder Int) : Prop where
  valid : post.Valid
  isSuffix : pre.written <:+ post.written
  pos : 0 < cell.size
  moved :
    ∃ n : Nat,
      (n : Int) = -(pre.offset + cell.size) % cell.alignment ∧
        post.offset = pre.offset + n + cell.size
  setting_eq :
    ∃ slots,
      pre.slots = some slots ∧ i < slots.length ∧
        post.setting =
          { pre.setting with
            slots := some (slots.set i (post.written.length : Int)) }

theorem Notes.offset_lt (notes : Notes pre i cell post) : pre.offset < post.offset := by
  grind [moved, pos]

theorem Notes.length_pos (notes : Notes pre i cell post)
    (bounded : pre.Bounded) : 0 < post.written.length := by
  have further := notes.offset_lt
  have first := bounded.offset_eq
  have last := notes.valid.offset_eq
  omega

/-- A table has been ended: it refers to a vtable of the fields that its slots noted. -/
structure ClosedTable (pre : Builder Int) (slots : List Int) (obj : Int)
    (post : Builder Int) : Prop where
  valid : post.Valid
  isSuffix : pre.written <:+ post.written
  setting_eq :
    post.setting = { pre.setting with slots := none, nested := false, vtables := post.vtables }
  isPrefix : pre.vtables <+: post.vtables
  vtablesStand : VtablesStand post.written post.vtables
  lt_object : (pre.written.length : Int) < obj
  moved : ∃ n : Nat, n ≤ 3 ∧ obj = pre.offset + n + 4
  object_le : obj ≤ post.written.length
  refers :
    ∃ vt,
      (Build.vtableWords obj pre.objectStart slots, vt) ∈ post.vtables ∧
        Stands post.written obj (littleEndian 4 (Extent.word (vt - obj)).toNat)

theorem ClosedTable.offset_lt {slots : List Int} (closed : ClosedTable pre slots obj post) :
    pre.offset < obj := by
  rcases closed.moved with ⟨_, _, further⟩
  omega

/-- Vtables keep standing where bytes are put in front. -/
theorem VtablesStand.mono {vtables : List (List Int × Int)} (stand : VtablesStand bs vtables)
    (isSuffix : bs <:+ later) : VtablesStand later vtables := by
  intro words vt mem
  exact (stand words vt mem).mono isSuffix

end Builder

namespace Build

variable {pre mid post : Builder Int}

/-- Beginning a table clears its slots. -/
theorem startTable_ends (n : Nat) (pre : Builder Int) :
    Ensures (startTable (n : Int)) pre
      (fun _ post =>
        post =
          { pre with
            slots := some (List.replicate n 0)
            nested := true
            objectStart := pre.offset })
      fun _ _ => pre.nested = true ∨ 4294967296 ≤ n := by
  refine assertNotNested_bind .inl fun _ => ?_
  split
  · next all hit =>
      rw [slotCount?, Extent.integer?_int, Option.map_eq_some_iff] at hit
      rcases hit with ⟨num, fits, rfl⟩
      cases (Option.filter_eq_some_iff.mp fits).1
      exact .modify rfl
  · next miss =>
      rw [slotCount?, Extent.integer?_int, Option.map_eq_none_iff, Option.filter_eq_none_iff]
        at miss
      have beyond := miss _ rfl
      rw [decide_eq_true_eq] at beyond
      exact .throw (.inr (by omega))

/-! ## Fields -/

/-- Noting a field puts the offset into its slot. -/
theorem slot_ends (cell : Storage Nat) (i : Nat) (bounded : pre.Bounded)
    (appended : Appends pre (chunk ++ List.replicate (n + (-pre.space).toNat) 0) mid)
    (padded : (n : Int) = -(pre.offset + cell.size) % cell.alignment)
    (size : chunk.length = cell.size) (pos : 0 < cell.size) :
    Ensures (slot (i : Int)) mid (fun _ post => Notes pre i cell post ∧ post.written = mid.written)
      fun _ _ => ¬pre.HasSlot i := by
  have same : pre.slots = mid.slots := (congrArg Setting.slots appended.setting_eq).symm
  rw [HasSlot]
  refine .get_bind ?_
  split
  · grind [Ensures.throw]
  · next slots hit =>
      simp only [isOutside, Extent.less_int, Extent.same_int, Extent.ofInt_int, decide_true,
        Bool.true_and, Bool.or_eq_true, decide_eq_true_eq, Bool.not_eq_true',
        decide_eq_false_iff_not, Extent.integer?_int]
      split
      · grind [Ensures.throw_bind]
      · next fits =>
          have len := appended.length_eq
          have before := bounded.offset_eq
          have after := appended.valid.offset_eq
          rw [List.length_append, List.length_replicate] at len
          refine ⟨⟨appended.valid.of_setting rfl rfl rfl (Int.le_refl _), appended.isSuffix, pos,
            ⟨n, padded, ?_⟩, slots, same.trans hit, by omega, ?_⟩, rfl⟩
          · show mid.offset = _
            omega
          · rw [appended.valid.offset_eq, ← appended.setting_eq]
            rfl

/-- A scalar field is left out where it counts as its default, unless defaults are forced, and
else stands at its slot. -/
theorem addFieldScalar_ends (i : Nat) (kind : ScalarKind) (v fallback : ScalarValue)
    (bounded : pre.Bounded) :
    Ensures (addFieldScalar (i : Int) kind v fallback) pre
      (fun _ post =>
        (!pre.forceDefaults && v.same fallback) = true ∧ pre = post ∨
          (!pre.forceDefaults && v.same fallback) = false ∧ Notes pre i kind.storage post ∧
            ∃ bs, kind.encode? v = some bs ∧ Stands post.written post.written.length bs)
      fun err post =>
        kind.encode? v = none ∨ ¬pre.HasSlot i ∨ Exceeds (pre.offset + 2 * kind.size) err post := by
  refine .get_bind ?_
  split
  · next same => exact .pure (.inl ⟨same, rfl⟩)
  · next different =>
      refine (addScalar_ends kind v bounded).bind (fun _ _ failed => failed.imp_right .inr) ?_
      rintro _ mid ⟨n, bs, padded, size, enc, appended, _⟩
      have aligns : (n : Int) = -(pre.offset + kind.size) % kind.size := by
        rw [padded, Int.neg_add, Int.add_neg_emod_self]
      refine (slot_ends kind.storage i bounded appended aligns size kind.size_pos).mono
        (fun _ _ none => .inr (.inl none)) ?_
      rintro _ post ⟨notes, tape⟩
      refine .inr ⟨Bool.eq_false_of_not_eq_true different, notes, bs, enc, ?_⟩
      rw [tape]
      exact appended.stands.left

/-- A reference field stands at its slot; the offset zero stands for nothing. -/
theorem addFieldOffset_ends (i : Nat) (target : Int) (bounded : pre.Bounded) :
    Ensures (addFieldOffset (i : Int) target) pre
      (fun _ post =>
        target = 0 ∧ pre = post ∨
          target ≠ 0 ∧ Notes pre i ⟨4, 4⟩ post ∧
            ∃ forward : Nat,
              (0 ≤ target → (forward : Int) = post.written.length - target) ∧
                Stands post.written post.written.length (littleEndian 4 forward))
      fun err post => pre.offset < target ∨ ¬pre.HasSlot i ∨ IsFull err post := by
  unfold addFieldOffset
  simp only [Extent.same_int, Extent.ofInt_int, decide_eq_true_eq]
  split
  · next none => exact .pure (.inl ⟨none, rfl⟩)
  · next some =>
      refine (addOffset_ends target bounded).bind (fun _ _ failed => failed.imp_right .inr) ?_
      rintro _ mid ⟨n, forward, padded, appended, gap, _⟩
      have aligns : (n : Int) = -(pre.offset + (4 : Nat)) % (4 : Nat) := by omega
      refine (slot_ends ⟨4, 4⟩ i bounded appended aligns (length_littleEndian _ _) (by decide)).mono
        (fun _ _ none => .inr (.inl none)) ?_
      grind [Stands.left, Appends.stands]

/-- A struct that was just written becomes the field of its slot. -/
theorem addFieldStruct_ends (cell : Storage Nat) (i : Nat) (target : Int) (bounded : pre.Bounded)
    (appended : Appends pre (chunk ++ List.replicate (n + (-pre.space).toNat) 0) mid)
    (padded : (n : Int) = -(pre.offset + cell.size) % cell.alignment)
    (size : chunk.length = cell.size) (pos : 0 < cell.size) :
    Ensures (addFieldStruct (i : Int) target) mid
      (fun _ post => Notes pre i cell post ∧ post.written = mid.written)
      fun _ _ => target ≠ mid.offset ∨ ¬pre.HasSlot i := by
  rw [addFieldStruct, Build.offset, bind_assoc]
  refine .get_bind ?_
  rw [pure_bind]
  split
  · next other => exact .throw_bind (.inl (by simpa using other))
  · exact (slot_ends cell i bounded appended padded size pos).mono (fun _ _ => .inr)
      fun _ _ noted => noted

/-! ## Vtables -/

/-- The words of a vtable that are put from an even offset stand without gaps. -/
theorem addWords_ends (words : List Int) (valid : pre.Valid)
    (even : (pre.written.length : Int) % 2 = 0) :
    Ensures (words.reverse.forM (addWord 2)) pre
      (fun _ post =>
        Appends pre (words.flatMap vtableWord) post ∧ (post.written.length : Int) % 2 = 0 ∧
          post.offset = pre.offset + 2 * words.length)
      (Exceeds (pre.offset + 2 * words.length + 2)) := by
  induction words with
  | nil => exact .pure ⟨.refl valid, even, by simp⟩
  | cons hd rest ih =>
    rw [List.length_cons]
    refine .reverse_forM_cons (ih.mono (fun _ _ full => full.mono (by omega))
      fun _ _ done => done) ?_
    rintro mid ⟨appended, multiple, further⟩
    rw [← appended.valid.offset_eq] at multiple
    refine (addWord_ends isAlignment_two appended.valid.toBounded hd).mono
      (fun _ _ full => full.mono (by omega)) ?_
    rintro _ post ⟨n, padded, put, beyond⟩
    have gapless : n = 0 := by omega
    subst gapless
    rw [appended.valid.gap_eq, List.replicate_zero, List.append_nil] at put
    refine ⟨appended.trans put, ?_, by omega⟩
    rw [← put.valid.offset_eq]
    omega

/-- The vtable of some words is noted: it was there, or it is put in front.  It stands there
whatever else of the same length follows. -/
theorem vtable_ends (words : List Int) (valid : pre.Valid)
    (even : (pre.written.length : Int) % 2 = 0) :
    Ensures (Build.vtable words) pre
      (fun vt post =>
        ∃ more,
          post.Valid ∧ post.written = more ++ pre.written ∧
            post.setting = { pre.setting with vtables := post.vtables } ∧
            pre.vtables <+: post.vtables ∧
            (words, vt) ∈ post.vtables ∧
            ∀ rest : List UInt8, rest.length = pre.written.length →
              VtablesStand rest pre.vtables → VtablesStand (more ++ rest) post.vtables)
      (Exceeds (pre.offset + 2 * words.length + 2)) := by
  refine .get_bind ?_
  split
  · next hit =>
      exact .pure ⟨[], valid, rfl, rfl, List.prefix_refl _, mem_of_lookup hit,
        fun _ _ stand => stand⟩
  · refine (addWords_ends words valid even).bind (fun _ _ full => full) ?_
    rintro _ mid ⟨appended, _, _⟩
    have vtables_eq : mid.vtables = pre.vtables := congrArg Setting.vtables appended.setting_eq
    refine ⟨words.flatMap vtableWord, appended.valid.of_setting rfl rfl rfl (Int.le_refl _),
      appended.bytes_eq, ?_, ?_, ?_, ?_⟩
    · rw [← appended.setting_eq]
      rfl
    · grind
    · exact List.mem_append_right _ List.mem_cons_self
    · intro rest same stand other place mem
      rcases List.mem_append.mp mem with old | new
      · rw [vtables_eq] at old
        exact (stand other place old).mono (List.suffix_append _ _)
      · rw [List.mem_singleton] at new
        cases new
        rw [appended.valid.offset_eq, appended.length_eq, ← same, ← List.length_append]
        exact .front _ _

/-- Ending a table: its reference to the vtable takes the place of four zeros, and everything
that was there before stays. -/
theorem endTable_ends {slots : List Int} (bounded : pre.Bounded)
    (stand : VtablesStand pre.written pre.vtables) (slots_eq : pre.slots = some slots) :
    Ensures endTable pre (fun obj post => ClosedTable pre slots obj post)
      fun err post =>
        pre.nested = false ∨ Exceeds (pre.offset + 2 * (usedSlots slots).length + 13) err post := by
  refine .get_bind (.get_bind ?_)
  rw [slots_eq]
  split
  · next isOpen _ same =>
      cases same
      refine (addWord_ends isAlignment_four bounded _).bind
        (fun _ _ full => .inr (full.mono (by omega))) ?_
      rintro _ begun ⟨n, padded, appended, further⟩
      generalize n + (-pre.space).toNat = zeros at appended
      have len := appended.length_eq
      rw [List.length_append, length_littleEndian, List.length_replicate] at len
      refine .get_bind ?_
      rw [appended.valid.offset_eq] at further ⊢
      have counted :
          (vtableWords (begun.written.length : Int) begun.objectStart slots).length =
            (usedSlots slots).length + 2 := by
        simp [vtableWords]
      refine (vtable_ends _ appended.valid (by omega)).bind
        (fun _ _ full => .inr (full.mono (by rw [appended.valid.offset_eq]; omega))) ?_
      rintro vt listed ⟨more, listedValid, bytes_eq, setting_eq, isPrefix, mem, standing⟩
      have begunVtables : begun.vtables = pre.vtables :=
        congrArg Setting.vtables appended.setting_eq
      have begunStart : begun.objectStart = pre.objectStart :=
        congrArg Setting.objectStart appended.setting_eq
      -- The four zeros stand behind the vtable, if one was put.
      rw [appended.bytes_eq, List.append_assoc] at bytes_eq
      have gap :
          (begun.written.length : Int) =
            (littleEndian 4 (Extent.word (Extent.ofInt 0 : Int)).toNat ++
              (List.replicate zeros 0 ++ pre.written)).length := by
        simp only [List.length_append, length_littleEndian, List.length_replicate]
        omega
      refine (replace_ends listedValid bytes_eq (by rw [length_littleEndian, length_littleEndian])
        gap).bind (fun _ _ never => never.elim) ?_
      rintro _ referring ⟨referringValid, referringBytes, referringSetting⟩
      have vtables_eq : referring.vtables = listed.vtables :=
        congrArg Setting.vtables referringSetting
      have settings : referring.setting = { pre.setting with vtables := referring.vtables } := by
        rw [referringSetting, setting_eq, appended.setting_eq, vtables_eq]
      rw [begunStart] at mem
      rw [begunVtables] at isPrefix standing
      have suffix : pre.written <:+ referring.written := by
        grind
      refine .modify_bind (.pure ⟨referringValid.of_setting rfl rfl rfl (Int.le_refl _), suffix, ?_,
        ?_, ?_, ?_, ⟨n, by omega, further⟩, ?_, vt, ?_, ?_⟩)
      · exact congrArg (fun setting => { setting with slots := none, nested := false }) settings
      · rw [vtables_eq]
        exact isPrefix
      · show VtablesStand referring.written referring.vtables
        rw [referringBytes, vtables_eq]
        refine standing _ ?_ (stand.mono ⟨_, List.append_assoc _ _ _⟩)
        simp only [List.length_append, length_littleEndian, List.length_replicate]
        omega
      · omega
      · show (begun.written.length : Int) ≤ referring.written.length
        simp_all
      · rw [vtables_eq]
        exact mem
      · refine ⟨more, List.replicate zeros 0 ++ pre.written, referringBytes, ?_⟩
        simp_all
  grind [Ensures.throw]

end Build

/-! ## Between tables and vectors -/

namespace Builder

/-- A builder in order, whose default scalars are stored or left out. -/
structure Ready (b : Builder Int) (forced : Bool) : Prop where
  bounded : b.Bounded
  forced_eq : b.forceDefaults = forced
  stand : VtablesStand b.written b.vtables

/-- Whole tables and vectors have been written. -/
structure Grows (forced : Bool) (pre post : Builder Int) : Prop where
  ready : post.Ready forced
  isSuffix : pre.written <:+ post.written
  isPrefix : pre.vtables <+: post.vtables
  closed : pre.nested = false → post.nested = false

variable {forced : Bool} {pre mid post : Builder Int}

theorem Grows.refl (ready : pre.Ready forced) : Grows forced pre pre :=
  ⟨ready, List.suffix_rfl, List.prefix_rfl, id⟩

theorem Grows.trans (fst : Grows forced pre mid) (snd : Grows forced mid post) :
    Grows forced pre post where
  ready := snd.ready
  isSuffix := fst.isSuffix.trans snd.isSuffix
  isPrefix := fst.isPrefix.trans snd.isPrefix
  closed := fun isClosed => snd.closed (fst.closed isClosed)

theorem ClosedVector.grows (closed : ClosedVector pre n elems off post) (ready : pre.Ready forced) :
    Grows forced pre post := by
  have vtables : post.vtables = pre.vtables := congrArg Setting.vtables closed.setting_eq
  refine ⟨⟨closed.valid.toBounded, ?_, ?_⟩, closed.isSuffix, ?_, fun _ => ?_⟩
  · exact (congrArg Setting.forceDefaults closed.setting_eq).trans ready.forced_eq
  · rw [vtables]
    exact ready.stand.mono closed.isSuffix
  · exact vtables.symm ▸ List.prefix_rfl
  · exact congrArg Setting.nested closed.setting_eq

end Builder

end FlatSchema

import FlatSchema.Proofs.ClosedCatalog
import FlatSchema.Proofs.Operations
import FlatSchema.Proofs.RoundTrip

/-!
# Tables without holes

The slots of a table are written widest first.  What is as wide as the field
before it, or narrower, needs no padding behind it, for alignments are powers
of two and every size is a multiple of its alignment.  So the fields of a table
that are stored lie side by side, whichever of them are left out: there is
padding behind the first of them and before the last word alone.
-/

namespace FlatSchema

namespace Catalog

variable {c : Catalog} {write : SlotWrite} {t : TableType}

/-! ## The order of writing -/

/-- The order of writing goes by alignment. -/
theorem inlineWidth_eq (c : Catalog) (ty : FieldType) :
    c.inlineWidth ty = ((c.storage? ty).getD ⟨4, 4⟩).alignment := by
  unfold inlineWidth storage?
  cases c.scalar? ty with
  | some kind => rfl
  | none =>
    grind

theorem width_of_mem_writeOrder (mem : write ∈ t.writeOrder c) :
    write.width = (write.cell c).alignment := by
  rcases mem_writeOrder.mp mem with ⟨fld, own, raw⟩
  rw [TableField.writes] at raw
  split at raw
  · cases raw
  · dsimp only at raw
    split at raw
    · rcases List.mem_cons.mp raw with rfl | later
      · rfl
      · cases List.mem_singleton.mp later
        exact inlineWidth_eq c fld.type
    · cases List.mem_singleton.mp raw
      exact inlineWidth_eq c fld.type

/-- Nothing is written after what is narrower. -/
theorem pairwise_writeOrder (c : Catalog) (t : TableType) :
    (t.writeOrder c).Pairwise fun left right =>
      (right.cell c).alignment ≤ (left.cell c).alignment := by
  have sorted := @List.pairwise_mergeSort _ (fun left right : SlotWrite => right.width ≤ left.width)
    (fun a b c => by simp only [decide_eq_true_eq]; omega)
    (fun a b => by simp only [Bool.or_eq_true, decide_eq_true_eq]; omega)
    (t.fields.flatMap (TableField.writes c))
  refine sorted.imp_of_mem ?_
  intro left right leftMem rightMem ordered
  rw [← width_of_mem_writeOrder leftMem, ← width_of_mem_writeOrder rightMem]
  exact of_decide_eq_true ordered

/-- What a slot takes is a multiple of its alignment, which is a power of two. -/
theorem Sound.cell (sound : c.Sound) (write : SlotWrite) :
    StructLayout.IsAlignment (write.cell c).alignment ∧
      (write.cell c).alignment ∣ (write.cell c).size := by
  have word : StructLayout.IsAlignment 4 ∧ 4 ∣ 4 := ⟨Build.isAlignment_four, dvd_refl 4⟩
  unfold SlotWrite.cell
  split
  · exact ⟨StructLayout.isAlignment_scalarSize .uint8, dvd_refl 1⟩
  · unfold storage?
    cases c.scalar? write.field.type with
    | some kind => exact ⟨StructLayout.isAlignment_scalarSize kind, dvd_refl _⟩
    | none =>
      cases write.field.type with
      | named id =>
        dsimp only
        split
        · grind [SoundStruct.isAlignment, SoundStruct.dvd_size, structs]
        · exact word
      | _ => exact word

/-! ## Fields side by side -/

/-- The room that slots take without padding. -/
def sizes (c : Catalog) : List SlotWrite → Nat
  | [] => 0
  | write :: rest => (write.cell c).size + sizes c rest

/-- What ends at a multiple of the alignment of what comes next needs no padding behind this. -/
theorem stop_of_dvd (fits : ((write.cell c).alignment : Int) ∣ off)
    (whole : (write.cell c).alignment ∣ (write.cell c).size) :
    write.stop c off = off + (write.cell c).size := by
  have none := Int.emod_eq_zero_of_dvd
    (Int.dvd_neg.mpr (Int.dvd_add fits (Int.natCast_dvd_natCast.mpr whole)))
  rw [SlotWrite.stop, none, Int.add_zero]

theorem foldl_stop (sound : c.Sound)
    (sorted : writes.Pairwise fun left right => (right.cell c).alignment ≤ (left.cell c).alignment)
    (fits : ∀ write ∈ writes, ((write.cell c).alignment : Int) ∣ off) :
    writes.foldl (SlotWrite.stop c) off = off + sizes c writes := by
  induction writes generalizing off with
  | nil => exact (Int.add_zero off).symm
  | cons write rest ih =>
    rw [List.pairwise_cons] at sorted
    rcases sound.cell write with ⟨power, whole⟩
    rw [List.foldl_cons, stop_of_dvd (fits write List.mem_cons_self) whole, ih sorted.2 ?_, sizes]
    · omega
    · intro other mem
      have narrower := (sound.cell other).1.dvd power (sorted.1 other mem)
      exact Int.dvd_add (fits other (List.mem_cons_of_mem _ mem))
        (Int.natCast_dvd_natCast.mpr (narrower.trans whole))

/-- Slots that are written widest first lie side by side, after some padding behind the first. -/
theorem exists_lead (sound : c.Sound)
    (sorted : stored.Pairwise fun left right => (right.cell c).alignment ≤ (left.cell c).alignment)
    (start : Int) :
    ∃ lead : Nat,
      (stored = [] ∧ lead = 0 ∨
        ∃ widest ∈ stored, lead < (widest.cell c).alignment ∧
          ∀ write ∈ stored, (write.cell c).alignment ≤ (widest.cell c).alignment) ∧
        ∀ before, before <+: stored → (before = [] → lead = 0) →
          before.foldl (SlotWrite.stop c) start = start + lead + sizes c before := by
  cases stored with
  | nil =>
    simp_all [sizes, SlotWrite.stop, SlotWrite.cell]
  | cons first rest =>
    rw [List.pairwise_cons] at sorted
    rcases sound.cell first with ⟨power, whole⟩
    have positive : (0 : Int) < (first.cell c).alignment := Int.natCast_pos.mpr power.pos
    have least := Int.emod_nonneg (-(start + (first.cell c).size)) (Int.ne_of_gt positive)
    have below := Int.emod_lt_of_pos (-(start + (first.cell c).size)) positive
    have exact := Int.toNat_of_nonneg least
    refine ⟨(-(start + (first.cell c).size) % (first.cell c).alignment).toNat, .inr ⟨first,
      List.mem_cons_self, by omega, ?_⟩, ?_⟩
    · grind
    · intro before partway full
      cases before with
      | nil =>
        rw [full rfl]
        simp [sizes]
      | cons hd more =>
        rcases List.cons_prefix_cons.mp partway with ⟨rfl, inner⟩
        -- The first slot ends at a multiple of its alignment, so of that of all others.
        have ends : ((hd.cell c).alignment : Int) ∣ hd.stop c start := by
          rw [SlotWrite.stop, Int.add_comm start, ← exact]
          exact Int.dvd_of_emod_eq_zero (Build.emod_of_padding exact)
        rw [List.foldl_cons, foldl_stop sound (sorted.2.sublist inner.sublist) ?_, sizes,
          SlotWrite.stop]
        · omega
        · intro write mem
          have narrower := (sound.cell write).1.dvd power (sorted.1 write (inner.subset mem))
          exact (Int.natCast_dvd_natCast.mpr narrower).trans ends

/-! ## Tables -/

/-- Whatever a record leaves out, the fields of its table that are stored lie side by side, in the
order of writing.  Each slot notes where its field ends; fewer bytes of padding than the widest of
them is aligned to stand behind the first, and at most three before the last word. -/
theorem writeTable_packed (schemas : List Schema) (entry : Option Text) (earlier : List Diagnostic)
    {c : Catalog}
    (accepted :
      (ofSymbols schemas (SymbolTable.ofSchemas schemas).value entry earlier).value = .accepted c)
    {id : Nat} {t : TableType} (body : c.body? id = some (.table t)) {pre post : Builder Int}
    (reachable : pre.Reachable) {e : Entry} {fs : Fields} {obj : Int}
    (ran : Yields (Encode.writeTable c e t fs) pre obj post) :
    ∃ (start vt : Int) (slots : List Int) (stored : List SlotWrite) (lead tail : Nat),
      (Build.vtableWords obj start slots, vt) ∈ post.vtables ∧
        Stands post.written obj (littleEndian 4 (Extent.word (vt - obj)).toNat) ∧
        stored.Sublist (t.writeOrder c) ∧
        (∀ write ∈ t.writeOrder c, write ∉ stored → slots[write.slot]? = some 0) ∧
        (∀ before write, before ++ [write] <+: stored →
          slots[write.slot]? = some (start + lead + sizes c (before ++ [write]))) ∧
        (stored = [] ∧ lead = 0 ∨
          ∃ widest ∈ stored, lead < (widest.cell c).alignment ∧
            ∀ write ∈ stored, (write.cell c).alignment ≤ (widest.cell c).alignment) ∧
        tail ≤ 3 ∧ obj = start + lead + sizes c stored + tail + 4 := by
  have sound := sound_of_accepted accepted
  let p := plainPassage sound pre.forceDefaults
  have ready : pre.Ready p.forced :=
    ⟨reachable.orderly.bounded, rfl, reachable.orderly.stand⟩
  rcases (writeTable_ends (p := p) body (fun own _ => tableConveys own) ready e).yields ran with
    ⟨kids, mid, opened, full, slots, _, _, whole, _⟩
  rcases whole.written.stored with
    ⟨stored, (laid : Stored c opened.offset (t.writeOrder c) stored slots full.offset)⟩
  rcases exists_lead sound ((pairwise_writeOrder c t).sublist laid.sublist) opened.offset with
    ⟨lead, leads, ends⟩
  rcases whole.closed.refers with ⟨vt, listed, refers⟩
  rcases whole.closed.moved with ⟨tail, few, obj_eq⟩
  rw [whole.start_eq] at listed
  refine ⟨opened.offset, vt, slots, stored, lead, tail, listed, refers, laid.sublist, laid.skipped,
    ?_, leads, few, ?_⟩
  · intro before write partway
    rw [laid.noted before write partway, ends _ partway (by simp)]
  · have closed : stored = [] → lead = 0 := by
      rintro rfl
      rcases leads with ⟨_, none⟩ | ⟨_, mem, _⟩
      · exact none
      · cases mem
    rw [obj_eq, laid.stop_eq, ends stored List.prefix_rfl closed]

/-- A table of three numbers of different widths. -/
def plateSchema : Schema where
  path := Text.ofString "plate.fbs"
  span := default
  items :=
    [ .declaration ⟨"Plate", [], [], [], .table
        [⟨"kind", .scalar .uint8 default, none, [], [], default⟩,
          ⟨"width", .scalar .int16 default, some ⟨.int 4, default⟩, [], [], default⟩,
          ⟨"area", .scalar .float64 default, none, [], [], default⟩], default⟩ ]

def plateTable : TableType :=
  ⟨[⟨"kind", .scalar .uint8, 0, none, .int 0, false, false, false, [], []⟩,
      ⟨"width", .scalar .int16, 1, none, .int 4, false, false, false, [], []⟩,
      ⟨"area", .scalar .float64, 2, none, .float Double.zero, false, false, false, [], []⟩], 3⟩

def plateCatalog : Catalog :=
  ⟨[⟨0, "Plate", [], "Plate", [], [], default, .table plateTable⟩], [⟨"", [0]⟩], none, none, none,
    []⟩

theorem accepted_plateCatalog :
    (ofSymbols [plateSchema] (SymbolTable.ofSchemas [plateSchema]).value none []).value =
      .accepted plateCatalog := by
  decide +kernel

/-- The fields of a plate are written in reverse, for each is wider than the one before it. -/
theorem writeOrder_plateTable :
    plateTable.writeOrder plateCatalog =
      (plateTable.fields.flatMap (TableField.writes plateCatalog)).reverse := by
  have apart :
      ∀ fst ∈ plateTable.fields.flatMap (TableField.writes plateCatalog),
        ∀ snd ∈ plateTable.fields.flatMap (TableField.writes plateCatalog),
          (fst.cell plateCatalog).alignment = (snd.cell plateCatalog).alignment → fst = snd := by
    decide +kernel
  have perm : (plateTable.writeOrder plateCatalog).Perm _ := List.mergeSort_perm _ _
  refine List.Perm.eq_of_pairwise ?_ (pairwise_writeOrder _ _) (by decide +kernel)
    (perm.trans (List.reverse_perm _).symm)
  intro fst snd mem also le ge
  exact apart fst (perm.mem_iff.mp mem) snd (List.mem_reverse.mp also) (Nat.le_antisymm ge le)

/-- After one byte, a plate whose width is the default and takes no room: seven bytes of padding
stand behind the area and three before the kind. -/
theorem writeTable_packed_plate :
    ∃ (pre post : Builder Int) (start : Int) (stored : List SlotWrite) (lead tail : Nat),
      pre.written = [7] ∧
        Yields
          (Encode.writeTable plateCatalog default plateTable
            [("kind", .scalar (.number (Double.ofInt 3))),
              ("width", .scalar (.number (Double.ofInt 4))),
              ("area", .scalar (.number (Double.ofInt 2)))]) pre 24 post ∧
        post.written =
          [10, 0, 23, 0, 7, 0, 0, 0, 8, 0, 10, 0, 0, 0, 0, 0, 0, 3, 0, 0, 0, 0, 0, 0, 0, 64, 0, 0,
            0, 0, 0, 0, 0, 7] ∧
        stored.Sublist (plateTable.writeOrder plateCatalog) ∧ tail ≤ 3 ∧
        24 = start + lead + sizes plateCatalog stored + tail + 4 := by
  let pre : Builder Int :=
    ((Build.addScalar .uint8 (.number (Double.ofInt 7))).run.run
      (Builder.start Builder.standardRoom false)).2
  have ran :
      ∃ post,
        Yields
            (Encode.writeTable plateCatalog default plateTable
              [("kind", .scalar (.number (Double.ofInt 3))),
                ("width", .scalar (.number (Double.ofInt 4))),
                ("area", .scalar (.number (Double.ofInt 2)))]) pre 24 post ∧
          post.written =
            [10, 0, 23, 0, 7, 0, 0, 0, 8, 0, 10, 0, 0, 0, 0, 0, 0, 3, 0, 0, 0, 0, 0, 0, 0, 64, 0, 0,
              0, 0, 0, 0, 0, 7] := by
    rw [Encode.writeTable, writeOrder_plateTable]
    exact ⟨_, Prod.ext (by decide +kernel) rfl, by decide +kernel⟩
  rcases ran with ⟨post, ran, written⟩
  rcases writeTable_packed [plateSchema] none [] accepted_plateCatalog
    (show plateCatalog.body? 0 = some (.table plateTable) from rfl)
    ⟨Builder.standardRoom, false, Unit, _, by decide, .addScalar _ _, rfl⟩ ran with
    ⟨start, _, _, stored, lead, tail, _, _, sublist, _, _, _, few, size⟩
  exact ⟨pre, post, start, stored, lead, tail, by decide +kernel, ran, written, sublist, few, size⟩

end Catalog

end FlatSchema

import FlatSchema.Proofs.Operations
import FlatSchema.Proofs.TableReading

/-!
# The words of a vtable

A vtable stores its own size, the size of the table and the distance of each
field in sixteen bits each.  Nothing keeps a table from having more slots than
these can index, or a longer inline part than they can measure: the words then
keep their low bits.  However a builder is used, the words of a table that it
ends are exact just as long as the vtable and the inline part each take less
than 65536 bytes, and then every field is found.
-/

namespace FlatSchema

open Builder
open Buffer (ofList)
open Builder (standardRoom start)

/-- The bytes of a word of a vtable have its low sixteen bits. -/
theorem ofLittleEndian_vtableWord (word : Int) :
    ofLittleEndian (vtableWord word) = (word % 65536).toNat := by
  rw [vtableWord, ofLittleEndian_littleEndian, Extent.word_int, BitVec.toNat_ofInt]
  show (word % 4294967296).toNat % 65536 = (word % 65536).toNat
  omega

/-- A word of a vtable stores the low sixteen bits of its number. -/
theorem readNat_of_vtableWord (stands : Stands bs gap (vtableWord word)) :
    (Buffer.ofList bs).readNat 2 (spot bs gap) = .ok (word % 65536).toNat := by
  have sliced := stands.slice
  rw [vtableWord, length_littleEndian] at sliced
  rw [Buffer.readNat, sliced]
  exact congrArg Except.ok (ofLittleEndian_vtableWord word)

/-- Every word of the vtable at a distance is stored as it is. -/
def StoresExactly (bs : List UInt8) (vt : Int) (words : List Int) : Prop :=
  ∀ (i : Nat) (word : Int),
    words[i]? = some word →
      ∃ stored : Nat,
        (ofList bs).readNat 2 (spot bs (vt - 2 * i)) = .ok stored ∧
          stored = word

/-- The words of a vtable that stands are stored as they are just where they take sixteen bits. -/
theorem storesExactly_iff (stands : Stands bs vt (words.flatMap vtableWord)) :
    StoresExactly bs vt words ↔ ∀ word ∈ words, 0 ≤ word ∧ word < 65536 := by
  constructor
  · intro exactly word mem
    rcases List.getElem?_of_mem mem with ⟨i, hit⟩
    rcases exactly i word hit with ⟨stored, read, rfl⟩
    rw [readNat_of_vtableWord (stands_vtableWord stands hit), Except.ok.injEq] at read
    omega
  · intro range i word hit
    have own := range word (List.mem_of_getElem? hit)
    refine ⟨_, readNat_of_vtableWord (stands_vtableWord stands hit), ?_⟩
    omega

namespace Build

variable {before after : Builder Int} {slots : List Int} {object : Int}

/-- The size of a vtable stands alone; no other word is greater than the size of the table. -/
theorem vtableWords_range (orderly : before.Orderly) (isOpen : before.slots = some slots)
    (ahead : before.offset ≤ object) (mem : word ∈ vtableWords object before.objectStart slots) :
    0 ≤ word ∧
      (word = 2 * ((usedSlots slots).length + 2) ∨ word ≤ object - before.objectStart) := by
  have begun := orderly.start_le (by rw [isOpen]; rfl)
  rw [vtableWords_eq, List.mem_cons, List.mem_cons] at mem
  rcases mem with rfl | rfl | mem
  · exact ⟨by omega, .inl rfl⟩
  · exact ⟨by omega, .inr (Int.le_refl _)⟩
  · rcases List.mem_map.mp mem with ⟨f, used, rfl⟩
    rw [slotWord]
    split
    · exact ⟨by omega, .inr (by omega)⟩
    · next full =>
        have listed : f ∈ slots := by
          rcases exists_usedSlots slots with ⟨n, split⟩
          grind
        rcases orderly.noted slots isOpen f listed full with ⟨least, greatest⟩
        exact ⟨by omega, .inr (by omega)⟩

/-- All words take sixteen bits just where the size of the vtable and the size of the table do. -/
theorem vtableWords_fit_iff (orderly : before.Orderly) (isOpen : before.slots = some slots)
    (ahead : before.offset ≤ object) :
    (∀ word ∈ vtableWords object before.objectStart slots, 0 ≤ word ∧ word < 65536) ↔
      2 * ((usedSlots slots).length + 2) < 65536 ∧ object - before.objectStart < 65536 := by
  constructor
  · grind [vtableWords_eq, List.mem_cons_self, List.mem_cons_of_mem]
  · rintro ⟨size, inline⟩ word mem
    rcases vtableWords_range orderly isOpen ahead mem with ⟨nonneg, rfl | small⟩
    · omega
    · omega

/-- Ending a table stores in each word of its vtable, whether it is written or shared, the low
sixteen bits of its number.  All words are exact if and only if the vtable and the inline part of
the table take less than 65536 bytes each, and then every field is found at its slot. -/
theorem endTable_words_exact_iff (reachable : before.Reachable) (isOpen : before.slots = some slots)
    (ended : Yields endTable before object after) :
    ∃ vtable : Int,
      ∀ later, after.written <:+ later →
        (ofList later).readBack (spot later object) = .ok (vtable - object) ∧
          (∀ (index : Nat) (word : Int),
            (vtableWords object before.objectStart slots)[index]? = some word →
              (ofList later).readNat 2 (spot later (vtable - 2 * index)) =
                .ok (word % 65536).toNat) ∧
          (StoresExactly later vtable (vtableWords object before.objectStart slots) ↔
            2 * ((usedSlots slots).length + 2) < 65536 ∧ object - before.objectStart < 65536) ∧
          (StoresExactly later vtable (vtableWords object before.objectStart slots) →
            ∀ (index : Nat) (noted : Int),
              slots[index]?.getD 0 = noted →
                (ofList later).fieldOffset (spot later object) (Decode.slotEntry index : Int) =
                  .ok (if noted = 0 then 0 else (object - noted).toNat)) := by
  have orderly := reachable.orderly
  have closed := (endTable_ends orderly.bounded orderly.stand isOpen).yields ended
  have ahead := Int.le_of_lt closed.offset_lt
  rcases closed.refers with ⟨vtable, member, refers⟩
  have noted := closed.vtablesStand _ vtable member
  have object_le := closed.object_le
  have object_pos := closed.lt_object
  have room := length_written_le after
  have limit := closed.valid.capacity_lt
  have vtable_le := noted.distance_le
  have vtable_ge := noted.le_distance
  have fits := vtableWords_fit_iff orderly isOpen ahead
  refine ⟨vtable, fun later suffix => ?_⟩
  have stands := noted.mono suffix
  refine ⟨(refers.mono suffix).readBack (by omega) (by omega), ?_, ?_, ?_⟩
  · intro index word found
    exact readNat_of_vtableWord (stands_vtableWord stands found)
  · rw [storesExactly_iff stands, fits]
  · rw [storesExactly_iff stands, fits]
    rintro ⟨size, inline⟩ index own found
    refine fieldOffset_eq (refers.mono suffix) stands (by omega) (by omega) (by omega) ?_ found
    intro field listed filled
    have range := orderly.noted slots isOpen field listed filled
    omega

/-- A table of two slots, the second of which holds a byte, before it is ended. -/
def openPair : Builder Int :=
  ((do
    startTable 2
    addFieldScalar 1 .uint8 (.number (Double.ofInt 7)) (.number Double.zero) :
      Build Int Unit).run.run (start standardRoom false)).2

theorem endTable_words_exact_pair :
    openPair.Reachable ∧ openPair.slots = some [0, 1] ∧
      ∃ after vtable,
        Yields endTable openPair 8 after ∧ StoresExactly after.written vtable [8, 8, 0, 7] ∧
          (Buffer.ofList after.written).fieldOffset (spot after.written 8)
            (Decode.slotEntry 1 : Int) = .ok 7 := by
  have reachable : openPair.Reachable :=
    ⟨Builder.standardRoom, false, Unit, _, by decide,
      .bind (.startTable 2) fun _ => .addFieldScalar 1 _ _ _, rfl⟩
  have isOpen : openPair.slots = some [0, 1] := by decide +kernel
  have ended : Yields endTable openPair 8 (endTable.run.run openPair).2 :=
    Prod.ext (by decide +kernel) rfl
  have words : vtableWords 8 openPair.objectStart [0, 1] = [8, 8, 0, 7] := by decide +kernel
  rcases endTable_words_exact_iff reachable isOpen ended with ⟨vtable, stored⟩
  rcases stored _ List.suffix_rfl with ⟨_, _, fits, finds⟩
  have exactly := fits.mpr ⟨by decide +kernel, by decide +kernel⟩
  refine ⟨reachable, isOpen, _, vtable, ended, ?_, finds exactly 1 1 rfl⟩
  rw [← words]
  exact exactly

/-! ## Words that wrap -/

/-- Where the size of its vtable wraps to zero, a table that is ended loses all its fields. -/
theorem fieldOffset_of_wrapped_size (closed : ClosedTable before slots object after)
    (wraps : (2 * ((usedSlots slots).length + 2) : Int) % 65536 = 0) (i : Nat) :
    (Buffer.ofList after.written).fieldOffset (spot after.written object)
        (Decode.slotEntry i : Int) = .ok 0 := by
  rcases closed.refers with ⟨vt, mem, refers⟩
  have placed := closed.vtablesStand _ vt mem
  have room := length_written_le after
  have limit := closed.valid.capacity_lt
  have vtable_le := placed.distance_le
  have vtable_ge := placed.le_distance
  have object_le := closed.object_le
  have object_pos := closed.lt_object
  rw [vtableWords_eq] at placed
  have size : (Buffer.ofList after.written).readNat 2 (spot after.written vt) = .ok 0 := by
    have read := readNat_of_vtableWord (stands_vtableWord placed List.getElem?_cons_zero)
    grind
  have toVtable :
      spot after.written object - Extent.ofInt (vt - object) = spot after.written vt := by
    rw [Extent.ofInt_int, spot, spot]
    omega
  rw [Buffer.fieldOffset, refers.readBack (by omega) (by omega)]
  simp only [bind, Except.bind, toVtable, size]
  rfl

/-- Every slot up to one that noted a field is in use. -/
theorem lt_length_usedSlots (hit : slots[i]? = some noted) (full : noted ≠ 0) :
    i < (usedSlots slots).length := by
  rcases exists_usedSlots slots with ⟨n, split⟩
  grind

/-- A table of 32766 slots with a byte at the last one, before it is ended. -/
def openWide : Build Int Unit := do
  startTable ((32766 : Nat) : Int)
  addFieldScalar ((32765 : Nat) : Int) .uint8 (.number (Double.ofInt 7)) (.number Double.zero)

theorem openWide_ends :
    Ensures (openWide >>= fun _ => endTable) (start standardRoom false)
      (fun object after => ∃ filled slots,
        ClosedTable filled slots object after ∧ (usedSlots slots).length = 32766)
      fun _ _ => False := by
  have limit : growthLimit = 1073741824 := rfl
  have starting : (start standardRoom false : Builder Int).Valid := valid_start (by decide) false
  have empty : (start standardRoom false : Builder Int).offset = 0 := by
    decide +kernel
  have enc : ScalarKind.uint8.encode? (.number (Double.ofInt 7)) ≠ none := by decide +kernel
  have inside : 32765 < (List.replicate 32766 (0 : Int)).length := by
    rw [List.length_replicate]
    omega
  rw [openWide, bind_assoc]
  refine (startTable_ends 32766 _).bind (fun _ _ failed => ?_) fun _ opened opened_eq => ?_
  · rcases failed with isOpen | many
    · cases isOpen
    · omega
  have bounded : opened.Bounded := by
    rw [opened_eq]
    exact starting.toBounded.of_setting rfl rfl rfl (Int.le_refl _)
  have first : opened.offset = 0 := by rw [opened_eq]; exact empty
  have slots_eq : opened.slots = some (List.replicate 32766 0) := by rw [opened_eq]
  refine (addFieldScalar_ends 32765 .uint8 _ _ bounded).bind (fun _ _ failed => ?_) ?_
  · rcases failed with none | outside | full
    · exact enc none
    · exact outside ⟨_, slots_eq, inside⟩
    · have reach := full.2
      rw [first] at reach
      exact absurd reach (by decide)
  rintro _ filled (⟨same, _⟩ | ⟨_, notes, _⟩)
  · rw [opened_eq] at same
    exact absurd same (by decide +kernel)
  rcases notes.setting_eq with ⟨slots, known, _, setting_eq⟩
  cases slots_eq.symm.trans known
  have longer := notes.length_pos bounded
  have stand : VtablesStand filled.written filled.vtables := by
    rw [show filled.vtables = opened.vtables from congrArg Setting.vtables setting_eq, opened_eq]
    intro words vtable member
    cases member
  have used :
      (usedSlots ((List.replicate 32766 (0 : Int)).set 32765 filled.written.length)).length =
        32766 := by
    have least := lt_length_usedSlots
      (List.getElem?_set_self inside (a := (filled.written.length : Int))) (by omega)
    grind [length_usedSlots_le, List.length_set, List.length_replicate]
  refine (endTable_ends notes.valid.toBounded stand (congrArg Setting.slots setting_eq)).mono
    (fun _ _ failed => ?_) fun _ _ closed => ⟨filled, _, closed, used⟩
  rcases failed with isClosed | full
  · rw [show filled.nested = opened.nested from congrArg Setting.nested setting_eq, opened_eq]
      at isClosed
    cases isClosed
  · rcases notes.moved with ⟨n, aligns, further⟩
    have reach := full.2
    have size : ScalarKind.uint8.storage.size = 1 := rfl
    have align : ScalarKind.uint8.storage.alignment = 1 := rfl
    grind

/-- Its vtable takes 65536 bytes, which the word for its size stores as zero: the table is ended,
but its field is lost. -/
theorem wideTable_loses_field :
    ∃ object after,
      Yields (openWide >>= fun _ => endTable) (start standardRoom false) object after ∧
        (ofList after.written).fieldOffset (spot after.written object)
          (Decode.slotEntry 32765 : Int) = .ok 0 := by
  rcases openWide_ends.exists_yields with ⟨object, after, ended, _, _, closed, used⟩
  exact ⟨object, after, ended, fieldOffset_of_wrapped_size closed (by omega) 32765⟩

end Build

end FlatSchema

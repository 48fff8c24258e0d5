import FlatSchema.Proofs.TableWriting
import FlatSchema.Record.Decode

/-!
# Reading tables through their vtables

The vtable of a table holds the distance of each field from the start of the
table.  A reader that is sent to a table finds, for every slot, the distance
to what the slot noted, and zero for a slot that noted nothing or that the
vtable is too short for.
-/

namespace FlatSchema

variable {bs : List UInt8}

open Builder

theorem stands_vtableWord {words : List Int}
    (stands : Stands bs vt (words.flatMap vtableWord)) {i : Nat} (hit : words[i]? = some word) :
    Stands bs (vt - 2 * i) (vtableWord word) := by
  induction words generalizing vt i with
  | nil => cases hit
  | cons hd rest ih =>
    cases i with
    | zero =>
      grind [vtableWord, Stands]
    | succ i =>
      have tail := ih stands.right hit
      rw [show vt - 2 * ((i + 1 : Nat) : Int) = vt - (2 : Nat) - 2 * i by omega]
      exact tail

theorem readNat_vtableWord {words : List Int}
    (stands : Stands bs vt (words.flatMap vtableWord)) (i v : Nat)
    (hit : words[i]? = some (v : Int)) (fits : v < 65536) :
    (Buffer.ofList bs).readNat 2 (spot bs (vt - 2 * i)) = .ok v := by
  have word := stands_vtableWord stands hit
  rw [vtableWord, Build.toNat_word (by omega)] at word
  exact word.readNat (by exact fits)

namespace Build

/-- The slots are those in use and, after them, empty ones. -/
theorem exists_usedSlots (slots : List Int) :
    ∃ n, slots = usedSlots slots ++ List.replicate n 0 := by
  let isEmpty : Int → Bool := fun f => Extent.same f (Extent.ofInt 0)
  have empty :
      slots.reverse.takeWhile isEmpty =
        List.replicate (slots.reverse.takeWhile isEmpty).length 0 := by
    rw [List.eq_replicate_iff]
    refine ⟨rfl, ?_⟩
    intro f mem
    have zero := List.all_eq_true.mp List.all_takeWhile f mem
    simpa [isEmpty] using zero
  have split : slots.reverse.takeWhile isEmpty ++ slots.reverse.dropWhile isEmpty = slots.reverse :=
    List.takeWhile_append_dropWhile
  have reversed := congrArg List.reverse split
  grind [usedSlots]

theorem length_usedSlots_le (slots : List Int) : (usedSlots slots).length ≤ slots.length := by
  rcases exists_usedSlots slots with ⟨n, split⟩
  grind

/-- The word of a slot in use. -/
def slotWord (obj f : Int) : Int :=
  if f = 0 then 0 else obj - f

theorem vtableWords_eq (obj objectStart : Int) (slots : List Int) :
    vtableWords obj objectStart slots =
      (2 * ((usedSlots slots).length + 2) : Int) :: (obj - objectStart) ::
        (usedSlots slots).map (slotWord obj) := by
  simp_all [slotWord, usedSlots, vtableWords]

end Build

/-- A reader finds for each slot of a table the distance to what it noted, or zero where it noted
nothing or the table has no such slot. -/
theorem fieldOffset_eq {objectStart : Int} {slots : List Int}
    (refers : Stands bs obj (littleEndian 4 (Extent.word (vt - obj)).toNat))
    (stands : Stands bs vt ((Build.vtableWords obj objectStart slots).flatMap vtableWord))
    (least : -2147483648 ≤ vt - obj) (greatest : vt - obj < 2147483648)
    (used : (Build.usedSlots slots).length ≤ 32765)
    (inside : ∀ f ∈ slots, f ≠ 0 → 0 ≤ obj - f ∧ obj - f < 65536) (hit : slots[i]?.getD 0 = noted) :
    (Buffer.ofList bs).fieldOffset (spot bs obj) (Decode.slotEntry i : Int) =
      .ok (if noted = 0 then 0 else (obj - noted).toNat) := by
  rcases Build.exists_usedSlots slots with ⟨n, split⟩
  rw [Build.vtableWords_eq] at stands
  have back := refers.readBack least greatest
  have size :
      (Buffer.ofList bs).readNat 2 (spot bs vt) =
        .ok (2 * ((Build.usedSlots slots).length + 2)) := by
    have read :=
      readNat_vtableWord stands 0 (2 * ((Build.usedSlots slots).length + 2)) rfl (by omega)
    grind
  have toVtable : spot bs obj - Extent.ofInt (vt - obj) = spot bs vt := by
    rw [Extent.ofInt_int, spot, spot]
    omega
  rw [Buffer.fieldOffset, back]
  simp only [bind, Except.bind, toVtable, size]
  have e : (Decode.slotEntry i : Int) = 4 + 2 * i := by
    simp only [Decode.slotEntry, Catalog.slotOffset, Extent.ofInt_int]
    omega
  simp only [Extent.less_int, Extent.ofInt_int, decide_eq_true_eq]
  by_cases isUsed : i < (Build.usedSlots slots).length
  · rw [if_pos (by omega)]
    have own : (Build.usedSlots slots)[i]? = some noted := by
      grind
    have mem : noted ∈ slots := by
      grind
    have word :
        ((2 * ((Build.usedSlots slots).length + 2) : Int) :: (obj - objectStart) ::
          (Build.usedSlots slots).map (Build.slotWord obj))[i + 2]? =
          some ((if noted = 0 then 0 else (obj - noted).toNat : Nat) : Int) := by
      grind [Build.slotWord]
    have read := readNat_vtableWord stands (i + 2) _ word (by
      grind)
    grind [spot]
  · rw [if_neg (by omega)]
    have empty : noted = 0 := by
      grind
    rw [if_pos empty]
    rfl

end FlatSchema

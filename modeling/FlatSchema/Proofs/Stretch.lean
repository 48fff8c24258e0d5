import FlatSchema.Proofs.ScalarBytes
import FlatSchema.Wire.Builder

/-!
# Stretches of a buffer

A buffer is written from its end to its beginning, so what has been written is
found by its distance from the end.  `Stands bytes distance stretch` says that
the stretch begins at that distance.  It still does after more bytes have been
put in front, and a reader that is sent there reads what was written.
-/

namespace FlatSchema

open Buffer (ofList)

/-- A stretch of bytes begins at a distance from the end. -/
def Stands (bs : List UInt8) (gap : Int) (stretch : List UInt8) : Prop :=
  ∃ front back,
    bs = front ++ (stretch ++ back) ∧ ((stretch ++ back).length : Int) = gap

/-- The position of a distance from the end. -/
def spot (bs : List UInt8) (gap : Int) : Int :=
  bs.length - gap

namespace Stands

variable {bs stretch fst snd : List UInt8} {gap : Int}

/-- What stands stays where bytes are put in front. -/
theorem mono (stands : Stands bs gap stretch) (suffix : bs <:+ later) :
    Stands later gap stretch := by
  rcases stands with ⟨front, back, rfl, len⟩
  rcases suffix with ⟨more, rfl⟩
  exact ⟨more ++ front, back, by rw [List.append_assoc], len⟩

/-- The first bytes of all. -/
theorem front (hd rest : List UInt8) : Stands (hd ++ rest) ((hd ++ rest).length : Nat) hd :=
  ⟨[], rest, rfl, rfl⟩

/-- What follows a place in a stretch of bytes. -/
theorem drop_eq {off : Nat} (stands : Stands bs gap stretch)
    (place : (off : Int) = bs.length - gap) :
    bs.drop off = stretch ++ bs.drop (off + stretch.length) := by
  rcases stands with ⟨front, back, rfl, rfl⟩
  simp_all

theorem left (stands : Stands bs gap (fst ++ snd)) : Stands bs gap fst := by
  grind [Stands]

theorem right (stands : Stands bs gap (fst ++ snd)) : Stands bs (gap - fst.length) snd := by
  grind [Stands]

theorem le_distance (stands : Stands bs gap stretch) : (stretch.length : Int) ≤ gap := by
  grind [Stands]

theorem distance_le (stands : Stands bs gap stretch) : gap ≤ bs.length := by
  grind [Stands]

/-! ## Reading what stands -/

theorem slice (stands : Stands bs gap stretch) :
    (Buffer.ofList bs).slice (spot bs gap) stretch.length = .ok stretch := by
  rcases stands with ⟨pre, back, rfl, len⟩
  have pos : spot (pre ++ (stretch ++ back)) gap = (pre.length : Nat) := by
    grind [spot]
  have inside :
      (Buffer.ofList (pre ++ (stretch ++ back))).inside? ((pre.length : Nat) : Int)
        stretch.length = some pre.length := by
    rw [Buffer.inside?, Extent.byte?_natCast, Option.filter_some, if_pos]
    grind [spot, ofList, Buffer.size]
  rw [pos, Buffer.slice, inside]
  simp [Buffer.ofList]

theorem readNat (stands : Stands bs gap (littleEndian width v)) (fits : v < Nat.pow 256 width) :
    (ofList bs).readNat width (spot bs gap) = .ok v := by
  have sliced := stands.slice
  rw [length_littleEndian] at sliced
  rw [Buffer.readNat, sliced]
  exact congrArg Except.ok (ScalarKind.ofLittleEndian_of_lt fits)

theorem readScalar (stands : Stands bs gap stretch) (enc : kind.encode? v = some stretch) :
    (ofList bs).readScalar kind (spot bs gap) = .ok (kind.convert v) := by
  have sliced := stands.slice
  rw [ScalarKind.length_of_encode enc] at sliced
  rw [Buffer.readScalar, sliced]
  exact congrArg Except.ok (ScalarKind.decode_of_encode enc)

/-- A reference leads to what stands so many bytes nearer to the end. -/
theorem follow (stands : Stands bs gap (littleEndian 4 target)) (fits : target < 4294967296) :
    (ofList bs).follow (spot bs gap) = .ok (spot bs (gap - target)) := by
  have read := stands.readNat (by exact fits)
  rw [Buffer.follow, read]
  refine congrArg Except.ok ?_
  rw [Extent.ofInt_int, spot, spot]
  omega

/-- The distance back from a table, forwards if it is negative. -/
theorem readBack (stands : Stands bs gap (littleEndian 4 (Extent.word back).toNat))
    (least : -2147483648 ≤ back) (greatest : back < 2147483648) :
    (ofList bs).readBack (spot bs gap) = .ok back := by
  have word : (Extent.word back).toNat = (back % (Nat.pow 256 4 : Nat)).toNat := by
    rw [Extent.word_int, BitVec.toNat_ofInt]
  have fits : (Extent.word back).toNat < Nat.pow 256 4 := (Extent.word back).isLt
  have read := stands.readNat fits
  rw [Buffer.readBack, read, word]
  refine congrArg Except.ok ?_
  have signed : ScalarKind.int32.signed (back % (Nat.pow 256 4 : Nat)).toNat =
      ScalarKind.int32.wrap back := ScalarKind.signed_emod .int32 back
  rw [signed]
  show back.bmod 4294967296 = back
  exact Int.bmod_eq_of_le (by omega) (by omega)

/-- The bytes that stand somewhere are cut out there. -/
theorem clipped (stands : Stands bs gap stretch) :
    (ofList bs).clipped (spot bs gap) (spot bs gap + stretch.length) = stretch := by
  rcases stands with ⟨pre, back, rfl, rest⟩
  rw [Buffer.clipped, Extent.byteOrFirst_int, Extent.byteOrFirst_int]
  have start : (spot (pre ++ (stretch ++ back)) gap).toNat = pre.length := by
    grind [spot]
  have stop :
      (spot (pre ++ (stretch ++ back)) gap + stretch.length).toNat =
        pre.length + stretch.length := by
    grind [spot]
  rw [start, stop]
  simp [ofList]

theorem readText (followed : (ofList bs).follow pos = .ok (spot bs gap))
    (stands : Stands bs gap (littleEndian 4 content.length ++ content))
    (fits : content.length < 4294967296) :
    (ofList bs).readText pos = .ok (Utf8.decode content) := by
  have len := stands.left.readNat (by exact fits)
  have body := stands.right.clipped
  rw [length_littleEndian, show spot bs (gap - (4 : Nat)) = spot bs gap + 4 by
    rw [spot, spot]
    omega] at body
  rw [Buffer.readText, followed]
  simp only [Except.bind, len, bind, pure, Except.pure, Extent.ofInt_int]
  rw [body]

end Stands

end FlatSchema

import FlatSchema.Proofs.Stretch
import FlatSchema.Proofs.StructLayout
import FlatSchema.Proofs.Success

/-!
# What builders write

Every operation of a builder that succeeds puts bytes before those that are
there.  `Appends before more after` says which, and that nothing else of the
builder has changed but its room.  Operations are described one by one, each
from the descriptions of those that it uses.
-/

namespace FlatSchema

open Extent Yields
open StructLayout (IsAlignment)
open Tape (place)

variable {res : Unit} {b : Builder Int}

namespace Tape

variable (tape : Tape)

/-- Fewer of the last bytes are the end of more of them. -/
theorem last_suffix (nearer : near ≤ far) : tape.last near <:+ tape.last far := by
  have dropped := tape.drop_last far (far - near)
  grind [List.drop_suffix]

/-- Before all that is written stand zeros. -/
theorem last_add_of_size_le (short : tape.size ≤ near) (n : Nat) :
    tape.last (n + near) = List.replicate n 0 ++ tape.last near := by
  grind [last, List.append_assoc, List.replicate_append_replicate]

/-- Bytes that are placed take the place of as many others. -/
theorem last_place_of_le (inside : dst + more.length ≤ far) :
    (tape.place dst more).last far =
      (tape.last far).take (far - (dst + more.length)) ++ (more ++ tape.last dst) := by
  have size := tape.size_eq
  rw [last, last]
  simp only [place]
  rcases Nat.le_total tape.size (dst + more.length) with short | long
  · -- All that is written stands behind the place, so zeros come before it.
    rw [Nat.max_eq_right short, Nat.sub_eq_zero_of_le short, Nat.sub_eq_zero_of_le inside,
      List.take_append_of_le_length (by
        rw [List.length_replicate]
        omega), List.take_replicate]
    congr 2
    omega
  · rw [Nat.max_eq_left long, List.take_append, List.take_replicate, List.length_replicate,
      List.drop_append_of_le_length (by
        rw [List.length_take]
        omega), List.drop_take, ← List.append_assoc]
    congr 3
    · omega
    · omega

/-- Bytes that are placed come before those that stand nearer to the end. -/
theorem last_place_length (dst : Nat) (more : List UInt8) :
    (tape.place dst more).last (dst + more.length) = more ++ tape.last dst := by
  rw [last_place_of_le tape (Nat.le_refl _), Nat.sub_self, List.take_zero, List.nil_append]

end Tape

namespace Builder

/-- What a builder holds apart from its bytes and its room. -/
structure Setting where
  slots : Option (List Int)
  objectStart : Int
  vectorCount : Int
  nested : Bool
  finished : Bool
  vtables : List (List Int × Int)
  forceDefaults : Bool
  initialSpace : Int

def setting (b : Builder Int) : Setting :=
  ⟨b.slots, b.objectStart, b.vectorCount, b.nested, b.finished,
    b.vtables, b.forceDefaults, b.initialSpace⟩

/-- A builder whose bytes lie inside its room, behind its position. -/
structure Bounded (b : Builder Int) : Prop where
  space_le : b.space ≤ b.capacity
  size_le : (b.tape.size : Int) ≤ b.capacity - b.space
  size_le_capacity : b.tape.size ≤ b.capacity
  capacity_pos : 0 < b.capacity
  capacity_lt : b.capacity < 2147483648
  minAlign_pos : 0 < b.minAlign

/-- A builder whose position lies inside its room. -/
structure Valid (b : Builder Int) : Prop extends Bounded b where
  space_nonneg : 0 ≤ b.space

theorem written_eq (b : Builder Int) : b.written = b.tape.last (b.capacity - b.space.toNat) := by
  rw [written, byteOrFirst_int]

theorem length_written (b : Builder Int) : b.written.length = b.capacity - b.space.toNat := by
  rw [written_eq, Tape.length_last]

theorem Valid.offset_eq (valid : b.Valid) : b.offset = b.written.length := by
  have room := valid.space_nonneg
  have inside := valid.space_le
  rw [length_written, offset, ofInt_int]
  omega

/-- A position outside the room lies so many bytes before what is written. -/
theorem Bounded.offset_eq (bounded : b.Bounded) :
    b.offset = b.written.length + (-b.space).toNat := by
  have inside := bounded.space_le
  rw [length_written, offset, ofInt_int]
  omega

theorem Valid.space_eq (valid : b.Valid) : b.space = b.capacity - b.written.length := by
  have behind := valid.offset_eq
  rw [offset, ofInt_int] at behind
  omega

/-- No zeros are missing between the room and a position inside it. -/
theorem Valid.gap_eq (valid : b.Valid) : (-b.space).toNat = 0 :=
  Int.toNat_of_nonpos (Int.neg_nonpos_of_nonneg valid.space_nonneg)

theorem length_written_le (b : Builder Int) : b.written.length ≤ b.capacity := by
  rw [length_written]
  omega

theorem written_suffix_memory (b : Builder Int) : b.written <:+ b.memory := by
  rw [written_eq_drop]
  exact List.drop_suffix _ _

/-- A finished builder holds the bytes that were written, no more. -/
theorem Valid.content_eq (valid : b.Valid) : b.content = b.written := by
  rw [content, written_eq, truncate?_int]
  simp only [if_pos valid.space_nonneg]

theorem valid_start (small : room < 2147483648) (force : Bool) : (start room force).Valid := by
  refine ⟨⟨?_, ?_, ?_, ?_, ?_, Int.one_pos⟩, ?_⟩ <;>
    simp only [start, less_int, ofInt_int, byteOrFirst_int,
      decide_eq_true_eq, Tape.empty] <;> split <;> omega

/-- Bytes have been put before those of a builder, and only its room has changed besides. -/
structure Appends (pre : Builder Int) (more : List UInt8) (post : Builder Int) : Prop where
  valid : post.Valid
  bytes_eq : post.written = more ++ pre.written
  setting_eq : post.setting = pre.setting
  capacity_le : pre.capacity ≤ post.capacity

namespace Appends

variable {pre mid post : Builder Int} {more others : List UInt8}

theorem refl (valid : pre.Valid) : Appends pre [] pre :=
  ⟨valid, rfl, rfl, Nat.le_refl _⟩

theorem trans (fst : Appends pre more mid) (snd : Appends mid others post) :
    Appends pre (others ++ more) post where
  valid := snd.valid
  bytes_eq := by rw [snd.bytes_eq, fst.bytes_eq, List.append_assoc]
  setting_eq := snd.setting_eq.trans fst.setting_eq
  capacity_le := Nat.le_trans fst.capacity_le snd.capacity_le

theorem isSuffix (appends : Appends pre more post) : pre.written <:+ post.written :=
  ⟨more, appends.bytes_eq.symm⟩

theorem length_eq (appends : Appends pre more post) :
    post.written.length = more.length + pre.written.length := by
  rw [appends.bytes_eq, List.length_append]

/-- What was put stands at the offset of the builder. -/
theorem stands (appends : Appends pre more post) :
    Stands post.written post.written.length more := by
  rw [appends.bytes_eq]
  exact .front _ _

end Appends

/-- A change of the setting alone, where the greatest alignment may have grown. -/
theorem Bounded.of_setting {pre post : Builder Int} (bounded : pre.Bounded)
    (tape_eq : post.tape = pre.tape) (capacity_eq : post.capacity = pre.capacity)
    (space_eq : post.space = pre.space) (minAlign_le : pre.minAlign ≤ post.minAlign) :
    post.Bounded := by
  rcases bounded with ⟨space_le, size_le, size_le_capacity, capacity_pos, capacity_lt, aligned⟩
  refine ⟨?_, ?_, ?_, ?_, ?_, Int.lt_of_lt_of_le aligned minAlign_le⟩ <;>
    simpa only [tape_eq, capacity_eq, space_eq]

theorem Valid.of_setting {pre post : Builder Int} (valid : pre.Valid)
    (tape_eq : post.tape = pre.tape) (capacity_eq : post.capacity = pre.capacity)
    (space_eq : post.space = pre.space) (minAlign_le : pre.minAlign ≤ post.minAlign) :
    post.Valid where
  toBounded := valid.toBounded.of_setting tape_eq capacity_eq space_eq minAlign_le
  space_nonneg := by
    rw [space_eq]
    exact valid.space_nonneg

/-- Growing keeps the offset and gives room. -/
theorem grown_spec (cap : Nat) (space needed : Int) (small : cap < 2147483648) :
    ((grown cap space needed).1 : Int) - (grown cap space needed).2 = cap - space ∧
      space ≤ (grown cap space needed).2 ∧ (grown cap space needed).1 < 2147483648 := by
  fun_induction grown cap space needed with
  | case1 cap space _ room ih =>
    grind [ofInt_int, grown, growthLimit]
  | case2 => exact ⟨rfl, Int.le_refl _, small⟩
  | case3 => exact ⟨rfl, Int.le_refl _, small⟩

/-- A room that has not grown enough cannot double any more. -/
theorem growthLimit_le_of_grown {space : Int} (pos : 0 < cap)
    (lacking : (grown cap space needed).2 < needed) : growthLimit ≤ (grown cap space needed).1 := by
  fun_induction grown cap space needed with
  | case1 cap space _ room ih => exact ih (by omega) lacking
  | case2 cap space _ full => omega
  | case3 cap space enough =>
    simp_all

/-- A builder whose room has doubled until so much is free or it cannot double. -/
def enlarged (b : Builder Int) (needed : Int) : Builder Int :=
  { b with
    capacity := (grown b.capacity b.space needed).1
    space := (grown b.capacity b.space needed).2 }

/-- More room leaves the offset, and the bytes inside it. -/
theorem Bounded.enlarged (bounded : b.Bounded) (needed : Int) :
    (b.enlarged needed).Bounded ∧ (b.enlarged needed).offset = b.offset ∧
      b.space ≤ (b.enlarged needed).space ∧ b.capacity ≤ (b.enlarged needed).capacity := by
  have small := bounded.size_le
  have inside := bounded.size_le_capacity
  have positive := bounded.capacity_pos
  rcases grown_spec b.capacity b.space needed bounded.capacity_lt with ⟨off, more, limit⟩
  refine ⟨⟨?_, ?_, ?_, ?_, limit, bounded.minAlign_pos⟩, off, more, ?_⟩ <;>
    simp only [Builder.enlarged] <;> omega

/-- A position that lay outside the room was so many bytes before it. -/
theorem Bounded.written_enlarged (bounded : b.Bounded) (inside : 0 ≤ (b.enlarged needed).space) :
    (b.enlarged needed).written = List.replicate (-b.space).toNat 0 ++ b.written := by
  rcases bounded.enlarged needed with ⟨_, off, _, _⟩
  have small := bounded.size_le
  have room := bounded.size_le_capacity
  simp only [offset, ofInt_int] at off
  rw [written_eq, written_eq, ← Tape.last_add_of_size_le _ (by omega)]
  congr 1
  omega

/-- A builder whose greatest alignment covers a size. -/
def raised (b : Builder Int) (size : Int) : Builder Int :=
  if less b.minAlign size then { b with minAlign := size } else b

theorem raised_eq (b : Builder Int) (size : Int) :
    b.raised size = { b with minAlign := max b.minAlign size } := by
  unfold raised
  split
  · next larger => rw [max_eq_right (Int.le_of_lt (by simpa using larger))]
  · next covered => rw [max_eq_left (by simpa using covered)]

/-- A stretch that lies inside the room. -/
theorem distance?_eq_some (hit : b.distance? pos width = some dst) :
    0 ≤ pos ∧ pos + width ≤ b.capacity ∧ (dst : Int) = b.capacity - pos - width := by
  rw [distance?] at hit
  grind [truncate?_int, byte?]

/-- A stretch that does not lie inside the room begins before it or ends behind it. -/
theorem distance?_eq_none (miss : b.distance? pos width = none) (inside : 0 ≤ pos) :
    (b.capacity : Int) < pos + width := by
  have begins : byte? pos = some pos.toNat := by
    simp only [byte?, truncate?_int, if_pos inside]
  grind [byte?, distance?]

end Builder

open Builder

namespace Build

variable {pre post : Builder Int}

/-! ## Bytes -/

/-- Bytes that are put begin right before those that are there; the room stays. -/
theorem put_ends (bs : List UInt8) (valid : pre.Valid) :
    Ensures (put bs) pre
      (fun _ post =>
        Appends pre bs post ∧ post.capacity = pre.capacity ∧ post.minAlign = pre.minAlign)
      fun _ _ => pre.space < bs.length := by
  have small := valid.size_le
  refine .get_bind ?_
  dsimp only
  split
  · next dst hit =>
      rcases distance?_eq_some hit with ⟨room, _, nearest⟩
      rw [ofInt_int] at room nearest
      refine ⟨⟨⟨⟨?_, ?_, ?_, valid.capacity_pos, valid.capacity_lt, valid.minAlign_pos⟩, room⟩, ?_,
        rfl, Nat.le_refl _⟩, rfl, rfl⟩
      · simp only [ofInt_int]
        omega
      · simp only [ofInt_int, place]
        omega
      · simp only [place]
        omega
      grind [written_eq, Tape.last_place_length, ofInt_int]
  · next miss =>
      refine .set_bind (.throw ?_)
      by_contra room
      rw [ofInt_int] at miss
      have beyond := distance?_eq_none miss (by omega)
      omega

theorem zeros_ends (n : Nat) (valid : pre.Valid) :
    Ensures (zeros n) pre
      (fun _ post =>
        Appends pre (List.replicate n 0) post ∧ post.capacity = pre.capacity ∧
          post.minAlign = pre.minAlign) fun _ _ => pre.space < n := by
  induction n generalizing pre with
  | zero => exact .pure ⟨.refl valid, rfl, rfl⟩
  | succ n ih =>
    refine (put_ends [0] valid).bind (fun _ _ lacking => ?_) ?_
    · grind
    rintro _ mid ⟨appended, firstRoom, firstAlign⟩
    have len := appended.length_eq
    rw [List.length_singleton] at len
    have old := valid.space_eq
    have new := appended.valid.space_eq
    refine (ih appended.valid).mono (fun _ _ lacking => by omega) ?_
    rintro _ post ⟨rest, restRoom, restAlign⟩
    rw [List.replicate_succ']
    exact ⟨appended.trans rest, restRoom.trans firstRoom, restAlign.trans firstAlign⟩

/-- Padding writes as many zeros as are asked for, since more than the room would fail. -/
theorem pad_ends (n : Nat) (valid : pre.Valid) :
    Ensures (pad (n : Int)) pre (fun _ post => Appends pre (List.replicate n 0) post)
      fun _ _ => pre.space < n := by
  refine .get_bind ?_
  simp only [zeroCount, ceiling?_int, Int.toNat_natCast]
  refine (zeros_ends _ valid).mono (fun _ _ lacking => by omega) ?_
  rintro _ post ⟨appends, room, _⟩
  have len := appends.length_eq
  grind [length_written_le, List.length_replicate]

/-! ## Alignment -/

/-- The one reason for which a builder that is used in order stops: its room cannot double. -/
def IsFull (err : WireError) (post : Builder Int) : Prop :=
  err = .tooLarge ∧ growthLimit ≤ post.capacity

/-- The room cannot double, and an offset that is asked for outgrows it. -/
def Exceeds (reach : Int) (err : WireError) (post : Builder Int) : Prop :=
  IsFull err post ∧ growthLimit < reach

theorem Exceeds.mono (full : Exceeds reach err post)
    (longer : reach ≤ further) : Exceeds further err post :=
  ⟨full.1, Int.lt_of_lt_of_le full.2 longer⟩

theorem reserve_iff :
    Yields (reserve needed) pre res post ↔
      needed ≤ (pre.enlarged needed).space ∧ pre.enlarged needed = post := by
  show Yields (if _ then _ else _) (pre.enlarged needed) res post ↔ _
  simp only [less_int, decide_eq_true_eq]
  split
  · next lacking =>
      rw [throw_iff, false_iff, not_and]
      exact fun enough => absurd lacking (Int.not_lt.mpr enough)
  · next enough =>
      rw [pure_iff]
      exact ⟨fun ran => ⟨Int.not_lt.mp enough, ran.2⟩, fun ran => ⟨rfl, ran.2⟩⟩

/-- Room that is made leaves a position inside it, with zeros where there was no room before. -/
theorem reserve_ends (bounded : pre.Bounded) (inside : 0 ≤ pre.space ∨ 0 ≤ needed) :
    Ensures (reserve needed) pre
      (fun _ post =>
        Appends pre (List.replicate (-pre.space).toNat 0) post ∧ post.offset = pre.offset ∧
          needed ≤ post.space ∧ post.minAlign = pre.minAlign) (Exceeds (pre.offset + needed)) := by
  rcases bounded.enlarged needed with ⟨still, off, more, larger⟩
  show Ensures (if _ then _ else _) (pre.enlarged needed) _ _
  simp only [less_int, decide_eq_true_eq]
  split
  · next lacking =>
      have lacking : (pre.enlarged needed).space < needed := lacking
      have full : growthLimit ≤ (pre.enlarged needed).capacity :=
        growthLimit_le_of_grown bounded.capacity_pos lacking
      refine ⟨⟨rfl, full⟩, ?_⟩
      rw [← off, Builder.offset, Extent.ofInt_int]
      omega
  · next enough =>
      have enough : needed ≤ (pre.enlarged needed).space := Int.not_lt.mp enough
      have position : 0 ≤ (pre.enlarged needed).space := by omega
      exact ⟨⟨⟨still, position⟩, bounded.written_enlarged position, rfl, larger⟩, off, enough, rfl⟩

/-- Padding is negative only for sizes that are larger. -/
theorem neg_padding_le (pos : 0 < size) (off extra : Int) : -padding off extra size ≤ size := by
  have least := BitVec.le_toInt (-word (off + extra) &&& word (size - ofInt 1))
  rcases Int.lt_or_le 2147483648 size with large | small
  · rw [padding]
    omega
  · have low : (word (size - ofInt 1)).msb = false := by
      rw [word_int, ofInt_int, BitVec.msb_eq_false_iff_two_mul_lt, BitVec.toNat_ofInt]
      omega
    have natural : 0 ≤ (-word (off + extra) &&& word (size - ofInt 1)).toInt :=
      BitVec.toInt_nonneg_of_msb_false (by rw [BitVec.msb_and, low, Bool.and_false])
    rw [padding]
    omega

/-- Zeros are written, as many as the padding has and more of them where there was no room before.
After them the size and so many more bytes are free, if the padding was not negative. -/
theorem prep_ends (bounded : pre.Bounded) (inside : 0 < size ∨ 0 ≤ size ∧ 0 ≤ pre.space)
    (more : 0 ≤ extra) :
    Ensures (prep size extra) pre
      (fun _ post =>
        Appends pre
            (List.replicate ((padding pre.offset extra size).toNat + (-pre.space).toNat) 0) post ∧
          post.offset = pre.offset + (padding pre.offset extra size).toNat ∧
          padding pre.offset extra size + size + extra ≤
            post.space + (padding pre.offset extra size).toNat ∧
          (0 < size → extra ≤ post.space) ∧ post.minAlign = max pre.minAlign size)
      (Exceeds (pre.offset + padding pre.offset extra size + size + extra)) := by
  have least (pos : 0 < size) := neg_padding_le pos pre.offset extra
  have covering : ({ pre with minAlign := max pre.minAlign size } : Builder Int).Bounded :=
    bounded.of_setting rfl rfl rfl (Int.le_max_left _ _)
  show Ensures
    (do
      reserve (padding (pre.raised size).offset extra size + size + extra)
      zeros (padding (pre.raised size).offset extra size).toNat) (pre.raised size) _ _
  rw [raised_eq]
  show Ensures
    (do
      reserve (padding pre.offset extra size + size + extra)
      zeros (padding pre.offset extra size).toNat) _ _ _
  generalize padding pre.offset extra size = n at least ⊢
  have reserved : 0 ≤ pre.space ∨ 0 ≤ n + size + extra := by omega
  refine (reserve_ends covering reserved).bind
    (fun _ _ full => full.mono (by show pre.offset + _ ≤ _; omega)) ?_
  rintro _ mid ⟨made, off, enough, kept⟩
  have position : mid.offset = pre.offset := off
  have free := made.valid.space_nonneg
  refine (zeros_ends _ made.valid).mono (fun _ _ lacking => by omega) ?_
  rintro _ post ⟨zeros, capacity_eq, minAlign_eq⟩
  have all := made.trans zeros
  have len := zeros.length_eq
  have old := made.valid.space_eq
  have new := zeros.valid.space_eq
  rw [List.replicate_append_replicate] at all
  rw [List.length_replicate] at len
  refine ⟨⟨all.valid, all.bytes_eq, all.setting_eq, all.capacity_le⟩, ?_, by omega, by omega,
    minAlign_eq.trans kept⟩
  rw [← position, zeros.valid.offset_eq, made.valid.offset_eq]
  omega

/-- A power of two that numbers of 32 bits can be aligned to. -/
def IsPower (align : Nat) : Prop :=
  ∃ expo ≤ 31, align = 2 ^ expo

theorem isPower_of_isAlignment (aligned : IsAlignment align) : IsPower align := by
  grind [IsPower, IsAlignment]

/-- The zeros before an aligned value, counted modulo its alignment. -/
theorem padding_eq (power : IsPower align) (off extra : Int) :
    padding off extra align = -(off + extra) % align := by
  rcases power with ⟨expo, small, rfl⟩
  have power : 2 ^ expo ≤ 2 ^ 31 := Nat.pow_le_pow_right (by omega) small
  have dvd : (2 ^ expo : Nat) ∣ 2 ^ 32 := Nat.pow_dvd_pow 2 (by omega)
  have mask : (BitVec.ofInt 32 ((2 ^ expo : Nat) - 1)).toNat = 2 ^ expo - 1 := by
    rw [BitVec.toNat_ofInt]
    omega
  have low :
      (-word (off + extra) &&& word (((2 ^ expo : Nat) : Int) - ofInt 1)).toNat =
        (-(off + extra) % (2 ^ 32 : Nat)).toNat % 2 ^ expo := by
    rw [word_int, word_int, ofInt_int, ← BitVec.ofInt_neg, BitVec.toNat_and,
      mask, Nat.and_two_pow_sub_one_eq_mod, BitVec.toNat_ofInt]
  rw [padding, BitVec.toInt_eq_toNat_of_lt (by rw [low]; omega), low, Int.natCast_mod,
    Int.toNat_of_nonneg (Int.emod_nonneg _ (by decide))]
  exact Int.emod_emod_of_dvd _ (by exact_mod_cast dvd)

/-- Fewer zeros are needed than the alignment. -/
theorem padding_range (power : IsPower align) (off extra : Int) :
    0 ≤ padding off extra align ∧ padding off extra align < align := by
  have pos : (0 : Int) < align := by
    grind [IsPower]
  rw [padding_eq power]
  exact ⟨Int.emod_nonneg _ (Int.ne_of_gt pos), Int.emod_lt_of_pos _ pos⟩

/-- Such zeros make a sum a multiple of the alignment. -/
theorem emod_of_padding
    (padded : (n : Int) = -(len + extra) % align) : ((n : Int) + len + extra) % align = 0 := by
  rw [padded, Int.add_assoc, Int.emod_add_emod, Int.add_left_neg, Int.zero_emod]

/-- Zeros make the offset after so many more bytes a multiple of an alignment, no more of them than
needed, and then the bytes and a value of the size are free. -/
theorem prep_aligned {extra : Nat} (power : IsPower align) (bounded : pre.Bounded) :
    Ensures (prep (align : Int) (extra : Int)) pre
      (fun _ post =>
        ∃ n : Nat,
          (n : Int) = -(pre.offset + extra) % align ∧
            Appends pre (List.replicate (n + (-pre.space).toNat) 0) post ∧
            post.offset = pre.offset + n ∧ (align : Int) + extra ≤ post.space ∧
            post.minAlign = max pre.minAlign align) (Exceeds (pre.offset + 2 * align + extra)) := by
  rcases padding_range power pre.offset extra with ⟨natural, below⟩
  refine (prep_ends bounded (.inl (by omega)) (Int.natCast_nonneg _)).mono
    (fun _ _ full => full.mono (by omega)) ?_
  grind [padding_eq, Int.toNat_of_nonneg]

theorem isAlignment_two : IsAlignment 2 :=
  ⟨1, by decide, rfl⟩

theorem isAlignment_four : IsAlignment 4 :=
  ⟨2, by decide, rfl⟩

/-- Bytes of some width are put at a multiple of it, from any position, if they are put where there
is room for them. -/
theorem prep_bind {tail : Unit → Build Int Unit}
    {holds : List UInt8 → Builder Int → Prop} {stops : WireError → Builder Int → Prop}
    (aligned : IsAlignment width) (bounded : pre.Bounded)
    (full : ∀ err s, Exceeds (pre.offset + 2 * width) err s → stops err s)
    (next :
      ∀ mid : Builder Int, mid.Valid → (width : Int) ≤ mid.space → pre.offset ≤ mid.offset →
        Ensures (tail ()) mid
          (fun _ post => ∃ bs, bs.length = width ∧ holds bs post ∧ Appends mid bs post) stops) :
    Ensures (prep (width : Int) (ofInt 0) >>= tail) pre
      (fun _ post =>
        ∃ (n : Nat) (bs : List UInt8),
          (n : Int) = -pre.offset % width ∧ bs.length = width ∧ holds bs post ∧
            Appends pre (bs ++ List.replicate (n + (-pre.space).toNat) 0) post ∧
            post.offset = pre.offset + n + width) stops := by
  refine (@prep_aligned _ _ 0 (isPower_of_isAlignment aligned) bounded).bind
    (fun _ _ exceeds => full _ _ (exceeds.mono (by omega))) ?_
  rintro _ mid ⟨n, zeros, padded, further, room, _⟩
  rw [Int.natCast_zero, Int.add_zero] at zeros
  refine (next mid padded.valid (by omega) (by omega)).imp ?_
  rintro _ post ⟨bs, size, held, put⟩
  have len := put.length_eq
  have first := padded.valid.offset_eq
  have last := put.valid.offset_eq
  exact ⟨n, bs, zeros, size, held, padded.trans put, by omega⟩

/-- A word is put at a multiple of its width, from any position. -/
theorem addWord_ends {width : Nat} (aligned : IsAlignment width) (bounded : pre.Bounded) (v : Int) :
    Ensures (addWord width v) pre
      (fun _ post =>
        ∃ n : Nat,
          (n : Int) = -pre.offset % width ∧
            Appends pre
              (littleEndian width (word v).toNat ++
                List.replicate (n + (-pre.space).toNat) 0) post ∧
            post.offset = pre.offset + n + width) (Exceeds (pre.offset + 2 * width)) := by
  have len := length_littleEndian width (word v).toNat
  refine (@prep_bind _ width _ (fun bs _ => bs = littleEndian width (word v).toNat) _
    aligned bounded (fun _ _ full => full) fun mid valid room _ => ?_).mono
    (fun _ _ full => full) ?_
  · exact (put_ends _ valid).mono (fun _ _ lacking => by omega) fun _ _ put => ⟨_, len, rfl, put.1⟩
  grind

theorem writeScalar_ends (kind : ScalarKind) (v : ScalarValue) (valid : pre.Valid) :
    Ensures (writeScalar kind v) pre
      (fun _ post => ∃ bs, kind.encode? v = some bs ∧ Appends pre bs post)
      fun _ _ => kind.encode? v = none ∨ pre.space < kind.size := by
  unfold writeScalar
  split
  · next bs enc =>
      refine (put_ends bs valid).mono (fun _ _ lacking => .inr ?_) fun _ _ put => ⟨bs, enc, put.1⟩
      rwa [ScalarKind.length_of_encode enc] at lacking
  · next other => exact .throw (.inl other)

theorem addScalar_ends (kind : ScalarKind) (v : ScalarValue) (bounded : pre.Bounded) :
    Ensures (addScalar kind v) pre
      (fun _ post =>
        ∃ (n : Nat) (bs : List UInt8),
          (n : Int) = -pre.offset % kind.size ∧ bs.length = kind.size ∧ kind.encode? v = some bs ∧
            Appends pre (bs ++ List.replicate (n + (-pre.space).toNat) 0) post ∧
            post.offset = pre.offset + n + kind.size)
      fun err post => kind.encode? v = none ∨ Exceeds (pre.offset + 2 * kind.size) err post := by
  refine prep_bind (StructLayout.isAlignment_scalarSize kind) bounded (fun _ _ => .inr) ?_
  intro mid valid room _
  refine (writeScalar_ends kind v valid).mono (fun _ _ other => .inl ?_) ?_
  · exact other.resolve_right (by omega)
  grind [ScalarKind.length_of_encode]

/-- A word that is a natural number of 32 bits keeps it. -/
theorem toNat_word {v : Nat} (fits : v < 4294967296) : (word (v : Int)).toNat = v := by
  rw [word_int, BitVec.toNat_ofInt]
  omega

/-- A reference holds the distance to its target, which does not lie ahead. -/
theorem addOffset_ends (target : Int) (bounded : pre.Bounded) :
    Ensures (addOffset target) pre
      (fun _ post =>
        ∃ n forward : Nat,
          (n : Int) = -pre.offset % 4 ∧
            Appends pre (littleEndian 4 forward ++ List.replicate (n + (-pre.space).toNat) 0) post ∧
            (0 ≤ target → (forward : Int) = post.written.length - target ∧ 4 ≤ forward) ∧
            post.offset = pre.offset + n + 4)
      fun err post => pre.offset < target ∨ IsFull err post := by
  refine (@prep_bind _ 4 _
    (fun bs post => ∃ forward, bs = littleEndian 4 forward ∧
      (0 ≤ target → (forward : Int) = post.written.length - target ∧ 4 ≤ forward)) _
    isAlignment_four bounded (fun _ _ full => .inr full.1) fun mid valid room behind => ?_).imp ?_
  · rw [offset, bind_assoc]
    refine .get_bind ?_
    rw [pure_bind]
    simp only [less_int, decide_eq_true_eq, ofInt_int]
    split
    · next ahead => exact .throw_bind (.inl (by omega))
    next reached =>
    have size := length_littleEndian 4 (word (mid.offset - target + 4)).toNat
    refine (put_ends _ valid).mono (fun _ _ lacking => by omega) ?_
    rintro _ post ⟨put, _⟩
    refine ⟨_, size, ⟨_, rfl, fun nonneg => ?_⟩, put⟩
    have all := put.length_eq
    have first := valid.offset_eq
    have fits := length_written_le post
    have limit := put.valid.capacity_lt
    have natural : mid.offset - target + 4 = ((mid.offset - target + 4).toNat : Nat) := by omega
    rw [natural, toNat_word (by omega)]
    omega
  grind

/-- Bytes that are replaced give way to as many others. -/
theorem replace_ends {dst : Int} {new : List UInt8} (valid : pre.Valid)
    (bytes_eq : pre.written = front ++ (old ++ back)) (same : old.length = new.length)
    (distance_eq : dst = (old ++ back).length) :
    Ensures (replace dst new) pre
      (fun _ post =>
        post.Valid ∧ post.written = front ++ (new ++ back) ∧ post.setting = pre.setting)
      fun _ _ => False := by
  have len := pre.length_written
  rw [bytes_eq] at len
  simp only [List.length_append] at len distance_eq
  have inside := valid.space_le
  have nonneg := valid.space_nonneg
  refine .get_bind ?_
  split
  · next nearest hit =>
      have distance_nearest : nearest = back.length := by
        rcases distance?_eq_some hit with ⟨_, _, nearest_eq⟩
        rw [ofInt_int] at nearest_eq
        omega
      subst distance_nearest
      have size_le := valid.size_le
      have kept : pre.tape.last back.length = back := by
        have dropped := pre.tape.drop_last (pre.capacity - pre.space.toNat) (front ++ old).length
        rw [← written_eq, bytes_eq, ← List.append_assoc, List.drop_left] at dropped
        rw [show pre.capacity - pre.space.toNat - (front ++ old).length = back.length by
          rw [List.length_append]
          omega] at dropped
        exact dropped.symm
      refine ⟨⟨⟨inside, ?_, ?_, valid.capacity_pos, valid.capacity_lt, valid.minAlign_pos⟩,
        nonneg⟩, ?_, rfl⟩
      · simp only [place]
        omega
      · simp only [place]
        omega
      · rw [written_eq]
        simp only
        rw [Tape.last_place_of_le _ (by omega), kept, ← written_eq, bytes_eq]
        rw [show pre.capacity - pre.space.toNat - (back.length + new.length) =
          front.length by omega, List.take_left]
  · next miss =>
      rw [ofInt_int] at miss
      have beyond := distance?_eq_none miss (by omega)
      omega

/-- The end of finishing: the root reference and the size. -/
def refer (root : Int) (sized : Bool) : Build Int Unit := do
  prep (← get).minAlign (ofInt (4 + Buffer.prefixSize sized))
  addOffset root
  if sized then addWord 4 (← offset)
  modify fun b => { b with finished := true }

end Build

end FlatSchema

import FlatSchema.Proofs.AppendOnly
import FlatSchema.Proofs.QuotedText
import FlatSchema.Proofs.RoundTrip

/-!
# Stored strings

A string is stored as its length, the bytes of its characters and a zero.  The
bytes decode to the same characters, but the decoder takes U+FEFF at the very
start for a byte order mark and drops it.  So a string reads back from a
finished buffer as it was, from whatever reference leads to it and whatever
was written before and after it, exactly if it does not begin with U+FEFF.
-/

namespace FlatSchema

namespace Utf8

/-- A byte that continues a sequence adds its six bits. -/
theorem decodeChars_next (rest : List UInt8)
    (small : bits < 0x40) (least : lower ≤ 0x80 + bits) (most : 0x80 + bits ≤ upper) :
    decodeChars (some ⟨missing, lower, upper, code⟩) (UInt8.ofNat (0x80 + bits) :: rest) =
      if missing = 1 then Char.ofNat (code * 0x40 + bits) :: decodeChars none rest
      else decodeChars (some ⟨missing - 1, 0x80, 0xBF, code * 0x40 + bits⟩) rest := by
  have byte : (UInt8.ofNat (0x80 + bits)).toNat = 0x80 + bits :=
    UInt8.toNat_ofNat_of_lt' (show _ < 256 by omega)
  grind [decodeChars]

theorem start_two : ∀ top < 0x20, 2 ≤ top →
    start (UInt8.ofNat (0xC0 + top)) = .continued ⟨1, 0x80, 0xBF, top⟩ := by
  decide

theorem start_three : ∀ top < 0x10,
    start (UInt8.ofNat (0xE0 + top)) =
      .continued ⟨2, if top = 0 then 0xA0 else 0x80, if top = 0xD then 0x9F else 0xBF, top⟩ := by
  decide

theorem start_four : ∀ top < 5,
    start (UInt8.ofNat (0xF0 + top)) =
      .continued ⟨3, if top = 0 then 0x90 else 0x80, if top = 4 then 0x8F else 0xBF, top⟩ := by
  decide

/-- The bytes of a character decode as the character.  The ranges of the second byte leave out only
what would be overlong, a surrogate or too large. -/
theorem decodeChars_encodeChar (char : Char) (rest : List UInt8) :
    decodeChars none (encodeChar char ++ rest) = char :: decodeChars none rest := by
  have valid : char.toNat < 0xD800 ∨ 0xDFFF < char.toNat ∧ char.toNat < 0x110000 := char.valid
  have same : Char.ofNat char.toNat = char := Char.ofNat_toNat char
  unfold encodeChar
  generalize char.toNat = code at valid same
  subst same
  dsimp only
  split
  · next small =>
      have byte : (UInt8.ofNat code).toNat = code :=
        UInt8.toNat_ofNat_of_lt' (show _ < 256 by omega)
      have begins : start (UInt8.ofNat code) = .complete (Char.ofNat code) := by
        rw [start, byte, if_pos (by omega)]
      rw [List.cons_append, List.nil_append, decodeChars, begins]
  · split
    · rw [List.cons_append, decodeChars, start_two (code / 0x40) (by omega) (by omega)]
      show decodeChars (some _) (_ :: rest) = _
      rw [decodeChars_next _ (by omega) (by omega) (by omega), if_pos rfl]
      congr 2
      omega
    · split
      · rw [List.cons_append, decodeChars, start_three (code / 0x1000) (by omega)]
        show decodeChars (some _) (_ :: _ :: rest) = _
        rw [decodeChars_next _ (by omega) (by split <;> omega) (by split <;> omega),
          if_neg (by decide), decodeChars_next _ (by omega) (by omega) (by omega), if_pos rfl]
        congr 2
        omega
      · rw [List.cons_append, decodeChars, start_four (code / 0x40000) (by omega)]
        show decodeChars (some _) (_ :: _ :: _ :: rest) = _
        rw [decodeChars_next _ (by omega) (by split <;> omega) (by split <;> omega),
          if_neg (by decide), decodeChars_next _ (by omega) (by omega) (by omega),
          if_neg (by decide), decodeChars_next _ (by omega) (by omega) (by omega), if_pos rfl]
        congr 2
        omega

theorem decodeChars_flatMap (chars : List Char) :
    decodeChars none (chars.flatMap encodeChar) = chars := by
  induction chars with
  | nil => rfl
  | cons char rest ih => rw [List.flatMap_cons, decodeChars_encodeChar, ih]

end Utf8

namespace Text

/-- A text without a byte order mark at its start. -/
def unmarked (text : Text) : Text :=
  ⟨if text.units.head? = some 0xFEFF then text.units.tail else text.units⟩

theorem unmarked_eq_iff (text : Text) : text.unmarked = text ↔ text.units.head? ≠ some 0xFEFF := by
  rcases text with ⟨_ | ⟨unit, rest⟩⟩
  · exact iff_of_true rfl (by simp)
  · rw [unmarked]
    split
    · simp_all
    · next unmarked => exact ⟨fun _ => unmarked, fun _ => rfl⟩

/-- Only U+FEFF has that number as its first code unit. -/
theorem head?_unitsOfChar (mark : (unitsOfChar char).head? = some 0xFEFF) : char = '\uFEFF' := by
  have valid : char.toNat < 0xD800 ∨ 0xDFFF < char.toNat ∧ char.toNat < 0x110000 := char.valid
  have same : Char.ofNat char.toNat = char := Char.ofNat_toNat char
  unfold unitsOfChar at mark
  rw [← same]
  split at mark
  · have unit := congrArg UInt16.toNat (Option.some.inj mark)
    rw [UInt16.toNat_ofNat_of_lt' (by assumption)] at unit
    rw [unit]
    rfl
  · have unit := congrArg UInt16.toNat (Option.some.inj mark)
    grind [UInt16.toNat_ofNat_of_lt']

/-- A text without lone surrogates is made of characters. -/
theorem exists_chars (text : Text) (whole : ∀ unit, Piece.lone unit ∉ text.pieces) :
    ∃ chars : List Char, text.pieces = chars.map .scalar := by
  generalize text.pieces = pieces at whole
  induction pieces with
  | nil => exact ⟨[], rfl⟩
  | cons piece rest ih =>
    rcases ih fun unit mem => whole unit (List.mem_cons_of_mem _ mem) with ⟨chars, rfl⟩
    cases piece with
    | scalar char => exact ⟨char :: chars, rfl⟩
    | lone unit => exact absurd List.mem_cons_self (whole unit)

end Text

/-- A text without lone surrogates is decoded from its bytes, but for a byte order mark. -/
theorem Utf8.decode_encode (text : Text) (whole : ∀ unit, Text.Piece.lone unit ∉ text.pieces) :
    decode (encode text) = text.unmarked := by
  rcases text.exists_chars whole with ⟨chars, pieces_eq⟩
  have units_eq := text.flatMap_units_pieces
  rw [pieces_eq, List.flatMap_map] at units_eq
  have units_eq : chars.flatMap Text.unitsOfChar = text.units := units_eq
  rw [encode, pieces_eq, List.flatMap_map]
  show Text.ofString (String.ofList (dropMark (decodeChars none (chars.flatMap encodeChar)))) = _
  rw [decodeChars_flatMap, Text.ofString, String.toList_ofList, Text.ofChars, Text.unmarked,
    ← units_eq]
  cases chars with
  | nil => rfl
  | cons char rest =>
    rw [dropMark]
    split
    · next mark =>
        subst mark
        rfl
    · next other =>
        rw [if_neg]
        intro marked
        rw [List.flatMap_cons, List.head?_append, Option.or_eq_some_iff] at marked
        rcases marked with own | ⟨none, _⟩
        · exact other (Text.head?_unitsOfChar own)
        · unfold Text.unitsOfChar at none
          split at none <;> cases none

namespace Build

open Builder

/-- Wherever a string was written, every reference to it in the finished buffer reads as its text
without a byte order mark at the start, which is the text itself just if it begins with none.  A
zero follows the bytes of the string. -/
theorem createString_survives {b mid : Builder Int} (reachable : b.Reachable) (text : Text)
    (whole : ∀ unit, Text.Piece.lone unit ∉ text.pieces) {offset : Int}
    (created : Yields (createString (Utf8.encode text)) b offset mid) (later : List Call)
    (root : Nat) (identifier : Option Text) (sizePrefix : Bool)
    {content : List UInt8} {last : Builder Int}
    (finished :
      Yields (do finish (root : Int) identifier sizePrefix; bytes) (Call.afterAll later mid)
        content last) :
    (∀ position,
        (Buffer.ofList content).follow position = .ok (spot content offset) →
          (Buffer.ofList content).readText position = .ok text.unmarked) ∧
      (text.unmarked = text ↔ text.units.head? ≠ some 0xFEFF) ∧
      (Buffer.ofList content).readNat 1
          (spot content offset + 4 + (Utf8.encode text).length) = .ok 0 ∧
      ∀ before after linked,
        later = before ++ .addOffset offset.toNat :: after →
          Yields (addOffset offset) (Call.afterAll before mid) () linked →
          (Buffer.ofList content).follow (spot content linked.offset) =
            .ok (spot content offset) := by
  have orderly := reachable.orderly
  rcases (createString_ends _ orderly.bounded).yields created with ⟨closed, terminated⟩
  have stays : ∀ calls, (Call.afterAll calls mid).Orderly := fun calls =>
    Call.preserves_afterAll stableTables_orderly calls (fun _ _ _ _ => trivial)
      ((stableTables_orderly.createString _ b orderly).of_yields created)
  rw [Yields.bind_iff] at finished
  rcases finished with ⟨_, fin, finishing, ending⟩
  have referring :=
    ((finish_ends (Int.natCast_nonneg root) _ _ (stays later).bounded).yields finishing).1
  rw [bytes, Yields.get_bind_iff, if_pos referring.finished_eq, referring.valid.content_eq]
    at ending
  rcases ending with ⟨rfl, _⟩
  have suffix := ((Call.keeps_afterAll later mid).isSuffix closed.valid).trans referring.isSuffix
  have inside := closed.stands.le_distance
  have offset_eq := closed.offset_eq
  have room := length_written_le mid
  have limit := closed.valid.capacity_lt
  rw [List.length_append] at inside
  have size : (Extent.word ((Utf8.encode text).length : Int)).toNat = (Utf8.encode text).length :=
    toNat_word (by omega)
  rw [size] at terminated
  have stands := terminated.mono suffix
  refine ⟨?_, text.unmarked_eq_iff, ?_, ?_⟩
  · intro position followed
    rw [← List.append_assoc] at stands
    rw [stands.left.readText followed (by omega), Utf8.decode_encode text whole]
  · have zero : Stands last.written _ (littleEndian 1 0) := stands.right.right
    rw [show spot last.written offset + 4 + ((Utf8.encode text).length : Int) =
      spot last.written (offset - 4 - (Utf8.encode text).length) by rw [spot, spot]; omega]
    exact zero.readNat (by decide)
  · rintro before after linked rfl referred
    rcases (addOffset_ends offset (stays before).bounded).yields referred with
      ⟨_, forward, _, put, far, _⟩
    have far := (far (by omega)).1
    have same : (offset.toNat : Int) = offset := Int.toNat_of_nonneg (by omega)
    have called : (Call.addOffset offset.toNat).after (Call.afterAll before mid) = linked :=
      Call.after_of_quiet (by rw [Call.run]) (same.symm ▸ referred)
    have split : Call.afterAll (before ++ .addOffset offset.toNat :: after) mid =
        Call.afterAll after linked := by
      rw [← called]
      exact List.foldl_append
    rw [split] at referring
    have kept := (Call.keeps_afterAll after linked).isSuffix put.valid
    have linkedRoom := length_written_le linked
    have linkedLimit := put.valid.capacity_lt
    rw [put.valid.offset_eq]
    exact follow_of_forward (put.stands.left.mono (kept.trans referring.isSuffix)) far (by omega)

/-- A new buffer of a string and a reference to it. -/
def storedOnce (text : Text) : Build Int (List UInt8) := do
  let offset ← createString (Utf8.encode text)
  addOffset offset
  finish offset none false
  bytes

theorem createString_survives_accented :
    ∃ content last,
      Yields (storedOnce ⟨[0xE9]⟩) (Builder.start Builder.standardRoom false) content last ∧
        (Buffer.ofList content).readText (spot content 12) = .ok ⟨[0xE9]⟩ := by
  let fresh : Builder Int := Builder.start Builder.standardRoom false
  let mid : Builder Int := ((createString (Utf8.encode ⟨[0xE9]⟩)).run.run fresh).2
  let linked : Builder Int := ((addOffset 8).run.run mid).2
  let ending : Build Int (List UInt8) := do finish ((8 : Nat) : Int) none false; bytes
  have created : Yields (createString (Utf8.encode ⟨[0xE9]⟩)) fresh 8 mid :=
    Prod.ext (by decide +kernel) rfl
  have referred : Yields (addOffset 8) mid () linked := Prod.ext (by decide +kernel) rfl
  have called : Call.afterAll [.addOffset 8] mid = linked :=
    Call.after_of_quiet (by rw [Call.run]; rfl) referred
  have finished : Yields ending (Call.afterAll [.addOffset 8] mid) (ending.run.run linked).2.content
      (ending.run.run linked).2 := by
    rw [called]
    exact Prod.ext (by decide +kernel) rfl
  rcases createString_survives ⟨_, _, _, _, by decide, .pure (), rfl⟩ ⟨[0xE9]⟩
    (fun unit member => by cases List.mem_singleton.mp member) created [.addOffset 8] 8 none false
    finished with ⟨reads, same, _, leads⟩
  have leads := leads [] [] linked rfl referred
  rw [show linked.offset = 12 by decide +kernel] at leads
  exact ⟨_, _,
    Yields.bind_iff.mpr ⟨_, _, created, Yields.bind_iff.mpr ⟨_, _, referred, called ▸ finished⟩⟩,
    reads _ leads⟩

/-- The decoder takes the first character of a string for a byte order mark if it can. -/
theorem storedOnce_loses_mark :
    ∃ content last,
      Yields (storedOnce ⟨[0xFEFF, 0x61]⟩) (Builder.start Builder.standardRoom false) content last ∧
        (Buffer.ofList content).follow (spot content 16) = .ok (spot content 12) ∧
        (Buffer.ofList content).readText (spot content 16) = .ok ⟨[0x61]⟩ :=
  ⟨[8, 0, 0, 0, 4, 0, 0, 0, 4, 0, 0, 0, 0xEF, 0xBB, 0xBF, 0x61, 0, 0, 0, 0], _,
    Prod.ext (by decide +kernel) rfl, by decide +kernel, by decide +kernel⟩

end Build

end FlatSchema

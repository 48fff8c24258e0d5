import FlatSchema.Proofs.Spelling
import FlatSchema.Text.Quoted

/-!
# Quoted texts read back

A text is the code units of its characters and lone surrogates, and each of
these is read back from its written form inside quotes.  A quoted text
therefore spells the string literal with that text as its value, whatever
follows it.
-/

namespace FlatSchema

variable {unit : UInt16}

namespace Text

theorem isHighSurrogate_iff : isHighSurrogate unit ↔ 0xD800 ≤ unit.toNat ∧ unit.toNat ≤ 0xDBFF := by
  simp [isHighSurrogate, UInt16.le_iff_toNat_le]

theorem isLowSurrogate_iff : isLowSurrogate unit ↔ 0xDC00 ≤ unit.toNat ∧ unit.toNat ≤ 0xDFFF := by
  simp [isLowSurrogate, UInt16.le_iff_toNat_le]

theorem toNat_ofNat_of_isValidChar (valid : v.isValidChar) : (Char.ofNat v).toNat = v := by
  rw [Char.ofNat, dif_pos valid]
  rfl

theorem units_ofUnit (unit : UInt16) : (Piece.ofUnit unit).units = [unit] := by
  unfold Piece.ofUnit
  split
  · rfl
  · next all =>
      have small := unit.toNat_lt
      have valid : unit.toNat.isValidChar := by
        rw [Bool.or_eq_true, isHighSurrogate_iff, isLowSurrogate_iff] at all
        omega
      rw [Piece.units, unitsOfChar, toNat_ofNat_of_isValidChar valid, if_pos small,
        UInt16.ofNat_toNat]

theorem unitsOfChar_pairChar (isHigh : isHighSurrogate high) (isLow : isLowSurrogate low) :
    unitsOfChar (pairChar high low) = [high, low] := by
  rw [isHighSurrogate_iff] at isHigh
  rw [isLowSurrogate_iff] at isLow
  have v : (pairChar high low).toNat =
      0x10000 + (high.toNat - 0xD800) * 0x400 + (low.toNat - 0xDC00) := by
    grind [pairChar, toNat_ofNat_of_isValidChar]
  have fst : 0xD800 + ((pairChar high low).toNat - 0x10000) / 0x400 = high.toNat := by omega
  have snd : 0xDC00 + ((pairChar high low).toNat - 0x10000) % 0x400 = low.toNat := by omega
  have large : ¬(pairChar high low).toNat < 0x10000 := by omega
  rw [unitsOfChar, if_neg large, fst, snd, UInt16.ofNat_toNat, UInt16.ofNat_toNat]

theorem flatMap_units_piecesOfUnits (units : List UInt16) :
    (piecesOfUnits units).flatMap Piece.units = units := by
  fun_induction piecesOfUnits units with
  | case1 => rfl
  | case2 unit => simp [units_ofUnit]
  | case3 high low rest pair ih =>
    rw [Bool.and_eq_true] at pair
    rw [List.flatMap_cons, ih, Piece.units, unitsOfChar_pairChar pair.1 pair.2]
    rfl
  | case4 high low rest _ ih =>
    rw [List.flatMap_cons, ih, units_ofUnit]
    rfl

/-- A text is the code units of its parts. -/
theorem flatMap_units_pieces (text : Text) : text.pieces.flatMap Piece.units = text.units :=
  flatMap_units_piecesOfUnits text.units

end Text

namespace Lexer

open Quoted

/-! ## Escapes -/

theorem hexValue?_hexDigit : ∀ v < 16, hexValue? (hexDigit v) = some v := by
  decide

theorem hexUnit?_hexDigits4 {unit : Nat} (small : unit < 0x10000) (tail : List Char) :
    hexUnit? 4 (hexDigits4 unit ++ tail) = some (UInt16.ofNat unit) := by
  have fst := hexValue?_hexDigit (unit / 0x1000 % 16) (Nat.mod_lt _ (by decide))
  have snd := hexValue?_hexDigit (unit / 0x100 % 16) (Nat.mod_lt _ (by decide))
  have third := hexValue?_hexDigit (unit / 0x10 % 16) (Nat.mod_lt _ (by decide))
  have fourth := hexValue?_hexDigit (unit % 16) (Nat.mod_lt _ (by decide))
  have v : hexNumber (hexDigits4 unit) = unit := by
    simp only [hexNumber, hexDigits4, List.foldl_cons, List.foldl_nil, fst, snd, third,
      fourth, Option.getD_some]
    omega
  have digits : (hexDigits4 unit).all isHexDigit := by
    simp [hexDigits4, isHexDigit, fst, snd, third, fourth]
  have four : (hexDigits4 unit).length = 4 := rfl
  simp [hexUnit?, v, four, digits]

theorem scanString_backslash (hit : escape post = .ok (unit, n)) :
    scanString ('\\' :: post) = (scanString (post.drop n)).extend [unit] ('\\' :: post.take n) := by
  rw [scanString]
  simp [hit]

theorem scanString_simple (simple : simpleEscape? mark = some unit) (tail : List Char) :
    scanString ('\\' :: mark :: tail) = (scanString tail).extend [unit] ['\\', mark] := by
  have hit : escape (mark :: tail) = .ok (unit, 1) := by
    simp only [escape, simple]
  exact scanString_backslash hit

theorem scanString_unitEscape {unit : Nat} (small : unit < 0x10000) (tail : List Char) :
    scanString (unitEscape unit ++ tail) =
      (scanString tail).extend [UInt16.ofNat unit] (unitEscape unit) := by
  have digits := hexUnit?_hexDigits4 small tail
  have hit : escape ('u' :: (hexDigits4 unit ++ tail)) = .ok (UInt16.ofNat unit, 5) := by
    simp [escape, simpleEscape?, digits]
  rw [unitEscape, List.cons_append, List.cons_append, scanString_backslash hit]
  rfl

theorem scanString_escapeChar (char : Char) (tail : List Char) :
    scanString (escapeChar char ++ tail) =
      (scanString tail).extend (Text.unitsOfChar char) (escapeChar char) := by
  unfold escapeChar
  -- Seven characters have an escape of one letter or mark.
  iterate 7
    split
    · next same =>
        subst same
        exact scanString_simple rfl tail
  split
  · next control =>
      have small : char.toNat < 0x10000 := Nat.lt_trans control (by decide)
      rw [scanString_unitEscape small, Text.unitsOfChar, if_pos small]
  grind [StringScan.extend, Text.unitsOfChar, scanString]

theorem scanString_escapePiece (piece : Text.Piece) (tail : List Char) :
    scanString (escapePiece piece ++ tail) =
      (scanString tail).extend piece.units (escapePiece piece) := by
  cases piece with
  | scalar char => exact scanString_escapeChar char tail
  | lone unit =>
    rw [escapePiece, scanString_unitEscape unit.toNat_lt, UInt16.ofNat_toNat]
    rfl

/-! ## The whole literal -/

theorem scanString_pieces (pieces : List Text.Piece) (rest : List Char) :
    scanString (pieces.flatMap escapePiece ++ '"' :: rest) =
      .closed (pieces.flatMap Text.Piece.units) (pieces.flatMap escapePiece ++ ['"']) rest := by
  induction pieces with
  | nil =>
    rw [List.flatMap_nil, List.nil_append, scanString]
    rfl
  | cons piece pieces ih =>
    rw [List.flatMap_cons, List.append_assoc, scanString_escapePiece, ih, StringScan.extend,
      List.flatMap_cons, List.append_assoc]

theorem Spells.quoted (text : Text) :
    Spells (quote text).toList [(.string text, quote text)] anything := by
  intro rest more _ scans
  rw [quote, String.toList_ofList, chars, List.cons_append, List.append_assoc]
  have hit :
      scan '"' (text.pieces.flatMap escapePiece ++ '"' :: rest) =
        .token (.string text) (quote text) (chars text) rest := by
    have noSlash : '"' ≠ '/' := by decide
    have noBlank : isBlank '"' = false := rfl
    simp only [scan, noBlank, startsWith2_of_ne noSlash, Bool.false_eq_true, if_false, if_true,
      scanQuoted, scanString_pieces, Text.flatMap_units_pieces]
    rfl
  exact .token hit scans

/-- A source that holds nothing but a quoted text is one string literal with that text as its value,
be it of control characters, quotes, line breaks or lone surrogates. -/
theorem tokens_quote (path value : Text) :
    ∃ tok last,
      Source.tokens ⟨path, quote value⟩ = .ok [tok, last] ∧
        tok.kind = .string value ∧ tok.text = quote value ∧ last.kind = .eof := by
  have scans := Spells.quoted value [] [] (meets_anything []) .nil
  rw [List.append_nil] at scans
  rcases scans.tokensFrom path Position.start with ⟨front, last, hit, same, isEof⟩
  rcases List.map_eq_singleton_iff.mp same with ⟨tok, rfl, lexeme⟩
  exact ⟨tok, last, hit, congrArg Prod.fst lexeme, congrArg Prod.snd lexeme, isEof⟩

end Lexer

end FlatSchema

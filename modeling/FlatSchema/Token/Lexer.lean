import FlatSchema.Diagnostic
import FlatSchema.Number.Decimal
import FlatSchema.Token

/-!
# From characters to tokens

`scan` reads one lexeme off a list of characters: a blank stretch, a token, or
a fault with the characters that stand before it.  `tokensFrom` repeats it,
carrying the position along, and stops at the first fault; the result of
`Source.tokens` ends with the end-of-file token.

Blank are spaces, tabs, carriage returns, line feeds, byte order marks, closed
block comments, and line comments other than those of exactly three slashes,
which are documentation.
-/

namespace FlatSchema

namespace Lexer

inductive Fault where
  | unexpected (unit : UInt16)
  | unterminatedString
  | unterminatedComment
  | badByteEscape
  | badUnitEscape
  | unknownEscape (unit : UInt16)
deriving DecidableEq, Repr

namespace Fault

def id : Fault → String
  | .unterminatedString => "FBS101"
  | .unterminatedComment => "FBS102"
  | _ => "FBS100"

def message : Fault → Text
  | .unexpected unit => "Unexpected character \"" ++ Text.mk [unit] ++ "\""
  | .unterminatedString => "Unterminated string literal"
  | .unterminatedComment => "Unterminated block comment"
  | .badByteEscape => "Invalid \\x escape"
  | .badUnitEscape => "Invalid \\u escape"
  | .unknownEscape unit => "Unknown escape sequence \"\\" ++ Text.mk [unit] ++ "\""

end Fault

def firstUnit (char : Char) : UInt16 :=
  (Text.unitsOfChar char).headD 0

def isNameStart (char : Char) : Bool :=
  char.isAlpha || char = '_'

def isNamePart (char : Char) : Bool :=
  char.isAlphanum || char = '_'

def isBlank (char : Char) : Bool :=
  char = ' ' || char = '\t' || char = '\r' || char = '\n' ||
    char = '\uFEFF'

def hexValue? (char : Char) : Option Nat :=
  if char.isDigit then some (char.toNat - 48)
  else if 'a' ≤ char ∧ char ≤ 'f' then some (char.toNat - 87)
  else if 'A' ≤ char ∧ char ≤ 'F' then some (char.toNat - 55)
  else none

def isHexDigit (char : Char) : Bool :=
  (hexValue? char).isSome

def hexNumber (digits : List Char) : Nat :=
  digits.foldl (fun v digit => v * 16 + (hexValue? digit).getD 0) 0

def decimalNumber (digits : List Char) : Nat :=
  digits.foldl (fun v digit => v * 10 + (digit.toNat - 48)) 0

def simpleEscape? (char : Char) : Option UInt16 :=
  match char with
  | 'n' => some 10
  | 't' => some 9
  | 'r' => some 13
  | 'b' => some 8
  | 'f' => some 12
  | '"' => some 34
  | '\'' => some 39
  | '\\' => some 92
  | '/' => some 47
  | _ => none

def hexUnit? (n : Nat) (chars : List Char) : Option UInt16 :=
  let digits := chars.take n
  if digits.length = n && digits.all isHexDigit then some (UInt16.ofNat (hexNumber digits))
  else none

/-- The code unit that an escape denotes and the number of characters after the backslash. -/
def escape : List Char → Except Fault (UInt16 × Nat)
  | [] => .error .unterminatedString
  | char :: rest =>
    match simpleEscape? char with
    | some unit => .ok (unit, 1)
    | none =>
      if char = 'x' then
        match hexUnit? 2 rest with
        | some unit => .ok (unit, 3)
        | none => .error .badByteEscape
      else if char = 'u' then
        match hexUnit? 4 rest with
        | some unit => .ok (unit, 5)
        | none => .error .badUnitEscape
      else if char = '\n' then .error .unterminatedString
      else .error (.unknownEscape (firstUnit char))

inductive StringScan where
  | closed (v : List UInt16) (lexeme rest : List Char)
  | unclosed
  | badEscape (fault : Fault) (pre : List Char)
deriving DecidableEq, Repr

def StringScan.extend (v : List UInt16) (lexeme : List Char) : StringScan → StringScan
  | .closed tailValue tail rest => .closed (v ++ tailValue) (lexeme ++ tail) rest
  | .unclosed => .unclosed
  | .badEscape fault pre => .badEscape fault (lexeme ++ pre)

def scanString (chars : List Char) : StringScan :=
  match chars with
  | [] => .unclosed
  | char :: rest =>
    if char = '\n' then .unclosed
    else if char = '"' then .closed [] ['"'] rest
    else if char = '\\' then
      match escape rest with
      | .error fault => .badEscape fault []
      | .ok (unit, n) =>
        (scanString (rest.drop n)).extend [unit] (char :: rest.take n)
    else
      (scanString rest).extend (Text.unitsOfChar char) [char]
termination_by chars.length
decreasing_by
  · simp only [List.length_drop, List.length_cons]
    omega
  · simp

def closeComment : List Char → Option (List Char × List Char)
  | [] => none
  | '*' :: '/' :: rest => some (['*', '/'], rest)
  | char :: rest =>
    (closeComment rest).map fun (body, post) => (char :: body, post)

inductive Scan where
  | blank (lexeme rest : List Char)
  | token (kind : TokenClass) (text : String) (lexeme rest : List Char)
  | fault (fault : Fault) (pre : List Char)
deriving DecidableEq, Repr

def Scan.plain (kind : TokenClass) (lexeme rest : List Char) : Scan :=
  .token kind (String.ofList lexeme) lexeme rest

def fractionPart : List Char → List Char
  | '.' :: rest => '.' :: rest.takeWhile Char.isDigit
  | _ => []

def signPart : List Char → List Char
  | '+' :: _ => ['+']
  | '-' :: _ => ['-']
  | _ => []

def exponentPart : List Char → List Char
  | [] => []
  | mark :: rest =>
    if mark = 'e' || mark = 'E' then
      let sign := signPart rest
      let digits := (rest.drop sign.length).takeWhile Char.isDigit
      if digits.isEmpty then [] else mark :: (sign ++ digits)
    else []

def exponentValue (expo : List Char) : Int :=
  match expo.drop 1 with
  | '-' :: digits => -(decimalNumber digits : Int)
  | '+' :: digits => decimalNumber digits
  | digits => decimalNumber digits

def floatValue (whole frac expo : List Char) : Double :=
  let places := frac.drop 1
  let numeral : Decimal :=
    ⟨decimalNumber (whole ++ places), exponentValue expo - (places.length : Int)⟩
  numeral.toDouble false

def endNumber (kind : TokenClass) (lexeme rest : List Char) : Scan :=
  match rest with
  | [] => .plain kind lexeme rest
  | next :: _ =>
    if isNamePart next then .fault (.unexpected (firstUnit next)) lexeme
    else .plain kind lexeme rest

def scanDecimal (chars : List Char) : Scan :=
  let whole := chars.takeWhile Char.isDigit
  let afterWhole := chars.dropWhile Char.isDigit
  let frac := fractionPart afterWhole
  let afterFraction := afterWhole.drop frac.length
  let expo := exponentPart afterFraction
  let rest := afterFraction.drop expo.length
  let kind : TokenClass :=
    if frac.isEmpty && expo.isEmpty then .int (decimalNumber whole)
    else .float (floatValue whole frac expo)
  endNumber kind (whole ++ frac ++ expo) rest

def hexDigitsOf : List Char → List Char
  | '0' :: mark :: rest =>
    if mark = 'x' || mark = 'X' then rest.takeWhile isHexDigit else []
  | _ => []

def scanNumber (chars : List Char) : Scan :=
  let digits := hexDigitsOf chars
  if digits.isEmpty then scanDecimal chars
  else
    endNumber (.int (hexNumber digits)) (chars.take (digits.length + 2))
      (chars.drop (digits.length + 2))

def startsNumber : List Char → Bool
  | '.' :: next :: _ => next.isDigit
  | char :: _ => char.isDigit
  | [] => false

def docText (body : List Char) : String :=
  let line := if body.getLast? = some '\r' then body.dropLast else body
  match line with
  | ' ' :: rest => String.ofList rest
  | _ => String.ofList line

def isDoc : List Char → Bool
  | '/' :: '/' :: '/' :: '/' :: _ => false
  | '/' :: '/' :: '/' :: _ => true
  | _ => false

def scanLineComment (chars : List Char) : Scan :=
  let line := chars.takeWhile (· ≠ '\n')
  let rest := chars.dropWhile (· ≠ '\n')
  if isDoc chars then .token .doc (docText (line.drop 3)) line rest
  else .blank line rest

def scanName (chars : List Char) : Scan :=
  let lexeme := chars.takeWhile isNamePart
  let rest := chars.dropWhile isNamePart
  match Keyword.ofSpelling? (String.ofList lexeme) with
  | some kw => .plain (.keyword kw) lexeme rest
  | none => .plain .ident lexeme rest

def scanQuoted (body : List Char) : Scan :=
  match scanString body with
  | .closed v lexeme rest => .plain (.string ⟨v⟩) ('"' :: lexeme) rest
  | .unclosed => .fault .unterminatedString []
  | .badEscape fault pre => .fault fault ('"' :: pre)

def startsWith2 (first snd : Char) : List Char → Bool
  | left :: right :: _ => left = first && right = snd
  | _ => false

/-- What stands at a character: a blank, a token or a fault. -/
def scan (char : Char) (tail : List Char) : Scan :=
  let chars := char :: tail
  if isBlank char then .blank [char] tail
  else if startsWith2 '/' '/' chars then scanLineComment chars
  else if startsWith2 '/' '*' chars then
    match closeComment (tail.drop 1) with
    | some (body, rest) => .blank ('/' :: '*' :: body) rest
    | none => .fault .unterminatedComment []
  else if char = '"' then scanQuoted tail
  else if startsNumber chars then scanNumber chars
  else if isNameStart char then scanName chars
  else if punctuation.contains char then .plain (.punct char) [char] tail
  else .fault (.unexpected (firstUnit char)) []

def Reads (lexeme rest chars : List Char) : Prop :=
  lexeme ++ rest = chars ∧ lexeme ≠ []

theorem Reads.shorter {lexeme rest chars : List Char}
    (reads : Reads lexeme rest chars) : rest.length < chars.length := by
  obtain ⟨split, nonempty⟩ := reads
  have positive := List.length_pos_iff.mpr nonempty
  rw [← split, List.length_append]
  omega

theorem scanString_reads {chars : List Char} {v : List UInt16}
    {lexeme rest : List Char} (closed : scanString chars = .closed v lexeme rest) :
    Reads lexeme rest chars := by
  induction chars using scanString.induct generalizing v lexeme rest with
  | case1 => simp [scanString] at closed
  | case2 => simp [scanString] at closed
  | case3 tail _ =>
    simp only [scanString] at closed
    obtain ⟨rfl, rfl, rfl⟩ := closed
    exact ⟨rfl, by simp⟩
  | case4 tail fault hit _ _ => simp [scanString, hit] at closed
  | case5 tail unit n hit _ _ ih =>
    simp only [scanString, hit] at closed
    cases inner : scanString (tail.drop n) with
    | closed innerValue innerLexeme innerRest =>
      simp only [inner, StringScan.extend] at closed
      obtain ⟨rfl, rfl, rfl⟩ := closed
      refine ⟨?_, by simp⟩
      rw [List.cons_append, List.cons_append, List.append_assoc, (ih inner).1,
        List.take_append_drop]
    | unclosed => simp [inner, StringScan.extend] at closed
    | badEscape fault pre => simp [inner, StringScan.extend] at closed
  | case6 char tail notBreak notQuote notEscape ih =>
    rw [scanString] at closed
    simp only [notBreak, notQuote, notEscape, if_false] at closed
    cases inner : scanString tail with
    | closed innerValue innerLexeme innerRest =>
      simp only [inner, StringScan.extend] at closed
      obtain ⟨rfl, rfl, rfl⟩ := closed
      refine ⟨?_, by simp⟩
      rw [List.append_assoc, (ih inner).1, List.singleton_append]
    | unclosed => simp [inner, StringScan.extend] at closed
    | badEscape fault pre => simp [inner, StringScan.extend] at closed

theorem scanString_badEscape_isPrefix {chars pre : List Char} {fault : Fault}
    (hit : scanString chars = .badEscape fault pre) : pre <+: chars := by
  induction chars using scanString.induct generalizing pre with
  | case1 => simp [scanString] at hit
  | case2 => simp [scanString] at hit
  | case3 tail _ => simp [scanString] at hit
  | case4 tail innerFault equal _ _ =>
    simp only [scanString, equal] at hit
    obtain ⟨_, rfl⟩ := hit
    exact List.nil_prefix
  | case5 tail unit n equal _ _ ih =>
    simp only [scanString, equal] at hit
    cases inner : scanString (tail.drop n) with
    | closed v lexeme rest => simp [inner, StringScan.extend] at hit
    | unclosed => simp [inner, StringScan.extend] at hit
    | badEscape innerFault innerBefore =>
      simp only [inner, StringScan.extend] at hit
      obtain ⟨rfl, rfl⟩ := hit
      rw [List.cons_append, List.prefix_cons_inj]
      conv => rhs; rw [← List.take_append_drop n tail]
      exact (List.prefix_append_right_inj _).mpr (ih inner)
  | case6 char tail notBreak notQuote notEscape ih =>
    rw [scanString] at hit
    simp only [notBreak, notQuote, notEscape, if_false] at hit
    cases inner : scanString tail with
    | closed v lexeme rest => simp [inner, StringScan.extend] at hit
    | unclosed => simp [inner, StringScan.extend] at hit
    | badEscape innerFault innerBefore =>
      simp only [inner, StringScan.extend] at hit
      obtain ⟨rfl, rfl⟩ := hit
      exact (List.prefix_cons_inj _).mpr (ih inner)

theorem closeComment_reads {chars body rest : List Char}
    (closed : closeComment chars = some (body, rest)) : body ++ rest = chars := by
  fun_induction closeComment chars generalizing body rest with
  | case1 => simp at closed
  | case2 tail =>
    simp only [Option.some.injEq, Prod.mk.injEq] at closed
    obtain ⟨rfl, rfl⟩ := closed
    rfl
  | case3 char tail _ ih =>
    obtain ⟨⟨innerBody, innerRest⟩, hit, equal⟩ := Option.map_eq_some_iff.mp closed
    simp only [Prod.mk.injEq] at equal
    obtain ⟨rfl, rfl⟩ := equal
    simp [ih hit]

theorem fractionPart_isPrefix (chars : List Char) : fractionPart chars <+: chars := by
  unfold fractionPart
  split
  · exact List.prefix_cons_inj _ |>.mpr ( List.takeWhile_prefix _)
  · exact List.nil_prefix

theorem signPart_isPrefix (chars : List Char) : signPart chars <+: chars := by
  unfold signPart
  split <;> simp

theorem exponentPart_isPrefix (chars : List Char) : exponentPart chars <+: chars := by
  unfold exponentPart
  split
  · exact List.nil_prefix
  · next mark rest =>
      simp only
      split
      · split
        · exact List.nil_prefix
        · rw [List.prefix_cons_inj]
          have split := List.prefix_iff_eq_append.mp (signPart_isPrefix rest)
          conv => rhs; rw [← split]
          exact List.prefix_append_right_inj _ |>.mpr ( List.takeWhile_prefix _)
      · exact List.nil_prefix

def Scan.Splits (chars : List Char) : Scan → Prop
  | .blank lexeme rest => Reads lexeme rest chars
  | .token _ _ lexeme rest => Reads lexeme rest chars
  | .fault _ pre => pre <+: chars

theorem endNumber_splits {kind : TokenClass} {lexeme rest chars : List Char}
    (reads : Reads lexeme rest chars) : (endNumber kind lexeme rest).Splits chars := by
  unfold endNumber
  split
  · exact reads
  · split
    · exact ⟨_, reads.1⟩
    · exact reads

theorem scanDecimal_splits {chars : List Char} (num : startsNumber chars) :
    (scanDecimal chars).Splits chars := by
  apply endNumber_splits
  constructor
  · have whole := List.takeWhile_append_dropWhile (p := Char.isDigit) (l := chars)
    have frac :=
      List.prefix_iff_eq_append.mp (fractionPart_isPrefix (chars.dropWhile Char.isDigit))
    have expo := List.prefix_iff_eq_append.mp (exponentPart_isPrefix
      ((chars.dropWhile Char.isDigit).drop
        (fractionPart (chars.dropWhile Char.isDigit)).length))
    rw [List.append_assoc, expo, List.append_assoc, frac, whole]
  · intro empty
    simp only [List.append_eq_nil_iff] at empty
    obtain ⟨⟨whole, frac⟩, _⟩ := empty
    unfold startsNumber at num
    split at num
    · simp [fractionPart] at frac
    · next char tail notPoint =>
        simp [num] at whole
    · simp at num

theorem hexDigitsOf_reads {chars : List Char} (hit : hexDigitsOf chars ≠ []) :
    2 ≤ chars.length := by
  unfold hexDigitsOf at hit
  split at hit
  · simp
  · exact absurd rfl hit

theorem scanNumber_splits {chars : List Char} (num : startsNumber chars) :
    (scanNumber chars).Splits chars := by
  unfold scanNumber
  simp only
  split
  · exact scanDecimal_splits num
  · next hit =>
      apply endNumber_splits
      refine ⟨List.take_append_drop _ _, ?_⟩
      have long := hexDigitsOf_reads (by simpa using hit)
      intro empty
      have size := congrArg List.length empty
      simp only [List.length_take, List.length_nil] at size
      omega

theorem scan_splits (char : Char) (tail : List Char) : (scan char tail).Splits (char :: tail) := by
  unfold scan
  simp only
  split
  · exact ⟨rfl, by simp⟩
  split
  · next slashes =>
      have slash : char = '/' := by
        unfold startsWith2 at slashes
        split at slashes <;> simp_all
      have reads : Reads ((char :: tail).takeWhile (· ≠ '\n'))
          ((char :: tail).dropWhile (· ≠ '\n')) (char :: tail) := by
        refine ⟨List.takeWhile_append_dropWhile, ?_⟩
        simp [slash]
      unfold scanLineComment
      split <;> exact reads
  split
  · next marks =>
      split
      · next body rest hit =>
          have split := closeComment_reads hit
          refine ⟨?_, by simp⟩
          unfold startsWith2 at marks
          split at marks
          · next first snd others equal =>
              simp only [List.cons.injEq] at equal
              simp_all
          · simp at marks
      · exact List.nil_prefix
  split
  · next quote =>
      unfold scanQuoted
      split
      · next v lexeme rest closed =>
          have reads := scanString_reads closed
          exact ⟨by simp [quote, reads.1], by simp⟩
      · exact List.nil_prefix
      · next fault pre hit =>
          exact quote ▸ (List.prefix_cons_inj _).mpr (scanString_badEscape_isPrefix hit)
  split
  · next num => exact scanNumber_splits num
  split
  · next name =>
      have part : isNamePart char := by
        simp only [isNameStart, isNamePart, Char.isAlphanum] at name ⊢
        grind
      have reads : Reads ((char :: tail).takeWhile isNamePart)
          ((char :: tail).dropWhile isNamePart) (char :: tail) := by
        refine ⟨List.takeWhile_append_dropWhile, ?_⟩
        simp [part]
      unfold scanName
      simp only
      split <;> exact reads
  split
  · exact ⟨rfl, by simp⟩
  · exact List.nil_prefix

/-- The tokens of the rest of a text, or the first fault. -/
def tokensFrom (file : Text) (pos : Position) (chars : List Char) :
    Except Diagnostic (List Token) :=
  match chars with
  | [] => .ok [⟨.eof, "", ⟨file, pos, pos⟩⟩]
  | char :: tail =>
    match _found : scan char tail with
    | .blank lexeme rest => tokensFrom file (pos.advanceAll lexeme) rest
    | .token kind text lexeme rest =>
      let stop := pos.advanceAll lexeme
      match tokensFrom file stop rest with
      | .ok toks => .ok (⟨kind, text, ⟨file, pos, stop⟩⟩ :: toks)
      | .error d => .error d
    | .fault fault pre =>
      .error
        (Diagnostic.errorAtPosition fault.id fault.message file
          (pos.advanceAll pre))
termination_by chars.length
decreasing_by
  all_goals
    have splits := scan_splits char tail
    rw [_found] at splits
    exact splits.shorter

end Lexer

def Source.tokens (src : Source) : Except Diagnostic (List Token) :=
  Lexer.tokensFrom src.path Position.start src.text.toList

end FlatSchema

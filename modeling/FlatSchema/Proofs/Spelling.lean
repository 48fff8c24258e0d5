import FlatSchema.Proofs.LexedTokens
import Mathlib.Data.List.Basic

/-!
# Spelling tokens

`Scans characters lexemes` says what a text reads as, without places.  A piece
of text spells lexemes if it reads as them in front of whatever may follow it;
pieces that spell are put together one after another.

The pieces here are blanks, punctuation, words and lines of documentation.
-/

namespace FlatSchema

variable {line chars ending : List Char}

/-- A token without its place. -/
abbrev Lexeme : Type := TokenClass × String

/-- What a token is, without its place. -/
def Token.lexeme (tok : Token) : Lexeme :=
  (tok.kind, tok.text)

namespace Lexer

/-- What a text reads as. -/
inductive Scans : List Char → List Lexeme → Prop where
  | nil : Scans [] []
  | blank {char : Char} {tail lexeme rest : List Char} {lexemes : List Lexeme}
      (hit : scan char tail = .blank lexeme rest) (others : Scans rest lexemes) :
      Scans (char :: tail) lexemes
  | token {char : Char} {tail lexeme rest : List Char} {kind : TokenClass} {text : String}
      {lexemes : List Lexeme} (hit : scan char tail = .token kind text lexeme rest)
      (others : Scans rest lexemes) : Scans (char :: tail) ((kind, text) :: lexemes)

/-- A text that reads as lexemes has tokens that are these, and the end of the file. -/
theorem Scans.tokensFrom (scans : Scans chars lexemes) (file : Text) (pos : Position) :
    ∃ front last,
      tokensFrom file pos chars = .ok (front ++ [last]) ∧
        front.map Token.lexeme = lexemes ∧ last.kind = .eof := by
  induction scans generalizing pos with
  | nil =>
    rw [Lexer.tokensFrom]
    exact ⟨[], _, rfl, rfl, rfl⟩
  | @blank char tail lexeme rest lexemes hit _ ih =>
    rcases ih (pos.advanceAll lexeme) with ⟨front, last, others, same, isEof⟩
    rw [Lexer.tokensFrom]
    split
    · grind
    · grind
    · grind
  | @token char tail lexeme rest kind text lexemes hit _ ih =>
    rcases ih (pos.advanceAll lexeme) with ⟨front, last, others, same, isEof⟩
    refine ⟨⟨kind, text, ⟨file, pos, pos.advanceAll lexeme⟩⟩ :: front, last, ?_, ?_, isEof⟩
    · rw [Lexer.tokensFrom]
      split
      · grind
      · grind
      · grind
    · rw [List.map_cons, same]
      rfl

/-! ## Pieces -/

/-- The next character, if there is one, is allowed. -/
def Meets (allowed : Char → Bool) (rest : List Char) : Prop :=
  ∀ char ∈ rest.head?, allowed char

/-- A piece of text reads as lexemes in front of what begins with an allowed character. -/
def Spells (piece : List Char) (lexemes : List Lexeme) (allowed : Char → Bool) : Prop :=
  ∀ (rest : List Char) (more : List Lexeme),
    Meets allowed rest → Scans rest more → Scans (piece ++ rest) (lexemes ++ more)

/-- Anything may follow. -/
def anything : Char → Bool :=
  fun _ => true

/-- What ends a word. -/
def endsWord (char : Char) : Bool :=
  !isNamePart char

/-- What ends a numeral. -/
def endsNumeral (char : Char) : Bool :=
  !isNamePart char && char ≠ '.'

theorem meets_anything (rest : List Char) : Meets anything rest :=
  fun _ _ => rfl

theorem Meets.cons (isAllowed : allowed char) (rest : List Char) :
    Meets allowed (char :: rest) := by
  rintro _ ⟨⟩
  exact isAllowed

namespace Spells

variable {fst snd : List Char} {lexemes others : List Lexeme} {allowed wider : Char → Bool}

theorem nil : Spells [] [] allowed :=
  fun _ _ _ scans => scans

/-- A piece in front of another that it may stand before. -/
theorem append (one : Spells fst lexemes wider) (two : Spells snd others allowed)
    (meets : ∀ rest, Meets allowed rest → Meets wider (snd ++ rest)) :
    Spells (fst ++ snd) (lexemes ++ others) allowed := by
  grind [Meets, Spells]

theorem mono (spells : Spells hd lexemes wider) (fewer : ∀ char, allowed char → wider char) :
    Spells hd lexemes allowed :=
  fun rest more ends scans =>
    spells rest more (fun char isHead => fewer char (ends char isHead)) scans

theorem blank (isBlank : Lexer.isBlank char) : Spells [char] [] anything := by
  intro rest more _ scans
  have hit : scan char rest = .blank [char] rest := by
    simp [scan, isBlank]
  exact .blank hit scans

theorem blanks (areBlank : ∀ char ∈ chars, Lexer.isBlank char) : Spells chars [] anything := by
  induction chars with
  | nil => exact nil
  | cons char chars ih =>
    have one := blank (areBlank char List.mem_cons_self)
    have others := ih fun other mem => areBlank other (List.mem_cons_of_mem _ mem)
    exact one.append others fun _ _ => meets_anything _

end Spells

/-! ## Punctuation and words -/

theorem punctuation_plain :
    ∀ mark ∈ punctuation,
      isBlank mark = false ∧ mark ≠ '/' ∧ mark ≠ '"' ∧ isNameStart mark = false ∧
        mark.isDigit = false :=
  List.forall_iff_forall_mem.mp (by decide)

/-- No blank character is of a class that none of the five is of. -/
theorem isBlank_eq_false (holds : test char)
    (solid : [' ', '\t', '\r', '\n', '\uFEFF'].any test = false) : isBlank char = false := by
  grind [isBlank]

theorem startsWith2_of_ne (differs : char ≠ fst) (tail : List Char) :
    startsWith2 fst snd (char :: tail) = false := by
  cases tail with
  | nil => rfl
  | cons next tail => simp [startsWith2, differs]

theorem startsNumber_cons (noPoint : char ≠ '.') (tail : List Char) :
    startsNumber (char :: tail) = char.isDigit := by
  simp_all [startsNumber]

theorem scan_punct (isMark : mark ∈ punctuation) (noNumber : startsNumber (mark :: tail) = false) :
    scan mark tail = .plain (.punct mark) [mark] tail := by
  rcases punctuation_plain mark isMark with ⟨notBlank, notSlash, notQuote, notStart, _⟩
  have listed : punctuation.contains mark := List.contains_iff_mem.mpr isMark
  simp only [scan, notBlank, startsWith2_of_ne notSlash, notQuote, noNumber, notStart, listed,
    Bool.false_eq_true, if_false, if_true]

theorem Spells.punct (isMark : mark ∈ punctuation) (noPoint : mark ≠ '.') :
    Spells [mark] [(.punct mark, String.ofList [mark])] anything := by
  intro rest more _ scans
  rcases punctuation_plain mark isMark with ⟨_, _, _, _, noDigit⟩
  have noNumber := (startsNumber_cons noPoint rest).trans noDigit
  exact .token (scan_punct isMark noNumber) scans

theorem Spells.point : Spells ['.'] [(.punct '.', ".")] fun char => !char.isDigit := by
  intro rest more ends scans
  have noNumber : startsNumber ('.' :: rest) = false := by
    cases rest with
    | nil => rfl
    | cons next rest =>
      grind [Meets, startsNumber]
  exact .token (scan_punct (by decide) noNumber) scans

/-- The class of a word: reserved or not. -/
def wordKind (word : String) : TokenClass :=
  match Keyword.ofSpelling? word with
  | some kw => .keyword kw
  | none => .ident

theorem takeWhile_of_meets (all : ∀ char ∈ chars, test char)
    (ends : Meets (fun char => !test char) rest) :
    (chars ++ rest).takeWhile test = chars ∧ (chars ++ rest).dropWhile test = rest := by
  rw [List.takeWhile_append_of_pos all, List.dropWhile_append_of_pos all]
  cases rest with
  | nil => simp
  | cons next rest =>
    simp_all [Meets]

theorem isNamePart_of_isNameStart (starts : isNameStart char) : isNamePart char := by
  unfold isNameStart at starts
  unfold isNamePart Char.isAlphanum
  grind

theorem isDigit_of_isNameStart (starts : isNameStart char) : char.isDigit = false := by
  unfold isNameStart Char.isAlpha Char.isUpper Char.isLower at starts
  rw [Bool.eq_false_iff, Ne, Char.isDigit_iff_toNat]
  simp only [Bool.or_eq_true, Bool.and_eq_true, decide_eq_true_eq, ge_iff_le,
    UInt32.le_iff_toNat_le] at starts
  rcases starts with ((⟨low, _⟩ | ⟨low, _⟩) | rfl)
  · intro ⟨_, high⟩
    exact absurd (Nat.le_trans low high) (by decide)
  · intro ⟨_, high⟩
    exact absurd (Nat.le_trans low high) (by decide)
  · decide

/-- A word, reserved or not. -/
theorem Spells.word {word : String} (isWord : IsWord word.toList) :
    Spells word.toList [(wordKind word, word)] endsWord := by
  rcases isWord with ⟨hd, parts, split, starts, areParts⟩
  intro rest more ends scans
  have notBlank := isBlank_eq_false starts (by decide)
  have notSlash : hd ≠ '/' := by rintro rfl; exact absurd starts (by decide)
  have notQuote : hd ≠ '"' := by rintro rfl; exact absurd starts (by decide)
  have notPoint : hd ≠ '.' := by rintro rfl; exact absurd starts (by decide)
  have noNumber :=
    (startsNumber_cons notPoint (parts ++ rest)).trans (isDigit_of_isNameStart starts)
  have all : ∀ char ∈ hd :: parts, isNamePart char := by
    grind [isNamePart_of_isNameStart]
  rcases takeWhile_of_meets all ends with ⟨taken, left⟩
  have hit : scan hd (parts ++ rest) = .token (wordKind word) word word.toList rest := by
    have spelled : String.ofList (hd :: parts) = word := by
      rw [← split, String.ofList_toList]
    rw [List.cons_append] at taken left
    simp only [scan, notBlank, startsWith2_of_ne notSlash, notQuote, noNumber, starts,
      Bool.false_eq_true, if_false, if_true, scanName, taken, left, spelled, wordKind, Scan.plain,
      split]
    cases Keyword.ofSpelling? word <;> rfl
  rw [split]
  exact .token hit scans

/-! ## Lines of documentation -/

/-- What a documentation line holds after its slashes. -/
def docBody (line : List Char) : List Char :=
  if line.isEmpty then [] else ' ' :: line

/-- The characters of a line ending, before its line feed. -/
def IsReturn (chars : List Char) : Prop :=
  chars = [] ∨ chars = ['\r']

theorem docText_docBody (noReturn : '\r' ∉ line) (isReturn : IsReturn ending) :
    docText (docBody line ++ ending) = String.ofList line := by
  have bare : docText (docBody line ++ ending) = docText (docBody line) := by
    rcases isReturn with rfl | rfl
    · rw [List.append_nil]
    · grind [docText, docBody]
  grind [docText, docBody, IsReturn]

theorem isDoc_docBody (noSlash : next ≠ '/') (rest : List Char) :
    isDoc ('/' :: '/' :: '/' :: (docBody line ++ next :: rest)) := by
  cases line with
  | nil =>
    simp_all [docBody, isDoc]
  | cons hd line => rfl

theorem scan_doc (noBreak : '\n' ∉ line) (noReturn : '\r' ∉ line) (isReturn : IsReturn ending)
    (rest : List Char) :
    scan '/' ('/' :: '/' :: (docBody line ++ ending ++ '\n' :: rest)) =
      .token .doc (String.ofList line) ('/' :: '/' :: '/' :: (docBody line ++ ending))
        ('\n' :: rest) := by
  have all : ∀ char ∈ '/' :: '/' :: '/' :: (docBody line ++ ending), decide (char ≠ '\n') := by
    intro char mem
    simp only [List.mem_cons, List.mem_append] at mem
    rw [decide_eq_true_iff]
    rintro rfl
    rcases mem with isSlash | isSlash | isSlash | inBody | inEnding
    · exact absurd isSlash (by decide)
    · exact absurd isSlash (by decide)
    · exact absurd isSlash (by decide)
    · grind [docBody, IsReturn]
    · rcases isReturn with rfl | rfl <;> simp at inEnding
  have ends : Meets (fun char => !decide (char ≠ '\n')) ('\n' :: rest) := .cons rfl rest
  rcases takeWhile_of_meets all ends with ⟨taken, left⟩
  have isDocLine : isDoc ('/' :: '/' :: '/' :: (docBody line ++ ending ++ '\n' :: rest)) := by
    rcases isReturn with rfl | rfl
    · rw [List.append_nil]
      exact isDoc_docBody (by decide) rest
    · rw [List.append_assoc]
      exact isDoc_docBody (by decide) _
  rw [List.cons_append, List.cons_append, List.cons_append] at taken left
  have text := docText_docBody noReturn isReturn
  show scanLineComment _ = _
  rw [scanLineComment, if_pos isDocLine, taken, left, List.drop_succ_cons, List.drop_succ_cons,
    List.drop_succ_cons, List.drop_zero, text]

theorem Spells.doc (noBreak : '\n' ∉ line) (noReturn : '\r' ∉ line) (isReturn : IsReturn ending) :
    Spells ('/' :: '/' :: '/' :: (docBody line ++ ending ++ ['\n']))
      [(.doc, String.ofList line)] anything := by
  intro rest more _ scans
  have broken : Scans ('\n' :: rest) more := Spells.blank rfl rest more (meets_anything rest) scans
  have hit := scan_doc noBreak noReturn isReturn rest
  rw [List.cons_append, List.cons_append, List.cons_append, List.append_assoc]
  exact .token hit broken

end Lexer

end FlatSchema

import FlatSchema.Proofs.Documented
import FlatSchema.Proofs.LexedTokens
import FlatSchema.Proofs.ParsedSentence

/-!
# The parser accepts exactly the grammar

A text that has tokens parses without a report exactly if its tokens without
documentation are a sentence, and the parsed items are then those that the
sentence derives, in order.
-/

namespace FlatSchema

open Grammar Item Lexer Parser

namespace Parser

/-- Where parsing starts: at well-formed tokens before the end of the file. -/
theorem start_spec {src : Source} (hit : src.tokens = .ok toks) :
    (start toks).last.kind = .eof ∧ toks = (start toks).rest ++ [(start toks).last] ∧
      ∀ tok ∈ (start toks).rest, Lexed tok.kind tok.text := by
  rcases tokensFrom_lexed hit with ⟨front, last, rfl, isEof, lexed⟩
  rw [start, List.dropLast_concat, List.getLastD_concat]
  exact ⟨isEof, rfl, lexed⟩

theorem start_inside {src : Source} (hit : src.tokens = .ok toks) :
    ∀ tok ∈ (start toks).rest, tok.kind ≠ .eof := by
  intro tok mem isEof
  have wellFormed := (start_spec hit).2.2 tok mem
  rw [isEof] at wellFormed
  exact wellFormed

/-- A sentence is what derives items before the end of the file. -/
theorem sentence_iff {items : List Item} (isEof : last.kind = .eof) :
    Sentence (withoutDocs (front ++ [last])) items ↔ ItemsOf [] (withoutDocs front) items := by
  have all : withoutDocs (front ++ [last]) = withoutDocs front ++ [last] := by
    grind [withoutDocs]
  rw [all]
  constructor
  · intro sentence
    generalize all : withoutDocs front ++ [last] = toks at sentence
    rcases sentence with ⟨listed, _⟩
    simp_all
  · intro listed
    exact .file listed (decide_eq_true isEof)

end Parser

/-- A text that has tokens parses without a report exactly if they are a sentence, into its
items. -/
theorem parse_exactly_sentences (source : Source) (tokens : List Token)
    (found : source.tokens = .ok tokens) :
    (source.parse.diagnostics = [] ↔ ∃ items, Sentence (withoutDocs tokens) items) ∧
      ∀ items, Sentence (withoutDocs tokens) items →
        source.parse.schema.map (fun schema => schema.items.map plain) = some items := by
  rcases start_spec found with ⟨isEof, split, lexed⟩
  have inside := start_inside found
  have sentence_iff : ∀ items, Sentence (withoutDocs tokens) items ↔
      ItemsOf [] (withoutDocs (start tokens).rest) items := by
    intro items
    conv => lhs; rw [split]
    exact sentence_iff isEof
  have parsed : source.parse =
      ⟨some ⟨source.path, (items [] [] (start tokens)).1, source.wholeSpan⟩,
        (items [] [] (start tokens)).2⟩ := by
    rw [Source.parse, found]
  rw [parsed]
  simp only [sentence_iff, Option.map_some, Option.some.injEq]
  refine ⟨⟨?_, ?_⟩, ?_⟩
  · intro quiet
    rcases items_read isEof inside [] [] with ⟨more, _, kept, derives, _, _, silent, _⟩
    rw [quiet] at silent
    rw [← silent rfl]
    exact ⟨_, derives⟩
  · rintro ⟨items, listed⟩
    exact (items_complete listed isEof rfl []).2
  · intro items listed
    exact (items_complete listed isEof rfl []).1

/-- An enumeration with a signed value, a last comma and documentation at the end. -/
def hueSource : Source :=
  ⟨"hue.fbs", "enum Hue:byte\x7bred=-1,\x7d///"⟩

/-- A token of the one line of that text. -/
def hueToken (kind : TokenClass) (text : String) (start stop : Nat) : Token :=
  ⟨kind, text, ⟨"hue.fbs", ⟨1, start + 1, start⟩, ⟨1, stop + 1, stop⟩⟩⟩

def hueTokens : List Token :=
  [hueToken (.keyword .enumWord) "enum" 0 4, hueToken .ident "Hue" 5 8,
    hueToken (.punct ':') ":" 8 9, hueToken .ident "byte" 9 13,
    hueToken (.punct '{') "\x7b" 13 14, hueToken .ident "red" 14 17,
    hueToken (.punct '=') "=" 17 18, hueToken (.punct '-') "-" 18 19,
    hueToken (.int 1) "1" 19 20, hueToken (.punct ',') "," 20 21,
    hueToken (.punct '}') "\x7d" 21 22, hueToken .doc "" 22 25, hueToken .eof "" 25 25]

def hueItem : Item :=
  .declaration ⟨"Hue", [], [], [],
    .enum (namedType "byte" default) [⟨"red", some (-1), [], default⟩], default⟩

/-- The tokens of the enumeration derive it, and it is what parsing gives. -/
theorem parse_exactly_hue :
    hueSource.tokens = .ok hueTokens ∧ Sentence (withoutDocs hueTokens) [hueItem] ∧
      hueSource.parse.diagnostics = [] ∧
        hueSource.parse.schema.map (fun schema => schema.items.map plain) = some [hueItem] := by
  have found : hueSource.tokens = .ok hueTokens := by with_unfolding_all rfl
  have number : LiteralOf [hueToken (.punct '-') "-" 18 19, hueToken (.int 1) "1" 19 20]
      (negated (.int (1 : Nat))) := .minus rfl (.int rfl)
  have value : EnumValueOf (hueToken .ident "red" 14 17 :: hueToken (.punct '=') "=" 17 18 :: _)
      ⟨"red", some (-1), [], default⟩ := .numbered rfl rfl number
  have entries : Entries EnumValueOf
      (hueToken (.punct '{') "\x7b" 13 14 :: (_ ++
        [hueToken (.punct ',') "," 20 21, hueToken (.punct '}') "\x7d" 21 22])) _ :=
    .trailing rfl (.last value) rfl rfl
  have byte : TypeOf [hueToken .ident "byte" 9 13] (namedType "byte" default) :=
    .named (.last rfl)
  have declares : DeclOf []
      (hueToken (.keyword .enumWord) "enum" 0 4 :: hueToken .ident "Hue" 5 8 ::
        hueToken (.punct ':') ":" 8 9 :: (_ ++ ([] ++ _))) _ :=
    .enum rfl rfl rfl byte .absent entries
  have listed : ItemsOf [] (_ ++ []) [hueItem] := .cons (.declaration declares) .nil
  have sentence : Sentence (withoutDocs hueTokens) [hueItem] := Sentence.file listed rfl
  have exactly := parse_exactly_sentences hueSource hueTokens found
  exact ⟨found, sentence, exactly.1.mpr ⟨_, sentence⟩, exactly.2 _ sentence⟩

end FlatSchema

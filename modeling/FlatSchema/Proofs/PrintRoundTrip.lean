import FlatSchema.Proofs.ExactGrammar
import FlatSchema.Proofs.PrintedItems

/-!
# Printing and parsing again

Printable items are read back from their text: parsing it reports nothing and
gives the same items, places apart.  Whatever the parser makes of a text, after
recovery from errors too, is printable, so printing a parsed schema and parsing
it again changes nothing.
-/

namespace FlatSchema

open Grammar

/-- Printable items are read back from their text. -/
theorem parse_printItems (plain : style.Plain) (prints : ItemsPrintable [] items)
    (areLines : ∀ item ∈ items, ∀ line ∈ item.docLines, IsLine line) (path : Text) :
    ∃ again,
      Source.parse ⟨path, printItems style items⟩ = ⟨some again, []⟩ ∧ again.path = path ∧
        again.items.map Item.unplaced = items.map Item.unplaced := by
  rcases tells_items plain prints areLines with ⟨lexemes, spells, tells⟩
  have scans := spells [] [] (Lexer.meets_anything _) .nil
  rw [List.append_nil, List.append_nil] at scans
  rcases scans.tokensFrom path Position.start with ⟨front, last, hit, same, isEof⟩
  rcases tells front same with ⟨_, ⟨portions, told, rfl, recorded⟩, split⟩
  have faces : (Parser.start (front ++ [last])).noted = portions.flatMap Portion.stretch := by
    have all := split []
    rw [List.append_nil, Noted.ofTokens, List.append_nil] at all
    rw [Parser.start, List.dropLast_concat]
    exact all
  have ended : (Parser.start (front ++ [last])).last.kind = .eof := by
    rw [Parser.start, List.getLastD_concat]
    exact isEof
  rcases Parser.items_told told recorded ended faces with ⟨listed, silent⟩
  have toks : Source.tokens ⟨path, printItems style items⟩ = .ok (front ++ [last]) := hit
  refine ⟨⟨path, (Parser.items [] [] (Parser.start (front ++ [last]))).1,
    Source.wholeSpan ⟨path, printItems style items⟩⟩, ?_, rfl, listed⟩
  have reports : (Parser.items [] [] (Parser.start (front ++ [last]))).2 = [] := silent
  rw [Source.parse, toks, ← reports]

/-- What parsing makes of a text can be written down, as far as it is not documentation. -/
theorem Source.parse_printable {src : Source} (hit : src.tokens = .ok toks) :
    ∃ sch,
      src.parse.schema = some sch ∧ ItemsPrintable [] sch.items ∧
        ∀ item ∈ sch.items, ∀ line ∈ item.docLines, '\n' ∉ line.toList := by
  rcases Parser.start_spec hit with ⟨isEof, split, lexed⟩
  rcases Parser.items_read isEof (Parser.start_inside hit) [] [] with
    ⟨read, listed, kept, derives, sublist, _, _, lines, _⟩
  refine ⟨⟨src.path, read, src.wholeSpan⟩, ?_, ?_, ?_⟩
  · rw [Source.parse, hit]
    simp [listed]
  · apply itemsPrintable_of_plain
    apply itemsPrintable_of_itemsOf derives
    intro tok mem
    exact lexed tok (List.mem_of_mem_filter (sublist.subset mem))
  · intro item mem line isLine
    rcases List.mem_map.mp (lines item mem line isLine) with ⟨tok, isDoc, rfl⟩
    rcases List.mem_filter.mp isDoc with ⟨stands, kind⟩
    have wellFormed := lexed tok stands
    rw [of_decide_eq_true kind] at wellFormed
    exact wellFormed

/--
Printing what a text parses to and parsing it again changes nothing but places, whether or not
the text has errors, as long as no documentation has a carriage return in it.
-/
theorem parse_print_parse (source : Source) (tokens : List Token)
    (found : source.tokens = .ok tokens) :
    ∃ schema,
      source.parse.schema = some schema ∧
        ((∀ item ∈ schema.items, ∀ line ∈ item.docLines, '\r' ∉ line.toList) →
          ∀ style : PrintStyle, style.Plain → ∀ path : Text,
            ∃ again,
              Source.parse ⟨path, schema.print style⟩ = ⟨some again, []⟩ ∧ again.path = path ∧
                again.items.map Item.unplaced = schema.items.map Item.unplaced) := by
  rcases Source.parse_printable found with ⟨schema, parsed, printable, noBreak⟩
  refine ⟨schema, parsed, fun noReturn style plain path => ?_⟩
  refine parse_printItems plain printable ?_ path
  intro item member line isLine
  exact ⟨noBreak item member line isLine, noReturn item member line isLine⟩

/-- A documented table with a field of a reserved name, and a member that is in error. -/
def hurtSource : Source :=
  ⟨"hurt.fbs", "///a\ntable T\x7btable:[float]=-0.0(id:1);y z\x7d"⟩

/-- What is kept of it. -/
def hurtItem : Item :=
  .declaration ⟨"T", [], ["a"], [],
    .table [⟨"table", .vector (.scalar .float32 default) default,
      some ⟨.float (.ofMagnitude true 0), default⟩, [⟨"id", some ⟨.int 1, default⟩, default⟩], [],
      default⟩], default⟩

/-- The table survives printing with tabs and two-character line endings. -/
theorem parse_print_hurt :
    ∃ tokens schema,
      hurtSource.tokens = .ok tokens ∧ hurtSource.parse.schema = some schema ∧
        hurtSource.parse.diagnostics.length = 1 ∧
          (∀ item ∈ schema.items, ∀ line ∈ item.docLines, '\r' ∉ line.toList) ∧
            ∃ again,
              Source.parse ⟨"again.fbs", schema.print ⟨"\t", "\r\n"⟩⟩ = ⟨some again, []⟩ ∧
                again.path = "again.fbs" ∧ again.items.map Item.unplaced = [hurtItem] := by
  have lexes : (hurtSource.tokens.toOption).isSome := by with_unfolding_all rfl
  have kept : hurtSource.parse.schema.map (fun schema => schema.items.map Item.unplaced) =
      some [hurtItem] := by with_unfolding_all rfl
  have reported : hurtSource.parse.diagnostics.length = 1 := by with_unfolding_all rfl
  have documented : hurtSource.parse.schema.map (fun schema =>
      schema.items.flatMap Item.docLines) = some ["a"] := by with_unfolding_all rfl
  cases found : hurtSource.tokens with
  | error diagnostic =>
    rw [found] at lexes
    cases lexes
  | ok tokens =>
    rcases parse_print_parse hurtSource tokens found with ⟨schema, parsed, roundTrip⟩
    rw [parsed, Option.map_some, Option.some.injEq] at kept documented
    have noReturn : ∀ item ∈ schema.items, ∀ line ∈ item.docLines, '\r' ∉ line.toList := by
      intro item member line isLine
      have listed := List.mem_flatMap.mpr ⟨item, member, isLine⟩
      rw [documented, List.mem_singleton] at listed
      rw [listed]
      decide
    rcases roundTrip noReturn ⟨"\t", "\r\n"⟩
        ⟨List.forall_iff_forall_mem.mp (by decide), .inr rfl⟩ "again.fbs" with
      ⟨again, quiet, path_eq, same⟩
    exact ⟨tokens, schema, rfl, parsed, reported, noReturn, again, quiet, path_eq, same.trans kept⟩

end FlatSchema

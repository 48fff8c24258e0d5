import FlatSchema.Proofs.ExactGrammar
import FlatSchema.Proofs.TokenTiles

/-!
# Spans nest

The tokens of a text stand in it one behind the other.  What the parser makes
is covered by some of them, also where it recovers, so in the tree of a text
every node stands over its parts, and these one behind the other.
-/

namespace FlatSchema

variable {src : Source} {read : List Char} {toks : List Token}

theorem Source.Tiles.nests (tiles : src.Tiles read toks) :
    src.Nests (widthOf read) src.length (toks.map Token.outline) := by
  induction tiles with
  | done whole => exact .cons (widthOf_le whole) (.nil (Nat.le_refl _)) (.nil (Nat.le_refl _))
  | @token read gap lexeme _ _ _ _ _ _ _ _ _ _ ih =>
    have front := widthOf_append read gap
    have own := widthOf_append (read ++ gap) lexeme
    exact .cons (by omega) (.nil (by omega)) ih

theorem Source.wholeSpan_eq (src : Source) : src.wholeSpan = src.span 0 src.length := by
  have start : src.position 0 = Position.start := position_widthOf (List.nil_append _).symm
  have stop : src.position src.length = Position.start.advanceAll src.text.toList :=
    position_widthOf (List.append_nil _).symm
  rw [wholeSpan, span, start, stop]

/-- In the tree of a text that has tokens each node has the positions of two offsets of the text
in order, the nodes in it lie between these, and one behind the other. -/
theorem parse_nests (src : Source) :
    (∃ d, src.tokens = .error d) ∨
      ∃ sch, src.parse.schema = some sch ∧ src.Nests 0 src.length [sch.outline] := by
  cases hit : src.tokens with
  | error d => exact .inl ⟨d, rfl⟩
  | ok toks =>
    have whole : src.text.toList = [] ++ src.text.toList := rfl
    have nests := ((Lexer.tokensFrom_tiles whole rfl).1 toks hit).nests
    rcases Parser.start_spec hit with ⟨isEof, split, _⟩
    rcases Parser.items_read isEof (Parser.start_inside hit) [] [] with
      ⟨more, listed, kept, _, sublist, _, _, _, covers⟩
    have fewer : kept.Sublist toks := by
      rw [split]
      exact (sublist.trans List.filter_sublist).trans (List.sublist_append_left _ _)
    refine .inr ⟨⟨src.path, more, src.wholeSpan⟩, ?_, ?_⟩
    · rw [Source.parse, hit]
      simp [listed]
    · have items := covers (Nat.le_refl _) (nests.sublist (fewer.map Token.outline))
      rw [Source.wholeSpan_eq]
      exact .cons (Nat.le_refl _) items (.nil (Nat.le_refl _))

end FlatSchema

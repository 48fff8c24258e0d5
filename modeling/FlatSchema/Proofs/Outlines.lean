import FlatSchema.Schema.Parser

/-!
# Outlines

The outline of a tree is its spans: each node has one, and those of its parts
lie in it one behind the other.  A row of outlines in order stays in order where
some are dropped, or a stretch of them is put together to a node.  So what is
made from tokens in this way is in order if the tokens are.
-/

namespace FlatSchema

/-- The span of a node and the outlines of its parts, in the order of the text. -/
inductive Outline where
  | node (span : Span) (parts : List Outline)

def Outline.span : Outline → Span
  | .node span _ => span

/-! ## Outlines of trees -/

def Token.outline (tok : Token) : Outline :=
  .node tok.span []

def Literal.outline (lit : Literal) : Outline :=
  .node lit.span []

def TypeExpr.outline : TypeExpr → Outline
  | .vector elem span => .node span [elem.outline]
  | .scalar _ span | .string span | .named _ span => .node span []

def Attribute.outline (attr : Attribute) : Outline :=
  .node attr.span (attr.value.toList.map Literal.outline)

def EnumValue.outline (v : EnumValue) : Outline :=
  .node v.span []

def Variant.outline (alt : Variant) : Outline :=
  .node alt.span []

def Field.outline (f : Field) : Outline :=
  .node f.span
    (f.type.outline :: (f.default.toList.map Literal.outline ++ f.attributes.map Attribute.outline))

def Method.outline (method : Method) : Outline :=
  .node method.span (method.attributes.map Attribute.outline)

/-- What stands before the attributes, the type of an enumeration, and the members behind them. -/
def DeclBody.outlines : DeclBody → List Outline × List Outline
  | .enum base vs => ([base.outline], vs.map EnumValue.outline)
  | .union alts => ([], alts.map Variant.outline)
  | .struct fs | .table fs => ([], fs.map Field.outline)
  | .service methods => ([], methods.map Method.outline)

def Decl.outline (dec : Decl) : Outline :=
  .node dec.span
    (dec.body.outlines.1 ++ (dec.attributes.map Attribute.outline ++ dec.body.outlines.2))

def Item.outline : Item → Outline
  | .declaration dec => dec.outline
  | .includeFile _ span | .enterScope _ span | .declareAttribute _ span | .rootType _ _ span
  | .fileIdentifier _ span | .fileExtension _ span => .node span []

def Schema.outline (sch : Schema) : Outline :=
  .node sch.span (sch.items.map Item.outline)

theorem outline_namedType (name : String) (span : Span) :
    (Parser.namedType name span).outline = .node span [] := by
  unfold Parser.namedType
  split
  · rfl
  · split <;> rfl

/-! ## Rows in order -/

/-- Outlines stand between two offsets one behind the other, each over what its span says, and so
do the parts of each inside it. -/
inductive Source.Nests (src : Source) : Nat → Nat → List Outline → Prop where
  | nil {lo hi : Nat} (fits : lo ≤ hi) : Nests src lo hi []
  | cons {lo start stop hi : Nat} {parts others : List Outline} (begins : lo ≤ start)
      (inner : Nests src start stop parts) (behind : Nests src stop hi others) :
      Nests src lo hi (.node (src.span start stop) parts :: others)

theorem Span.join_self (span : Span) : Span.join span span = span := by
  simp [Span.join]

namespace Source.Nests

variable {src : Source} {lo hi : Nat} {os parts : List Outline} {first last : Outline}

theorem le (nests : src.Nests lo hi os) : lo ≤ hi := by
  induction nests with
  | nil fits => exact fits
  | cons begins _ _ inner behind => omega

theorem lower (nests : src.Nests lo hi os) (fits : less ≤ lo) : src.Nests less hi os := by
  cases nests with
  | nil within => exact .nil (Nat.le_trans fits within)
  | cons begins inner behind => exact .cons (Nat.le_trans fits begins) inner behind

theorem sublist (nests : src.Nests lo hi os) (sub : fewer.Sublist os) : src.Nests lo hi fewer := by
  induction nests generalizing fewer with
  | nil fits =>
    cases sub
    exact .nil fits
  | cons begins inner behind _ ih =>
    cases sub with
    | cons _ sub => exact (ih sub).lower (Nat.le_trans begins inner.le)
    | cons_cons _ sub => exact .cons begins inner (ih sub)

theorem append (nests : src.Nests lo mid os)
    (behind : src.Nests mid hi others) : src.Nests lo hi (os ++ others) := by
  induction nests with
  | nil fits => exact behind.lower fits
  | cons begins inner _ _ ih => exact .cons begins inner (ih behind)

theorem split (nests : src.Nests lo hi (os ++ others)) :
    ∃ mid, src.Nests lo mid os ∧ src.Nests mid hi others := by
  induction os generalizing lo with
  | nil => exact ⟨lo, .nil (Nat.le_refl _), nests⟩
  | cons first os ih =>
    cases nests with
    | cons begins inner behind =>
      rcases ih behind with ⟨mid, front, back⟩
      exact ⟨mid, .cons begins inner front, back⟩

/-- The last outline of a row ends it. -/
theorem exists_last (nests : src.Nests lo hi os) (isLast : os.getLast? = some last) :
    ∃ start stop,
      lo ≤ start ∧ start ≤ stop ∧ stop ≤ hi ∧ last.span = src.span start stop ∧
        src.Nests lo stop os := by
  rcases List.getLast?_eq_some_iff.mp isLast with ⟨front, rfl⟩
  rcases nests.split with ⟨mid, before, own⟩
  cases own with
  | @cons _ start stop _ _ _ begins inner behind =>
    exact ⟨start, stop, Nat.le_trans before.le begins, inner.le, behind.le, rfl,
      before.append (.cons begins inner (.nil (Nat.le_refl _)))⟩

theorem join_span (fits : ends ≤ src.length) (own : start ≤ stop)
    (begins : start ≤ begin) (order : begin ≤ ends) (reaches : stop ≤ ends) :
    Span.join (src.span start stop) (src.span begin ends) = src.span start ends := by
  have offset {off : Nat} (small : off ≤ ends) : (src.position off).offset = off :=
    clamp_eq (Nat.le_trans small fits)
  simp only [Span.join, span, offset (Nat.le_trans own reaches), offset order, offset reaches,
    offset (Nat.le_refl _), begins, if_true]
  grind

/-- A row makes the parts of a node over it. -/
theorem enclose (nests : src.Nests lo hi os) (fits : hi ≤ src.length)
    (isFirst : os.head? = some first) (isLast : os.getLast? = some last) (sub : parts.Sublist os) :
    src.Nests lo hi [.node (Span.join first.span last.span) parts] := by
  cases nests with
  | nil => cases isFirst
  | @cons _ start stop _ inner others begins own behind =>
    cases isFirst
    cases others with
    | nil =>
      obtain rfl : .node (src.span start stop) inner = last := Option.some.inj isLast
      rw [Span.join_self]
      have alone : src.Nests start stop _ := .cons (Nat.le_refl _) own (.nil (Nat.le_refl _))
      exact .cons begins (alone.sublist sub) (.nil behind.le)
    | cons next others =>
      rcases behind.exists_last isLast with ⟨begin, ends, after, order, within, span, row⟩
      rw [Outline.span, span, join_span (Nat.le_trans within fits) own.le
        (Nat.le_trans own.le after) order (Nat.le_trans after order)]
      have whole : src.Nests start ends _ := .cons (Nat.le_refl _) own row
      exact .cons begins (whole.sublist sub) (.nil within)

end Source.Nests

/-! ## Outlines made from tokens -/

/-- Outlines are in order wherever the tokens they are made from are. -/
def Covers (toks : List Token) (os : List Outline) : Prop :=
  ∀ ⦃src : Source⦄ ⦃lo hi : Nat⦄,
    hi ≤ src.length → src.Nests lo hi (toks.map Token.outline) → src.Nests lo hi os

namespace Covers

variable {toks more : List Token} {os others parts : List Outline} {first last : Outline}

theorem token (tok : Token) : Covers [tok] [tok.outline] :=
  fun _ _ _ _ nests => nests

theorem skip (toks : List Token) : Covers toks [] :=
  fun _ _ _ _ nests => nests.sublist (List.nil_sublist _)

section

variable (covers : Covers toks os)
include covers

theorem append (behind : Covers more others) : Covers (toks ++ more) (os ++ others) := by
  intro src lo hi fits nests
  rw [List.map_append] at nests
  rcases nests.split with ⟨mid, front, back⟩
  exact (covers (Nat.le_trans back.le fits) front).append (behind fits back)

theorem node (isFirst : os.head? = some first)
    (isLast : os.getLast? = some last) (sub : parts.Sublist os) :
    Covers toks [.node (Span.join first.span last.span) parts] :=
  fun _ _ _ fits nests => (covers fits nests).enclose fits isFirst isLast sub

theorem behind (tok : Token) : Covers (tok :: toks) os :=
  (skip [tok]).append covers

theorem led (tok : Token) : Covers (tok :: toks) (tok.outline :: os) :=
  (token tok).append covers

/-- A node from a token to the last of some outlines, with the others as its parts. -/
theorem closed (split : os = parts ++ [.node close []]) (tok : Token) :
    Covers (tok :: toks) [.node (Span.join tok.span close) parts] := by
  have ends : (tok.outline :: os).getLast? = some (.node close []) := by
    rw [split, ← List.cons_append, List.getLast?_concat]
  refine (covers.led tok).node rfl ends (.cons _ ?_)
  grind

end

/-- A node over tokens, from the first to the last. -/
theorem join {first last : Token} (isFirst : toks.head? = some first)
    (isLast : toks.getLast? = some last) :
    Covers toks [.node (Span.join first.span last.span) []] := by
  have all : Covers toks (toks.map Token.outline) := fun _ _ _ _ nests => nests
  have begins : (toks.map Token.outline).head? = some first.outline := by simp [isFirst]
  have ends : (toks.map Token.outline).getLast? = some last.outline := by simp [isLast]
  exact all.node begins ends (List.nil_sublist _)

end Covers

end FlatSchema

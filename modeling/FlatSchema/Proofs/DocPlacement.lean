import FlatSchema.Proofs.ExactGrammar
import Mathlib.Data.List.Chain

/-!
# Where documentation goes

A text that parses without a report falls into portions: items and lone
semicolons.  A declaration takes the documentation before its first token and
whatever the portion before it leaves.  The documentation inside a declaration
goes to its members, is dropped, or is left behind the closing brace, the last
only by enumerations and unions without a comma behind the last entry.
-/

namespace FlatSchema

open Grammar

variable {α : Type} {means : List Token → α → Prop} {waiting left ns : List String}

theorem Noted.flatMap_fst (noted : List Noted) :
    noted.flatMap Prod.fst = first noted ++ behind noted := by
  cases noted <;> rfl

theorem Noted.behind_append (nonempty : used.map Prod.snd = tok :: toks) (more : List Noted) :
    first (used ++ more) = first used ∧
      behind (used ++ more) = behind used ++ more.flatMap Prod.fst := by
  cases used with
  | nil => cases nonempty
  | cons hd used => exact ⟨rfl, List.flatMap_append⟩

/-- Documentation that waits or stands before members goes to them or is dropped. -/
theorem Told.conserves (told : Told means waiting between vs docs left) :
    left = [] ∧
      ∃ dropped, waiting ++ between.flatMap Prod.fst = docs.flatten ++ (dropped ++ left) := by
  induction told with
  | @nil waiting last closes => exact ⟨rfl, waiting ++ last.1, by simp⟩
  | cons elem others ih =>
    grind [Noted.flatMap_fst, List.flatMap_append, List.append_assoc]

theorem Series.conserves (told : Series means waiting between vs docs left) :
    ∃ dropped, waiting ++ between.flatMap Prod.fst = docs.flatten ++ (dropped ++ left) := by
  induction told with
  | @nil waiting last closes => exact ⟨waiting ++ last.1, by simp⟩
  | @last _ _ used last => exact ⟨[], by simp [Noted.flatMap_fst used]⟩
  | cons elem dvd own others ih =>
    grind [Noted.flatMap_fst, List.flatMap_append, List.append_assoc]

theorem BodyTold.conserves (told : BodyTold waiting kw between body docs left) :
    (body.kind ≠ .union → left = []) ∧
      ∃ dropped, waiting ++ between.flatMap Prod.fst = docs.flatten ++ (dropped ++ left) := by
  cases told with
  | union es => exact ⟨fun other => absurd rfl other, es.conserves⟩
  | struct members => exact ⟨fun _ => members.conserves.1, members.conserves.2⟩
  | table members => exact ⟨fun _ => members.conserves.1, members.conserves.2⟩
  | service members => exact ⟨fun _ => members.conserves.1, members.conserves.2⟩

/-- A declaration takes what waits and what stands before its first token. -/
theorem ItemTold.head?_docs (tells : ItemTold waiting ns stretch (.declaration decl) docs left) :
    docs.head? = some (waiting ++ Noted.first stretch) := by
  generalize isItem : Item.declaration decl = item at tells
  cases tells with
  | directive directs =>
    have none := (Parser.undocumented_directive directs).2
    rw [← isItem] at none
    cases none
  | enum _ _ _ _ _ _ own => rw [(Noted.behind_append own _).1, List.head?_cons]
  | other _ _ _ _ own => rw [(Noted.behind_append own _).1, List.head?_cons]

/-- What becomes of the documentation inside an item: that of a declaration goes to its members, is
dropped or is left behind the brace, the last only by enumerations and unions; that of a directive
is left. -/
def Placed (stretch : List Noted) (docs : List (List String)) (left : List String) : Item → Prop
  | .declaration decl =>
    (∃ dropped, Noted.behind stretch = docs.tail.flatten ++ (dropped ++ left)) ∧
      (decl.body.kind ≠ .enum → decl.body.kind ≠ .union → left = [])
  | _ => left = Noted.behind stretch

theorem ItemTold.placed (tells : ItemTold waiting ns stretch item docs left) :
    Placed stretch docs left item := by
  cases tells with
  | directive directs =>
    have none := (Parser.undocumented_directive directs).2
    cases item with
    | declaration decl => cases none
    | _ => rfl
  | enum _ _ _ _ _ _ own es =>
    refine ⟨?_, fun other => absurd rfl other⟩
    rw [(Noted.behind_append own _).2]
    exact es.conserves
  | other _ _ _ _ own bodied =>
    refine ⟨?_, fun _ => bodied.conserves.1⟩
    rw [(Noted.behind_append own _).2]
    exact bodied.conserves.2

/-- Lone semicolons leave nothing, items what is not placed inside them. -/
def Portion.Placed (portion : Portion) : Prop :=
  match portion.item with
  | none => portion.left = []
  | some (item, docs) => FlatSchema.Placed portion.stretch docs portion.left item

theorem Portions.placed (told : Portions waiting ns portions) :
    ∀ portion ∈ portions, portion.Placed := by
  induction told with
  | nil => exact fun _ mem => nomatch mem
  | semicolon _ _ ih => exact List.forall_mem_cons.mpr ⟨rfl, ih⟩
  | cons tells _ ih => exact List.forall_mem_cons.mpr ⟨tells.placed, ih⟩

/-- Each declaration takes the documentation before its first token and nothing else. -/
def Confined (portions : List Portion) : Prop :=
  ∀ portion ∈ portions, ∀ decl docs, portion.item = some (.declaration decl, docs) →
    docs.head? = some (Noted.first portion.stretch)

def Portion.Declares (portion : Portion) : Prop :=
  ∃ decl docs, portion.item = some (.declaration decl, docs)

theorem Portions.confined_iff (told : Portions waiting ns portions) :
    Confined portions ↔
      (∀ portion ∈ portions.head?, portion.Declares → waiting = []) ∧
        portions.IsChain fun first second => second.Declares → first.left = [] := by
  induction told with
  | nil => simp [Confined]
  | semicolon ends others ih =>
    rw [Confined, List.forall_mem_cons, ← Confined, ih, List.isChain_cons]
    simp [Portion.Declares]
  | @cons waiting ns used item docs left rest tells others ih =>
    have own :
        (∀ decl lines, some (item, docs) = some (.declaration decl, lines) →
            lines.head? = some (Noted.first used)) ↔
          (Portion.Declares ⟨used, some (item, docs), left⟩ → waiting = []) := by
      constructor
      · rintro all ⟨decl, lines, same⟩
        have taken := all decl lines same
        cases same
        rw [tells.head?_docs] at taken
        simpa using taken
      · rintro none decl lines same
        have nothing := none ⟨decl, lines, same⟩
        cases same
        rw [tells.head?_docs, nothing]
        rfl
    rw [Confined, List.forall_mem_cons, ← Confined, ih, List.isChain_cons, own]
    simp

/-- A text that parses without a report falls into portions that hold all its tokens, and its items
are theirs with their documentation.  Each portion places the documentation inside it or leaves it
to the next.  Declarations take nothing but the documentation before their first tokens exactly if
no portion leaves any to a declaration directly behind it. -/
theorem docs_confined_iff (source : Source) (tokens : List Token)
    (found : source.tokens = .ok tokens) (quiet : source.parse.diagnostics = []) :
    ∃ schema portions,
      source.parse.schema = some schema ∧ Portions [] [] portions ∧
        portions.flatMap Portion.stretch = Noted.ofTokens [] tokens.dropLast ∧
        portions.filterMap Portion.item = schema.items.map Item.told ∧
        (∀ portion ∈ portions, portion.Placed) ∧
        (Confined portions ↔
          portions.IsChain fun first second => second.Declares → first.left = []) := by
  have parsed :
      source.parse =
        ⟨some ⟨source.path, (Parser.items [] [] (Parser.start tokens)).1, source.wholeSpan⟩,
          (Parser.items [] [] (Parser.start tokens)).2⟩ := by
    rw [Source.parse, found]
  rw [parsed] at quiet ⊢
  simp only at quiet ⊢
  have isEof := (Parser.start_spec found).1
  rcases Parser.items_read isEof (Parser.start_inside found) [] [] with
    ⟨_, _, kept, derives, _, _, silent, _⟩
  rw [quiet] at silent
  rcases Parser.items_portioned derives isEof (silent rfl).symm [] with
    ⟨portions, told, noted, _, listed, _⟩
  refine ⟨_, portions, rfl, told, noted, listed.symm, told.placed, ?_⟩
  rw [told.confined_iff]
  exact and_iff_right fun _ _ _ => rfl

/-- Two tables with documentation everywhere. -/
def placedSource : Source :=
  ⟨"placed.fbs", "///a\ntable T\x7b\n///b\nx:int;\n///c\n\x7d\n///d\ntable U\x7b\x7d"⟩

theorem docs_confined_tables :
    ∃ schema portions,
      placedSource.parse = ⟨some schema, []⟩ ∧
        schema.items.map Item.docs = [[["a"], ["b"]], [["d"]]] ∧
        portions.filterMap Portion.item = schema.items.map Item.told ∧ Confined portions := by
  have evaluated :
      placedSource.tokens.toOption.isSome = true ∧ placedSource.parse.diagnostics = [] ∧
        (placedSource.parse.schema.map fun schema =>
          (schema.items.map Item.docs, schema.items.map fun item =>
            match item.plain with
            | .declaration decl => some decl.body.kind
            | _ => none)) =
          some ([[["a"], ["b"]], [["d"]]], [some .table, some .table]) := by
    decide +kernel
  rcases evaluated with ⟨lexes, quiet, values⟩
  cases found : placedSource.tokens with
  | error diagnostic =>
    rw [found] at lexes
    cases lexes
  | ok tokens =>
    rcases docs_confined_iff placedSource tokens found quiet with
      ⟨schema, portions, parsed, told, _, listed, placed, confined⟩
    rw [parsed, Option.map_some, Option.some.injEq, Prod.mk.injEq] at values
    have closed : ∀ portion ∈ portions, portion.left = [] := by
      intro portion member
      have own := placed portion member
      unfold Portion.Placed at own
      split at own
      · exact own
      · next item docs isItem =>
          have inItems := List.mem_filterMap.mpr ⟨portion, member, isItem⟩
          rw [listed] at inItems
          rcases List.mem_map.mp inItems with ⟨parsed, inSchema, told⟩
          have isTable := List.mem_map_of_mem (f := fun item : Item =>
            match item.plain with
            | .declaration decl => some decl.body.kind
            | _ => none) inSchema
          rw [values.2, (Prod.mk.inj told).1] at isTable
          cases item with
          | declaration decl =>
            have isTable : decl.body.kind = .table := by simpa using isTable
            exact own.2 (by rw [isTable]; decide) (by rw [isTable]; decide)
          | _ => simp at isTable
    refine ⟨schema, portions, ?_, values.1, listed, confined.mpr ?_⟩
    · rw [← parsed, ← quiet]
    · refine List.Pairwise.isChain ?_
      have all : portions.Pairwise fun _ _ => True := List.pairwise_of_forall fun _ _ => trivial
      exact all.imp_of_mem fun member _ _ _ => closed _ member

/-- An enumeration without a comma behind its last value, and a table. -/
def leakingSource : Source :=
  ⟨"leaking.fbs", "enum E:int\x7bA\n///a\n\x7dtable T\x7b\x7d"⟩

/-- The documentation inside the enumeration goes to the table. -/
theorem docs_leak :
    leakingSource.parse.diagnostics = [] ∧
      (leakingSource.tokens.toOption.map fun tokens =>
        (Noted.ofTokens [] tokens.dropLast).map fun noted => (noted.1, noted.2.text)) =
        some [([], "enum"), ([], "E"), ([], ":"), ([], "int"), ([], "\x7b"), ([], "A"),
          (["a"], "\x7d"), ([], "table"), ([], "T"), ([], "\x7b"), ([], "\x7d")] ∧
      (leakingSource.parse.schema.map fun schema => schema.items.map Item.docs) =
        some [[[], []], [["a"]]] := by
  decide +kernel

end FlatSchema

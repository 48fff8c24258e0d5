import FlatSchema.Proofs.Emission
import FlatSchema.Proofs.WriteFailures

/-!
# Accepted catalogs can be used without a check

Whoever reads an accepted catalog need not ask whether a number has an entry
or an entry the right kind: the catalog is closed, generators run to their end
on it, and records are written and read without a failure that only the
catalog could cause.
-/

namespace FlatSchema.Catalog

open Decode Encode SymbolTable

/-- An accepted catalog is closed, so generators give their files for all options, and writing or
reading a record as one of its tables never fails for a number without an entry, for an entry that
is no table, or for a type that cannot stand in a struct or a vector. -/
theorem ofSymbols_closed {schemas : List Schema} {entry : Option Text} {earlier : List Diagnostic}
    {catalog : Catalog}
    (accepted :
      (ofSymbols schemas (ofSchemas schemas).value entry earlier).value = .accepted catalog) :
    Closed catalog ∧
      (∀ options,
        (∃ artifacts, catalog.emitModules options = .ok artifacts) ∧
          ∃ artifacts, catalog.emitCanonical options = .ok artifacts) ∧
      ∀ id, catalog.kind? id = some .table →
        ∀ (ν : Type) [Extent ν] (error : RecordError),
          (∀ (fields : Fields) (builder : Builder ν),
            ((do
                let (entry, table) ← catalog.tableAt (id : Int)
                writeTable catalog entry table fields : Encode ν ν).run.run builder).1 =
              .error error → error.isInternal = false) ∧
            ∀ (buffer : Buffer) (position : ν),
              table buffer catalog (id : Int) position = .error error →
                error.isInternal = false := by
  have closed := closed_of_accepted accepted
  have sound := sound_of_accepted accepted
  refine ⟨closed, fun options => ⟨closed.emitModules options, closed.emitCanonical options⟩, ?_⟩
  intro id isTable ν _ error
  rcases exists_table isTable with ⟨own, table, stands, body⟩
  have found := body?_of_entry? stands body
  have known : catalog.tableAt (id : Int) = .ok (own, table) := by
    rw [tableAt, entryAt_natCast]
    exact tableOf_of_entry? stands body
  constructor
  · intro fields builder failed
    rw [known] at failed
    exact (safe_writeTable closed fields own id table found builder).2 error failed
  · intro buffer position failed
    have external := external_readTable closed sound buffer (buffer.size + 1)
      (closed.body found) position
    rw [Decode.table, known] at failed
    exact external.2 error failed

/-- Posts with an author, a mark each and answers, a feed of posts or advertisements, and a service
for them. -/
def postSchema : Schema where
  path := Text.ofString "post.fbs"
  span := default
  items :=
    [ .declaration ⟨"Mark", [], [], [], .enum (.scalar .uint8 default)
        [⟨"None", none, [], default⟩, ⟨"Best", none, [], default⟩], default⟩,
      .declaration ⟨"Day", [], [], [], .struct
        [⟨"number", .scalar .uint16 default, none, [], [], default⟩], default⟩,
      .declaration ⟨"Time", [], [], [], .struct
        [⟨"day", .named "Day" default, none, [], [], default⟩,
          ⟨"mark", .named "Mark" default, none, [], [], default⟩], default⟩,
      .enterScope ["Board"] default,
      .declaration ⟨"Post", ["Board"], [], [], .table
        [⟨"at", .named "Time" default, none, [], [], default⟩,
          ⟨"answers", .vector (.named "Post" default) default, none, [], [], default⟩,
          ⟨"days", .vector (.named "Day" default) default, none, [], [], default⟩], default⟩,
      .declaration ⟨"Item", ["Board"], [], [], .union [⟨"Post", [], default⟩], default⟩,
      .declaration ⟨"Feed", ["Board"], [], [], .table
        [⟨"first", .named "Item" default, none, [], [], default⟩], default⟩,
      .declaration ⟨"Boards", ["Board"], [], [], .service
        [⟨"Read", "Feed", "Post", [], [], default⟩], default⟩,
      .rootType "Feed" ["Board"] default ]

/-- The number of entries that are accepted. -/
def acceptedCount : Verdict → Nat
  | .accepted c => c.entries.length
  | _ => 0

/-- The board is accepted, with a root type, and both generators give their files. -/
theorem ofSymbols_closed_post :
    ∃ catalog,
      (ofSymbols [postSchema] (ofSchemas [postSchema]).value none []).value = .accepted catalog ∧
        catalog.entries.length = 7 ∧ Closed catalog ∧
        (∃ artifacts, catalog.emitModules .standard = .ok artifacts) ∧
        ∃ artifacts, catalog.emitCanonical .standard = .ok artifacts := by
  have counted :
      acceptedCount (ofSymbols [postSchema] (ofSchemas [postSchema]).value none []).value =
        7 := by
    decide +kernel
  cases value :
      (ofSymbols [postSchema] (ofSchemas [postSchema]).value none []).value with
  | accepted catalog =>
    rcases ofSymbols_closed value with ⟨closed, emitted, _⟩
    rw [value] at counted
    exact ⟨catalog, rfl, counted, closed, emitted .standard⟩
  | rejected => rw [value] at counted; cases counted
  | incomplete => rw [value] at counted; cases counted

end FlatSchema.Catalog

import FlatSchema.Proofs.SurvivingDefaults

/-!
# Required fields

A record that has its type is written unless a table inside it lacks a required
field, and the error then names such a field.  A required field that is also
deprecated is always lacking: it is looked for, but never written.
-/

namespace FlatSchema

open Builder Catalog Encode SymbolTable Text

/-- A record that has the type of its table fails to be written exactly if a table somewhere inside
it has a required field that is deprecated, missing or null, and the error names such a field,
unless the buffer outgrows its limit.  Fields have ordinary names, so that one can be missing. -/
theorem Catalog.bytesOf_fails_iff_lacks {ι : Type} [Extent ι] (schemas : List Schema)
    (entry : Option Text) (earlier : List Diagnostic) {catalog : Catalog}
    (accepted :
      (ofSymbols schemas (ofSchemas schemas).value entry earlier).value = .accepted catalog)
    (_ordinary : catalog.Ordinary)
    (slots : ∀ id table, catalog.body? id = some (.table table) → table.slotCount ≤ 32765)
    (choice : Option ι) (sizePrefix forced : Bool) {id : ι} {number : Nat} {table : TableType}
    (chosen : catalog.rootOf choice = .ok id)
    (number_eq : (Extent.integer? id).bind Int.toNat? = some number)
    (body : catalog.body? number = some (.table table)) (fields : Fields)
    (typed : catalog.Typed (.named number) (.record fields))
    (inline : (builderOf catalog ⟨choice, sizePrefix, forced⟩ fields).InlineFits) :
    bytesOf catalog ⟨choice, sizePrefix, forced⟩ fields = .error (.wire .tooLarge) ∧
        growthLimit ≤ (builderOf catalog ⟨choice, sizePrefix, forced⟩ fields).capacity ∨
      ((∃ error, bytesOf catalog ⟨choice, sizePrefix, forced⟩ fields = .error error) ↔
          ∃ field, catalog.Lacks field (.named number) (.record fields)) ∧
        ∀ error, bytesOf catalog ⟨choice, sizePrefix, forced⟩ fields = .error error →
          ∃ field, catalog.Lacks field (.named number) (.record fields) ∧
            error = .wire (missing field) := by
  have sound := sound_of_accepted accepted
  have manageable := manageable_of_accepted accepted slots
  have ends :=
    (plainPassage sound forced).root_ends chosen number_eq body sizePrefix forced fields
  rcases ran : (root catalog ⟨choice, sizePrefix, forced⟩ fields).run.run
    (start (standardRoom : Int) forced) with ⟨outcome, final⟩
  have written : bytesOf catalog ⟨choice, sizePrefix, forced⟩ fields = outcome :=
    congrArg Prod.fst ran
  have left : builderOf catalog ⟨choice, sizePrefix, forced⟩ fields = final :=
    congrArg Prod.snd ran
  rw [left] at inline ⊢
  rw [written]
  cases outcome with
  | ok bytes =>
    rcases ends.yields ran with ⟨_, _, brought, finished, _⟩
    have complete := brought.complete manageable (finished.inlineFits inline)
    refine .inr ⟨⟨?_, ?_⟩, ?_⟩
    · rintro ⟨error, failed⟩
      cases failed
    · rintro ⟨field, lacks⟩
      exact (complete field lacks).elim
    · intro error failed
      cases failed
  | error error =>
    rcases ends.proceeds with ⟨_, _, ended⟩ | ⟨_, _, failed, halts⟩
    · cases ran.symm.trans ended
    cases ran.symm.trans failed
    rcases halts rfl manageable typed with (⟨rfl, full⟩ | beyond) | ⟨field, lacks, rfl⟩
    · exact .inl ⟨rfl, full⟩
    · exact (beyond inline).elim
    · refine .inr ⟨⟨fun _ => ⟨field, lacks⟩, fun _ => ⟨_, rfl⟩⟩, ?_⟩
      rintro _ ⟨⟩
      exact ⟨field, lacks, rfl⟩

/-- Shelves hold jars, which must have labels.  Lids must have colours, which are deprecated. -/
def pantrySchema : Schema where
  path := ofString "pantry.fbs"
  span := default
  items :=
    [ .declaration ⟨"Jar", [], [], [], .table
        [⟨"label", .string default, none, [⟨"required", none, default⟩], [], default⟩], default⟩,
      .declaration ⟨"Lid", [], [], [], .table
        [⟨"colour", .string default, none,
            [⟨"required", none, default⟩, ⟨"deprecated", none, default⟩], [], default⟩,
          ⟨"width", .scalar .int32 default, none, [], [], default⟩], default⟩,
      .declaration ⟨"Shelf", [], [], [], .table
        [⟨"jars", .vector (.named "Jar" default) default, none, [], [], default⟩], default⟩ ]

def jarLabel : TableField :=
  ⟨"label", .string, 0, none, .absent, true, false, false, [], [⟨"required", none⟩]⟩

def lidTable : TableType :=
  ⟨[⟨"colour", .string, 0, none, .absent, true, true, false, [],
        [⟨"required", none⟩, ⟨"deprecated", none⟩]⟩,
      ⟨"width", .scalar .int32, 1, none, .int 0, false, false, false, [], []⟩], 2⟩

def shelfTable : TableType :=
  ⟨[⟨"jars", .vector (.named 0), 0, none, .absent, false, false, false, [], []⟩], 1⟩

def pantryCatalog : Catalog :=
  ⟨[⟨0, "Jar", [], "Jar", [], [], default, .table ⟨[jarLabel], 1⟩⟩,
      ⟨1, "Lid", [], "Lid", [], [], default, .table lidTable⟩,
      ⟨2, "Shelf", [], "Shelf", [], [], default, .table shelfTable⟩],
    [⟨"", [0, 1, 2]⟩], none, none, none, []⟩

/-- A shelf of two jars, the second with a null label. -/
def pantryShelf : Fields :=
  [("jars", .list
    [.record [("label", .text (ofString "salt"))], .record [("label", .null)]])]

/-- The shelf is not written, and the error names the label. -/
theorem bytesOf_fails_shelf :
    ∃ error field,
      bytesOf pantryCatalog ⟨some (2 : Int), true, false⟩ pantryShelf = .error error ∧
        pantryCatalog.Lacks field (.named 2) (.record pantryShelf) ∧
        error = .wire (missing field) := by
  have accepted :
      (ofSymbols [pantrySchema] (ofSchemas [pantrySchema]).value none
          []).value = .accepted pantryCatalog := by
    decide +kernel
  have typed : pantryCatalog.Typed (.named 2) (.record pantryShelf) := by
    refine .table (t := shelfTable) rfl fun field member _ value present => ?_
    cases List.mem_singleton.mp member
    cases present
    refine .list (.table rfl) fun item listed => ?_
    rcases List.mem_pair.mp listed with rfl | rfl
    · refine .table (t := ⟨[jarLabel], 1⟩) rfl fun field member _ value present => ?_
      cases List.mem_singleton.mp member
      cases present
      exact .text _
    · refine .table (t := ⟨[jarLabel], 1⟩) rfl fun field member _ value present => ?_
      cases List.mem_singleton.mp member
      cases present
  have lacks : pantryCatalog.Lacks jarLabel (.named 2) (.record pantryShelf) :=
    .field (t := shelfTable) rfl List.mem_cons_self rfl rfl
      (.element (List.mem_cons_of_mem _ List.mem_cons_self)
        (.own (t := ⟨[jarLabel], 1⟩) rfl List.mem_cons_self rfl (.inr rfl)))
  have inline : (builderOf pantryCatalog ⟨some (2 : Int), true, false⟩ pantryShelf).InlineFits := by
    decide +kernel
  rcases bytesOf_fails_iff_lacks [pantrySchema] none [] accepted (by decide)
    (slotCount_le (by decide)) (some (2 : Int)) true false rfl rfl rfl pantryShelf typed inline with
    ⟨_, full⟩ | ⟨fails, names⟩
  · exact absurd full (by decide +kernel)
  · rcases fails.mpr ⟨jarLabel, lacks⟩ with ⟨error, failed⟩
    rcases names error failed with ⟨field, lacking, named⟩
    exact ⟨error, field, failed, lacking, named⟩

/-- No lid can be written, although it lacks no field that is not deprecated. -/
theorem bytesOf_fails_lid :
    pantryCatalog.body? 1 = some (.table lidTable) ∧
      (∀ field ∈ lidTable.fields, field.required = true → field.deprecated = true) ∧
      bytesOf pantryCatalog ⟨some (1 : Int), false, false⟩
          [("width", .scalar (.number (Double.ofInt 1)))] =
        .error (.wire (.missingField (some (ofString "colour")))) := by
  decide +kernel

end FlatSchema

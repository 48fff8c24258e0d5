import FlatSchema.Proofs.CanonicalItems

/-!
# The text of a canonical schema

A canonical declaration is made of the words of the declaration that its entry
was made from, so it can be written down: names are words, numbers of floating
point are those that a numeral can give, and documentation has no line breaks
inside a line.  Only a field type may be misread, where its spelling is the
name of a built-in type.
-/

namespace FlatSchema

variable {ctx : Check.Context}

namespace Catalog

/-- The types of the fields of a body. -/
def Body.memberTypes : Body → List FieldType
  | .struct ty => ty.fields.map StructField.type
  | .table ty => ty.fields.map TableField.type
  | .enum _ | .union _ | .service _ => []

/-- The documentation of the members of a body. -/
def Body.docLines : Body → List String
  | .enum ty => ty.values.flatMap EnumValue.doc
  | .union ty => ty.variants.flatMap Variant.doc
  | .struct ty => ty.fields.flatMap StructField.doc
  | .table ty => ty.fields.flatMap TableField.doc
  | .service ty => ty.methods.flatMap Method.doc

/-- All lines of documentation in an entry. -/
def Entry.docLines (e : Entry) : List String :=
  e.doc ++ e.body.docLines

end Catalog

namespace Check

theorem KeepsBody.docLines_eq (kept : KeepsBody ctx sym raw body) :
    body.docLines = raw.docLines := by
  cases kept with
  | enum _ kept =>
    simp only [Catalog.Body.docLines, DeclBody.docLines, List.flatMap_def]
    rw [map_eq_of_forall₂ kept fun _ _ v => v.2]
  | union kept =>
    simp only [Catalog.Body.docLines, DeclBody.docLines, List.flatMap_def]
    rw [map_eq_of_forall₂ kept fun _ _ alt => alt.doc_eq]
  | struct kept =>
    simp only [Catalog.Body.docLines, DeclBody.docLines, List.flatMap_def]
    rw [map_eq_of_forall₂ kept.kept fun _ _ f => f.doc_eq]
  | table kept =>
    simp only [Catalog.Body.docLines, DeclBody.docLines, List.flatMap_def]
    rw [map_eq_of_forall₂ kept.kept fun _ _ f => f.doc_eq]
  | service kept =>
    simp only [Catalog.Body.docLines, DeclBody.docLines, List.flatMap_def]
    rw [map_eq_of_forall₂ kept fun _ _ method => method.doc_eq]

/-- A scalar default of floating point is a number that a numeral can give. -/
theorem canonical_of_scalarDefault (hit : scalarDefault kind lit = .ok (.float v))
    (prints : ∀ own ∈ lit, own.Printable) :
    v.Canonical := by
  cases kind with
  | float32 | float64 =>
    cases lit with
    | none =>
      cases hit
      have zero : Double.zero = .ofMagnitude false 0 := rfl
      rw [zero]
      exact Double.canonical_ofMagnitude (Nat.zero_le _)
    | some own =>
      cases own with
      | float =>
        cases hit
        exact prints _ rfl
      | int =>
        cases hit
        exact Double.canonical_ofMagnitude (Lexer.roundRatio_le _ _)
      | bool | string | name => cases hit
  | bool | int8 | uint8 | int16 | uint16 | int32 | uint32 | int64 | uint64 =>
    cases lit with
    | none => cases hit
    | some own =>
      cases own with
      | int =>
        simp only [scalarDefault] at hit
        split at hit <;> cases hit
      | float | bool | string | name => cases hit

theorem canonical_of_defaultOf? (hit : defaultOf? ctx enums ty lit = some (.ok (.float v)))
    (prints : ∀ own ∈ lit, own.Printable) :
    v.Canonical := by
  have absent : absentDefault lit ≠ .ok (.float v) := by
    unfold absentDefault
    split <;> nofun
  cases ty with
  | scalar kind => exact canonical_of_scalarDefault (Option.some.inj hit) prints
  | string => exact absurd (Option.some.inj hit) absent
  | vector elem => exact absurd (Option.some.inj hit) absent
  | named id =>
    unfold defaultOf? at hit
    simp only at hit
    split at hit
    · -- The default of an enumeration is a whole number.
      unfold enumDefault at hit
      grind
    grind

end Check

namespace Canonical

/-- Attributes that were read can be written down as a catalog keeps them. -/
theorem printable_attributesOf (span : Span) {attrs : List Attribute}
    (prints : ∀ raw ∈ attrs, raw.Printable) :
    ∀ raw ∈ attributesOf span (attrs.map Attribute.toCatalog), raw.Printable := by
  intro again mem
  rw [attributesOf, List.map_map] at mem
  rcases List.mem_map.mp mem with ⟨raw, fits, rfl⟩
  refine ⟨(prints raw fits).name, ?_⟩
  intro lit given
  have own := (prints raw fits).value
  cases v : raw.value with
  | none =>
    simp [Attribute.toCatalog, v] at given
  | some lit =>
    simp only [Function.comp_apply, Attribute.toCatalog, v, Option.map_some,
      Option.mem_def, Option.some.injEq] at given
    have readable := own lit v
    rw [← given]
    cases kind : lit.value with
    | float =>
      rw [kind] at readable
      exact readable
    | int | bool | string | name => trivial

theorem printable_defaultOf (canonical : ∀ num, v = .float num → num.Canonical) :
    ∀ own ∈ defaultOf v, own.Printable := by
  intro own given
  cases v with
  | int | bool =>
    simp only [defaultOf] at given
    split at given <;> cases given
    trivial
  | float num =>
    simp only [defaultOf] at given
    split at given <;> cases given
    exact canonical num rfl
  | absent => cases given

section

variable {c : Catalog} {ns : List String} {span : Span}

/-- A body that keeps what was read can be written down, if its field types can. -/
theorem printable_spelledBody (spells : c.Spellable) {body : Catalog.Body}
    (closed : c.ClosedBody body) (kept : Check.KeepsBody ctx sym raw body) (prints : raw.Printable)
    (types : ∀ ty ∈ body.memberTypes, (spelledType c ns span ty).Printable) :
    (spelledBody c ns span body).Printable := by
  have isPath : ∀ id, c.kind? id = some .table → IsPath (spelling c ns id) := by
    grind [Catalog.entry?_of_kind?, isPath_spelling]
  cases kept with
  | enum _ kept =>
    refine ⟨trivial, ?_⟩
    intro again mem
    rcases List.mem_map.mp mem with ⟨v, fits, rfl⟩
    rcases exists_mem_of_forall₂ kept fits with ⟨raw, read, name_eq, _⟩
    have isName := prints.2 raw read
    rw [← name_eq] at isName
    exact isName
  | union _ _ _ =>
    cases closed with
    | union isTable =>
      intro again mem
      rcases List.mem_map.mp mem with ⟨alt, fits, rfl⟩
      exact isPath _ (isTable alt fits)
  | struct kept =>
    intro again mem
    rcases List.mem_map.mp mem with ⟨f, fits, rfl⟩
    rcases exists_mem_of_forall₂ kept.kept fits with ⟨raw, read, keeps⟩
    have own := prints raw read
    refine ⟨?_, types _ (List.mem_map_of_mem fits), by simp [spelledStructField], ?_⟩
    · rw [spelledStructField, keeps.name_eq]
      exact own.name
    · rw [spelledStructField, keeps.attributes_eq]
      exact printable_attributesOf span own.attributes
  | table kept =>
    intro again mem
    rcases List.mem_map.mp mem with ⟨f, fits, rfl⟩
    rcases exists_mem_of_forall₂ kept.kept fits with ⟨raw, read, keeps⟩
    have own := prints raw read
    refine ⟨?_, types _ (List.mem_map_of_mem fits), ?_, ?_⟩
    · rw [spelledTableField, keeps.name_eq]
      exact own.name
    · intro again given
      rcases Option.mem_map.mp given with ⟨v, left, rfl⟩
      refine printable_defaultOf ?_ v left
      intro num float
      have default_eq := keeps.default_eq
      rw [float] at default_eq
      refine Check.canonical_of_defaultOf? default_eq ?_
      intro v given
      rcases Option.mem_map.mp given with ⟨lit, stands, rfl⟩
      exact own.default lit stands
    · rw [spelledTableField, keeps.attributes_eq]
      exact printable_attributesOf span own.attributes
  | service kept =>
    cases closed with
    | service isTable =>
      intro again mem
      rcases List.mem_map.mp mem with ⟨method, fits, rfl⟩
      rcases exists_mem_of_forall₂ kept fits with ⟨raw, read, keeps⟩
      have own := prints raw read
      refine ⟨?_, isPath _ (isTable method fits).1, isPath _ (isTable method fits).2, ?_⟩
      · rw [spelledMethod, keeps.name_eq]
        exact own.name
      · rw [spelledMethod, keeps.attributes_eq]
        exact printable_attributesOf span own.attributes

/-- The declaration that repeats an entry can be written down. -/
theorem printable_spelledDecl (spells : c.Spellable) (closed : c.Closed)
    {e : Catalog.Entry} (mem : e ∈ c.entries)
    (kept : Check.KeepsEntry ctx sym e) (legible : sym.decl.Legible)
    (types : ∀ ty ∈ e.body.memberTypes, (spelledType c e.scope e.span ty).Printable) :
    (spelledDecl c e).Printable e.scope := by
  have body := closed.bodies e mem
  rcases kept with ⟨kept, rfl, keeps⟩
  exact ⟨legible.printable.name, rfl,
    printable_attributesOf sym.decl.span legible.printable.attributes,
    printable_spelledBody spells body keeps legible.printable.body types⟩

/-- A repeated declaration has the documentation of its entry. -/
theorem docLines_spelledDecl (e : Catalog.Entry) : (spelledDecl c e).docLines = e.docLines := by
  have members : ∀ body, (spelledBody c e.scope e.span body).docLines = body.docLines := by
    intro body
    cases body <;> simp only [spelledBody, DeclBody.docLines, List.flatMap_map] <;> rfl
  rw [Decl.docLines, spelledDecl, members, Catalog.Entry.docLines]

end

end Canonical

/-! ## Whole schemas -/

/-- Items that can be written one after another, in two parts. -/
theorem ItemsPrintable.append (pre : ItemsPrintable ns fst)
    (post : ItemsPrintable (fst.foldl Item.scopeAfter ns) snd) :
    ItemsPrintable ns (fst ++ snd) := by
  induction pre with
  | nil => exact post
  | cons head _ ih => exact .cons head (ih post)

/-- Items that leave the scope alone can be written in any order. -/
theorem ItemsPrintable.map {elems : List α} (still : ∀ elem, (toItem elem).scopeAfter ns = ns)
    (prints : ∀ elem ∈ elems, (toItem elem).Printable ns) :
    ItemsPrintable ns (elems.map toItem) := by
  induction elems with
  | nil => exact .nil
  | cons hd rest ih =>
    refine .cons (prints hd List.mem_cons_self) ?_
    rw [still]
    exact ih fun elem mem => prints elem (List.mem_cons_of_mem _ mem)

namespace Canonical

variable {c : Catalog}

theorem scope_of_mem_module {group : Catalog.Module} (reg : group.Regular c)
    (mem : e ∈ group.ids.filterMap c.entry?) :
    e ∈ c.entries ∧ e.scope = scopeParts group.scope := by
  rcases List.mem_filterMap.mp mem with ⟨id, listed, stands⟩
  rcases reg.entries id listed with ⟨own, hit, ns⟩
  cases stands.symm.trans hit
  exact ⟨List.mem_of_getElem? hit, ns⟩

theorem printable_spelledModules (place : Span) {modules : List Catalog.Module}
    (reg : ∀ group ∈ modules, group.Regular c)
    (prints : ∀ e ∈ c.entries, (spelledDecl c e).Printable e.scope) :
    ItemsPrintable ns (spelledModules c place ns modules) := by
  induction modules generalizing ns with
  | nil => exact .nil
  | cons group rest ih =>
    have own := reg group List.mem_cons_self
    have entered : ItemsPrintable ns (entering place ns (scopeParts group.scope)) := by
      unfold entering
      split
      · exact .nil
      · exact .cons own.areNames .nil
    refine .append (.append entered ?_) ?_
    · rw [foldl_entering]
      refine .map (fun _ => rfl) ?_
      intro e fits
      rcases scope_of_mem_module own fits with ⟨listed, sameScope⟩
      have all := prints e listed
      rw [sameScope] at all
      exact all
    · rw [List.foldl_append, foldl_entering, foldl_scopeAfter_map fun _ => rfl]
      exact ih fun later mem => reg later (List.mem_cons_of_mem _ mem)

/-- The items of a catalog can be written down, if its declarations can. -/
theorem printable_spelledItems (spells : c.Spellable) (closed : c.Closed) (place : Span)
    (prints : ∀ e ∈ c.entries, (spelledDecl c e).Printable e.scope) :
    ItemsPrintable [] (spelledItems c place) := by
  have directives : ItemsPrintable (lastScope [] c.modules) (spelledDirectives c place) := by
    refine .append (.append (.map (fun _ => rfl) ?_) ?_) ?_
    · intro id root
      rcases Catalog.entry?_of_kind? (closed.rootIsTable id (Option.mem_toList.mp root)) with
        ⟨e, stands, _⟩
      exact ⟨isPath_spelling spells stands, rfl⟩
    · exact .map (fun _ => rfl) fun _ _ => trivial
    · exact .map (fun _ => rfl) fun _ _ => trivial
  refine .append (.append (.map (fun _ => rfl) fun _ _ => trivial) ?_) ?_
  · rw [foldl_scopeAfter_map fun _ => rfl]
    exact printable_spelledModules place spells.modules prints
  · rw [List.foldl_append, foldl_scopeAfter_map fun _ => rfl, foldl_spelledModules]
    exact directives

/-- All documentation of the items is that of an entry. -/
theorem docLines_of_mem_spelledItems (spells : c.Spellable)
    (mem : item ∈ spelledItems c place) (isLine : line ∈ item.docLines) :
    ∃ e ∈ c.entries, line ∈ e.docLines := by
  cases item with
  | declaration decl =>
    have declared : decl ∈ (spelledItems c place).filterMap Item.decl? :=
      List.mem_filterMap.mpr ⟨_, mem, rfl⟩
    rw [filterMap_decl?_spelledItems] at declared
    rcases List.mem_map.mp declared with ⟨e, listed, rfl⟩
    refine ⟨e, spells.listedEntries_perm.mem_iff.mp listed, ?_⟩
    rw [← docLines_spelledDecl]
    exact isLine
  | includeFile | enterScope | declareAttribute | rootType | fileIdentifier | fileExtension =>
    cases isLine

end Canonical

namespace Catalog

/--
The canonical schema of the catalog of parsed schemas is read back from its text, if no field type
in it is misread and no documentation has a carriage return.
-/
theorem Keeps.parse_spelledItems (keeps : Keeps ctx c) (closed : Closed c)
    (legible : ∀ sym ∈ ctx.symbols.entries, sym.decl.Legible)
    (types :
      ∀ e ∈ c.entries, ∀ ty ∈ e.body.memberTypes,
        (Canonical.spelledType c e.scope e.span ty).Printable)
    (noReturn : ∀ e ∈ c.entries, ∀ line ∈ e.docLines, '\r' ∉ line.toList)
    (plain : style.Plain) (place : Span) (path : Text) :
    ∃ again,
      Source.parse ⟨path, printItems style (Canonical.spelledItems c place)⟩ = ⟨some again, []⟩ ∧
        again.path = path ∧
          again.items.map Item.unplaced = (Canonical.spelledItems c place).map Item.unplaced := by
  have spells := keeps.spellable legible
  have src : ∀ e ∈ c.entries, ∃ sym, Check.KeepsEntry ctx sym e ∧ sym.decl.Legible := by
    intro e mem
    rcases exists_mem_of_forall₂ keeps.entries mem with ⟨sym, fits, kept⟩
    exact ⟨sym, kept, legible sym fits⟩
  refine parse_printItems plain ?_ ?_ path
  · grind [Canonical.printable_spelledItems, Canonical.printable_spelledDecl]
  · intro item mem line isLine
    rcases Canonical.docLines_of_mem_spelledItems spells mem isLine with
      ⟨e, listed, fits⟩
    refine ⟨?_, noReturn e listed line fits⟩
    rcases src e listed with ⟨sym, ⟨body, rfl, kept⟩, readable⟩
    refine readable.unbroken line ?_
    rw [Decl.docLines, ← kept.docLines_eq]
    exact fits

end Catalog

end FlatSchema

import FlatSchema.Proofs.CheckedStructs
import FlatSchema.Proofs.IncludeClosure

/-!
# Merging in any order

Schemas are merged by the order of their paths, so it does not matter in which
order they are given: the symbols, their numbers, the catalog and all that is
reported are the same.  A declaration of a set of schemas either has a symbol
or is reported, once, because an earlier one has taken its name.
-/

namespace FlatSchema

theorem Schema.sortByPath_eq_of_perm (perm : schemas.Perm others)
    (apart : (schemas.map Schema.path).Nodup) : sortByPath schemas = sortByPath others :=
  Text.sorted_eq_of_perm Schema.path perm apart

namespace SymbolTable

variable (t : SymbolTable)

/-- A diagnostic at the place of a declaration says which symbol has taken its name. -/
def Reports (decl : Decl) (diagnostic : Diagnostic) : Prop :=
  ∃ owner ∈ t.entries, owner.fullName = qualify decl.scope decl.name ∧
    diagnostic =
      (Problem.duplicateDeclaration owner.fullName owner.decl.span.locate).diagnostic decl.span

theorem Reports.mono {t larger : SymbolTable} (within : t.entries ⊆ larger.entries)
    (reports : Reports t decl diagnostic) : Reports larger decl diagnostic := by
  grind [Reports]

/-- One declaration more either gets a symbol or is reported. -/
theorem declare_cases (decl : Decl) :
    ((t.declare decl).value.entries.map Symbol.decl = t.entries.map Symbol.decl ++ [decl] ∧
        (t.declare decl).diagnostics = []) ∨
      (t.declare decl).value = t ∧
        ∃ diagnostic, (t.declare decl).diagnostics = [diagnostic] ∧ Reports t decl diagnostic := by
  unfold declare
  simp only
  split
  · next owner hit =>
      have named : owner.fullName = qualify decl.scope decl.name := by
        simpa using List.find?_some hit
      refine .inr ⟨rfl, _, rfl, owner, List.mem_of_find?_eq_some hit, named, ?_⟩
      rw [named]
  · exact .inl ⟨List.map_append, rfl⟩

theorem subset_declare (decl : Decl) : t.entries ⊆ (t.declare decl).value.entries := by
  unfold declare
  simp only
  split
  · exact List.Subset.refl _
  · exact List.subset_append_left _ _

/-- Of the declarations that are added to a table some get symbols, in order, and each other one
is reported once. -/
theorem through_declare_spec (decls : List Decl) :
    ∃ kept dropped : List Decl,
      decls.Perm (kept ++ dropped) ∧
        (Report.through declare t decls).value.entries.map Symbol.decl =
          t.entries.map Symbol.decl ++ kept ∧
        t.entries ⊆ (Report.through declare t decls).value.entries ∧
          List.Forall₂ (Reports (Report.through declare t decls).value) dropped
            (Report.through declare t decls).diagnostics := by
  induction decls generalizing t with
  | nil => exact ⟨[], [], .nil, (List.append_nil _).symm, List.Subset.refl _, .nil⟩
  | cons hd rest ih =>
    rcases ih (t.declare hd).value with ⟨kept, dropped, perm, es, within, reported⟩
    rw [Report.through_cons, Report.value_bind, Report.diagnostics_bind]
    have grown := List.Subset.trans (subset_declare t hd) within
    rcases declare_cases t hd with ⟨added, quiet⟩ | ⟨same, diagnostic, report, reports⟩
    · refine ⟨hd :: kept, dropped, perm.cons hd, ?_, grown, ?_⟩
      · rw [es, added, List.append_assoc, List.singleton_append]
      · rw [quiet]
        exact reported
    · refine ⟨kept, hd :: dropped, ?_, ?_, grown, ?_⟩
      · exact (perm.cons hd).trans List.perm_middle.symm
      · rw [es, same]
      · rw [report]
        exact .cons (reports.mono grown) reported

/-- Names lead to the numbers of the symbols that have them, and to nothing else. -/
theorem Regular.find?_eq_some_iff {t : SymbolTable} (reg : t.Regular) {id : Nat} :
    t.find? name = some id ↔ ∃ sym ∈ t.entries, sym.fullName = name ∧ sym.id = id := by
  constructor
  · grind [getElem?_of_find?, id_eq, List.mem_of_getElem?]
  · grind [id_eq, find?_of_getElem?, List.getElem?_of_mem]

/-- Schemas of different paths are merged in one way, in whatever order they are given.

The symbol table with its report, the verdict and what is reported of the schemas are the same for
every order.  The numbers count the symbols from zero, names lead to the numbers of the symbols
that have them, no two symbols share a name, and the declarations of the schemas are those of the
symbols and those that are reported as duplicates, one report for each, at its place. -/
theorem merge_any_order {schemas others : List Schema} (perm : schemas.Perm others)
    (apart : (schemas.map Schema.path).Nodup) :
    ofSchemas others = ofSchemas schemas ∧
      (∀ symbols entry earlier,
        Catalog.ofSymbols others symbols entry earlier =
          Catalog.ofSymbols schemas symbols entry earlier) ∧
      let table := (ofSchemas schemas).value
      table.entries.map Symbol.id = List.range table.entries.length ∧
        (∀ name id, table.find? name = some id ↔
          ∃ symbol ∈ table.entries, symbol.fullName = name ∧ symbol.id = id) ∧
        (∀ symbol ∈ table.entries,
          symbol.fullName = qualify symbol.decl.scope symbol.decl.name) ∧
        (table.entries.map Symbol.fullName).Nodup ∧
        ∃ dropped : List Decl,
          (schemas.flatMap Schema.decls).Perm (table.entries.map Symbol.decl ++ dropped) ∧
            List.Forall₂ (Reports table) dropped (ofSchemas schemas).diagnostics := by
  have sorted := Schema.sortByPath_eq_of_perm perm apart
  have regular := regular_ofSchemas schemas
  refine ⟨?_, ?_, regular.ids_eq, fun _ _ => regular.find?_eq_some_iff, regular.fullName_eq,
    regular.nodup_fullNames, ?_⟩
  · rw [ofSchemas, ofSchemas, mergedDecls, mergedDecls, sorted]
  · intro symbols entry earlier
    rw [Catalog.ofSymbols, Catalog.ofSymbols, sorted]
  · rcases through_declare_spec empty (mergedDecls schemas) with
      ⟨kept, dropped, merged, entries, _, reported⟩
    have same : (ofSchemas schemas).value.entries.map Symbol.decl = kept := entries
    refine ⟨dropped, ?_, reported⟩
    rw [same]
    exact ((List.mergeSort_perm schemas _).symm.flatMap_right _).trans merged

/-- Two schemas that declare one name. -/
def twinSchemas : List Schema :=
  ["b", "a"].map fun path =>
    ⟨Text.ofString path, [.declaration ⟨"Twin", [], [], [], .table [], default⟩], default⟩

/-- The two are merged in one way from either order, and one of their declarations is dropped. -/
theorem merge_any_order_twins :
    (twinSchemas.map Schema.path).Nodup ∧ ofSchemas twinSchemas.reverse = ofSchemas twinSchemas ∧
      ∃ dropped : List Decl,
        (twinSchemas.flatMap Schema.decls).Perm
            ((ofSchemas twinSchemas).value.entries.map Symbol.decl ++ dropped) ∧
          List.Forall₂ (Reports (ofSchemas twinSchemas).value) dropped
            (ofSchemas twinSchemas).diagnostics := by
  have apart : (twinSchemas.map Schema.path).Nodup := by decide
  rcases merge_any_order (List.reverse_perm twinSchemas).symm apart with
    ⟨same, _, _, _, _, _, split⟩
  exact ⟨apart, same, split⟩

end SymbolTable

end FlatSchema

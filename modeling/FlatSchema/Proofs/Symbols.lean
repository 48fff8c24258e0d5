import FlatSchema.Proofs.Report
import FlatSchema.Symbols

/-!
# Symbol tables of schemas

In the symbol table of a set of schemas every declaration stands at the place
of its number, is known by its qualified name, and no two share a name.  So a
type name that resolves leads to a declaration of the table.
-/

namespace FlatSchema

variable {t : SymbolTable} {name : String} {ns : List String}

theorem Report.value_through (step : σ → α → Report σ) (s : σ) (elems : List α) :
    (Report.through step s elems).value = elems.foldl (fun s elem => (step s elem).value) s := by
  induction elems generalizing s with
  | nil => rfl
  | cons hd rest ih =>
    rw [Report.through_cons, Report.value_bind, ih, List.foldl_cons]

theorem Schema.sortByPath_singleton (sch : Schema) : sortByPath [sch] = [sch] :=
  List.mergeSort_singleton sch

namespace SymbolTable

/-- What numbering by declaration order gives. -/
structure Regular (t : SymbolTable) : Prop where
  id_eq : ∀ {id : Nat} {sym : Symbol}, t.entries[id]? = some sym → sym.id = id
  fullName_eq : ∀ sym ∈ t.entries, sym.fullName = qualify sym.decl.scope sym.decl.name
  nodup_fullNames : (t.entries.map Symbol.fullName).Nodup

theorem regular_empty : empty.Regular where
  id_eq := by
    intro id sym hit
    simp [empty] at hit
  fullName_eq := by
    intro sym mem
    simp [empty] at mem
  nodup_fullNames := List.nodup_nil

/-- Adding a declaration keeps the numbering. -/
theorem Regular.declare (reg : t.Regular) (decl : Decl) : (t.declare decl).value.Regular := by
  unfold SymbolTable.declare
  simp only
  split
  · exact reg
  · next fresh =>
      have unused : qualify decl.scope decl.name ∉ t.entries.map Symbol.fullName := by
        grind [qualify, symbol?]
      refine ⟨?_, ?_, ?_⟩
      · intro id sym hit
        simp only [Report.value_pure] at hit
        rcases Nat.lt_or_ge id t.entries.length with fits | beyond
        · rw [List.getElem?_append_left fits] at hit
          exact reg.id_eq hit
        · grind
      · intro sym mem
        simp only [Report.value_pure, List.mem_append, List.mem_singleton] at mem
        rcases mem with old | rfl
        · exact reg.fullName_eq sym old
        · rfl
      · simp only [Report.value_pure, List.map_append, List.map_singleton]
        rw [List.nodup_append]
        refine ⟨reg.nodup_fullNames, by simp, ?_⟩
        intro old oldMember new newMember equal
        rw [List.mem_singleton] at newMember
        rw [equal, newMember] at oldMember
        exact unused oldMember

/-- The symbol table of every set of schemas is regular. -/
theorem regular_ofSchemas (schemas : List Schema) : (ofSchemas schemas).value.Regular := by
  rw [ofSchemas, Report.value_through]
  suffices general :
      ∀ (decls : List Decl) (t : SymbolTable), t.Regular →
        (decls.foldl (fun t decl => (declare t decl).value) t).Regular from
    general _ _ regular_empty
  intro decls
  induction decls with
  | nil =>
    intro t reg
    exact reg
  | cons hd rest ih =>
    intro t reg
    exact ih _ (reg.declare hd)

/-- A name that is found belongs to an entry at the place of its number. -/
theorem Regular.getElem?_of_find? (reg : t.Regular) {fullName : String} {id : Nat}
    (hit : t.find? fullName = some id) :
    ∃ sym, t.entries[id]? = some sym ∧ sym.fullName = fullName := by
  rw [find?, Option.map_eq_some_iff] at hit
  rcases hit with ⟨sym, hit, rfl⟩
  rcases List.getElem?_of_mem (List.mem_of_find?_eq_some hit) with ⟨place, stands⟩
  refine ⟨sym, ?_, ?_⟩
  · rw [reg.id_eq stands]
    exact stands
  · simpa using List.find?_some hit

/-- Looking a name up in scopes leads to an entry or to none. -/
theorem Regular.getElem?_of_resolveIn (reg : t.Regular)
    {id : Nat} (hit : t.resolveIn name tried scopes = .resolved id) :
    ∃ sym, t.entries[id]? = some sym := by
  induction scopes generalizing tried with
  | nil =>
    grind [getElem?_of_find?, resolveIn]
  | cons ns outer ih =>
    rw [resolveIn] at hit
    split at hit
    · next cand known =>
        have same : cand = id := by
          unfold settle at hit
          split at hit
          · grind
          · cases hit
            rfl
        grind [getElem?_of_find?]
    · exact ih hit

/-- A type name that resolves leads to an entry of the table. -/
theorem Regular.getElem?_of_resolve (reg : t.Regular) {id : Nat}
    (hit : t.resolve name ns = .resolved id) : ∃ sym, t.entries[id]? = some sym :=
  reg.getElem?_of_resolveIn hit

/-- A clean look-up has found a declaration. -/
theorem resolve_of_clean (clean : (t.resolved name ns span).Clean) :
    ∃ id, t.resolve name ns = .resolved id ∧ (t.resolved name ns span).value = some id := by
  unfold resolved at clean ⊢
  cases resolution : t.resolve name ns with
  | resolved id => exact ⟨id, rfl, rfl⟩
  | ambiguous relative absolute => simp [resolution] at clean
  | unresolved tried => simp [resolution] at clean

/-- The kind of a declaration is known exactly where there is one. -/
theorem kind?_eq_some_iff {id : Nat} :
    t.kind? id = some kind ↔ ∃ sym, t.entries[id]? = some sym ∧ sym.decl.kind = kind := by
  simp [kind?]

/-- Declarations of distinct names are all added, and nothing is reported. -/
theorem through_declare_of_nodup (distinct :
      (t.entries.map Symbol.fullName ++ decls.map fun decl => qualify decl.scope decl.name).Nodup) :
    (Report.through declare t decls).diagnostics = [] ∧
      (Report.through declare t decls).value.entries.map Symbol.decl =
        t.entries.map Symbol.decl ++ decls := by
  induction decls generalizing t with
  | nil => exact ⟨rfl, (List.append_nil _).symm⟩
  | cons hd rest ih =>
    have fresh : t.symbol? (qualify hd.scope hd.name) = none := by
      rw [symbol?, List.find?_eq_none]
      intro sym mem named
      exact (List.nodup_append.mp distinct).2.2 _ (List.mem_map_of_mem mem) _
        (List.mem_map_of_mem List.mem_cons_self) (eq_of_beq named)
    have added :
        t.declare hd = ⟨⟨t.entries ++ [⟨t.entries.length, qualify hd.scope hd.name, hd⟩]⟩, []⟩ := by
      unfold declare
      simp only [fresh]
      rfl
    simp_all [Report.through_cons]

/-- Schemas whose declarations have distinct names give a symbol to each. -/
theorem ofSchemas_of_nodup
    (distinct : ((mergedDecls schemas).map fun decl => qualify decl.scope decl.name).Nodup) :
    (ofSchemas schemas).diagnostics = [] ∧
      (ofSchemas schemas).value.entries.map Symbol.decl = mergedDecls schemas :=
  through_declare_of_nodup (by simpa [empty] using distinct)

/-! ## What a name resolves to -/

theorem Regular.fullName_of_find? (reg : t.Regular) {id : Nat} (hit : t.find? name = some id) :
    t.fullName id = name := by
  grind [getElem?_of_find?, fullName]

theorem find?_eq_none_iff : t.find? name = none ↔ name ∉ t.entries.map Symbol.fullName := by
  rw [find?, symbol?]
  simp

/-- The declaration of a number is found under its name. -/
theorem Regular.find?_of_getElem? (reg : t.Regular) {id : Nat}
    (stands : t.entries[id]? = some sym) : t.find? sym.fullName = some id := by
  cases hit : t.find? sym.fullName with
  | none =>
    rw [find?_eq_none_iff] at hit
    exact absurd (List.mem_map_of_mem (List.mem_of_getElem? stands)) hit
  | some other =>
    rcases reg.getElem?_of_find? hit with ⟨own, standsToo, named⟩
    have same : (t.entries.map Symbol.fullName)[id]? = (t.entries.map Symbol.fullName)[other]? := by
      grind
    grind [nodup_fullNames, List.length_map, List.getElem?_inj]

/-- In the outermost scope a name means the declaration that has it. -/
theorem resolve_outermost_iff {id : Nat} :
    t.resolve name [] = .resolved id ↔ t.find? name = some id := by
  rw [resolve, enclosing, List.length_nil, List.range_zero, List.map_nil, resolveIn]
  grind

theorem eq_of_settle {id : Nat} (settled : t.settle name cand id = .resolved other) :
    other = id := by
  grind [settle]

/-- A scope around a name makes it longer. -/
theorem qualify_ne (full : ns ≠ []) (name : String) : qualify ns name ≠ name := by
  intro same
  have lengths := congrArg String.length same
  rw [qualify, if_neg (by simpa using full), String.length_append, String.length_append] at lengths
  have dot : ".".length = 1 := rfl
  omega

theorem ne_nil_of_mem_enclosing (mem : outer ∈ enclosing ns) : outer ≠ [] := by
  rcases List.mem_map.mp mem with ⟨depth, fits, rfl⟩
  intro empty
  have none := congrArg List.length empty
  grind

/-- A name that is declared as written means that declaration exactly where no scope around the
place has a declaration of that name. -/
theorem Regular.resolve_literal_iff (reg : t.Regular)
    (known : t.find? name = some lit) (ns : List String) :
    (∃ id, t.resolve name ns = .resolved id ∧ t.fullName id = name) ↔
      ∀ outer ∈ enclosing ns, t.find? (qualify outer name) = none := by
  suffices general :
      ∀ (scopes : List (List String)) (tried : List String), (∀ outer ∈ scopes, outer ≠ []) →
        ((∃ id, t.resolveIn name tried scopes = .resolved id ∧ t.fullName id = name) ↔
          ∀ outer ∈ scopes, t.find? (qualify outer name) = none) from
    general _ _ fun _ mem => ne_nil_of_mem_enclosing mem
  intro scopes
  induction scopes with
  | nil =>
    intro tried _
    rw [resolveIn, known]
    exact ⟨fun _ => by simp, fun _ => ⟨lit, rfl, reg.fullName_of_find? known⟩⟩
  | cons ns outer ih =>
    intro tried full
    rw [resolveIn]
    cases hit : t.find? (qualify ns name) with
    | none =>
      simp only [List.forall_mem_cons, hit, true_and]
      exact ih _ fun other mem => full other (List.mem_cons_of_mem _ mem)
    | some id =>
      simp only [List.forall_mem_cons, hit, reduceCtorEq, false_and, iff_false]
      rintro ⟨other, settled, named⟩
      rw [eq_of_settle settled, reg.fullName_of_find? hit] at named
      exact qualify_ne (full ns List.mem_cons_self) name named

/-- A name without dots that is declared in the scope in effect means that declaration. -/
theorem resolve_own {id : Nat} (dotless : '.' ∉ name.toList)
    (hit : t.find? (qualify ns name) = some id) : t.resolve name ns = .resolved id := by
  cases ns with
  | nil =>
    have lit : t.find? name = some id := hit
    rw [resolve, show enclosing [] = [] from rfl, resolveIn, lit]
  | cons hd rest =>
    have innermost : ∃ outer, enclosing (hd :: rest) = (hd :: rest) :: outer := by
      refine ⟨((List.range rest.length).map Nat.succ).map fun depth =>
        (hd :: rest).take (rest.length + 1 - depth), ?_⟩
      rw [enclosing, List.length_cons, List.range_succ_eq_map]
      exact congrArg (· :: _) (List.take_length (l := hd :: rest))
    grind [resolve, resolveIn, settle]

end SymbolTable

end FlatSchema

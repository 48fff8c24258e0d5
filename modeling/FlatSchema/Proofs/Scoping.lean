import FlatSchema.Proofs.Symbols
import Mathlib.Data.List.Infix
import Mathlib.Data.List.Nodup

/-!
# The scope of a name

A type name means the declaration of the deepest scope around its place that
has one of that name, the outermost scope included.  A dotted name that is
also the full name of a declaration is ambiguous as soon as an inner scope has
one, and a name that no scope has is reported with every full name it could
have had, the deepest first.
-/

namespace FlatSchema

variable {t : SymbolTable} {name : String} {ns p q : List String}

/-- A full name is its scopes, each with a dot behind it, and the name. -/
theorem toList_qualify (ns : List String) (name : String) :
    (qualify ns name).toList = ns.flatMap (fun part => part.toList ++ ['.']) ++ name.toList := by
  cases ns with
  | nil => rfl
  | cons hd rest =>
    rw [qualify, if_neg (by simp), String.toList_append, String.toList_append,
      String.toList_intercalate]
    congr 1
    induction rest generalizing hd with
    | nil => simp [List.intercalate]
    | cons snd rest ih => simpa [List.intercalate] using ih snd

/-- Different scopes around one place give a name different full names. -/
theorem eq_of_qualify_eq (fst : p <+: ns) (snd : q <+: ns)
    (same : qualify p name = qualify q name) : p = q := by
  have longer {p q : List String} (inside : p <+: q) (same : qualify p name = qualify q name) :
      p = q := by
    rcases inside with ⟨rest, rfl⟩
    have lengths := congrArg (fun text => text.toList.length) same
    simp only [toList_qualify, List.flatMap_append, List.length_append] at lengths
    cases rest with
    | nil => simp
    | cons hd rest => simp at lengths
  rcases List.prefix_or_prefix_of_prefix fst snd with inside | inside
  · exact longer inside same
  · exact (longer inside same.symm).symm

namespace SymbolTable

/-- A declaration has the full name. -/
def Declares (t : SymbolTable) (fullName : String) : Prop :=
  ∃ sym ∈ t.entries, sym.fullName = fullName

/-- The longest scope around a place in which a name is declared. -/
structure Deepest (t : SymbolTable) (name : String) (ns p : List String) : Prop where
  inside : p <+: ns
  declares : t.Declares (qualify p name)
  longest : ∀ q, q <+: ns → t.Declares (qualify q name) → q.length ≤ p.length

/-- A dotted name that is a full name and also declared in an inner scope. -/
def Clashes (t : SymbolTable) (name : String) (ns : List String) : Prop :=
  '.' ∈ name.toList ∧ t.Declares name ∧ ∃ p, p <+: ns ∧ p ≠ [] ∧ t.Declares (qualify p name)

/-- The full names that a name could have, the deepest first. -/
def candidates (name : String) (ns : List String) : List String :=
  ns.inits.reverse.map (qualify · name)

theorem declares_iff : t.Declares name ↔ ∃ id, t.find? name = some id := by
  rw [← Option.isSome_iff_exists, Option.isSome_iff_ne_none, Ne, find?_eq_none_iff, not_not,
    List.mem_map, Declares]

theorem not_declares_iff : ¬ t.Declares name ↔ t.find? name = none := by
  rw [declares_iff, ← Option.isSome_iff_exists, Option.not_isSome_iff_eq_none]

theorem nodup_candidates (name : String) (ns : List String) : (candidates name ns).Nodup := by
  refine List.Nodup.map_on ?_ (List.nodup_reverse.mpr ?_)
  · intro p mem q other same
    rw [List.mem_reverse, List.mem_inits] at mem other
    exact eq_of_qualify_eq mem other same
  · refine List.Nodup.of_map List.length ?_
    have lengths : ns.inits.map List.length = List.range (ns.length + 1) := by
      refine List.ext_getElem (by simp) fun place _ fits => ?_
      rw [List.length_range] at fits
      simp only [List.getElem_map, List.getElem_inits, List.getElem_range, List.length_take]
      omega
    exact lengths ▸ List.nodup_range

theorem enclosing_append (ns : List String) : enclosing ns ++ [[]] = ns.inits.reverse := by
  refine List.ext_getElem (by simp [enclosing]) fun place fits _ => ?_
  rw [List.getElem_append]
  simp_all [enclosing]

theorem mem_enclosing_iff : p ∈ enclosing ns ↔ p <+: ns ∧ p ≠ [] := by
  have inner : p ∈ enclosing ns → p ≠ [] := ne_nil_of_mem_enclosing
  have all : p ∈ enclosing ns ++ [[]] ↔ p <+: ns := by
    rw [enclosing_append, List.mem_reverse, List.mem_inits]
  grind

theorem pairwise_enclosing (ns : List String) :
    (enclosing ns).Pairwise fun p q => q.length ≤ p.length := by
  rw [enclosing, List.pairwise_map]
  refine List.pairwise_lt_range.imp fun deeper => ?_
  simp only [List.length_take]
  omega

/-- Scopes without the name are passed. -/
theorem resolveIn_append (scopes : List (List String))
    (absent : ∀ p ∈ front, t.find? (qualify p name) = none) (tried : List String) :
    t.resolveIn name tried (front ++ scopes) =
      t.resolveIn name (tried ++ front.map (qualify · name)) scopes := by
  induction front generalizing tried with
  | nil => simp
  | cons p front ih =>
    rcases List.forall_mem_cons.mp absent with ⟨missing, absent⟩
    rw [List.cons_append, resolveIn]
    simp only [missing]
    rw [ih absent, List.map_cons, List.append_assoc, List.singleton_append]

/-- What an inner scope has is ambiguous exactly if the name is dotted and a full name. -/
theorem Regular.settle_eq (reg : t.Regular) (full : p ≠ []) {id : Nat}
    (hit : t.find? (qualify p name) = some id) :
    '.' ∈ name.toList ∧ t.Declares name ∧
        t.settle name (qualify p name) id = .ambiguous (qualify p name) name ∨
      ¬ ('.' ∈ name.toList ∧ t.Declares name) ∧
        t.settle name (qualify p name) id = .resolved id := by
  by_cases dotted : '.' ∈ name.toList
  · cases lit : t.find? name with
    | none =>
      have unknown := not_declares_iff.mpr lit
      exact .inr ⟨fun both => unknown both.2, by simp [settle, lit]⟩
    | some other =>
      have differ : other ≠ id := by
        rintro rfl
        exact qualify_ne full name (reg.fullName_of_find? hit ▸ reg.fullName_of_find? lit)
      exact .inl ⟨dotted, declares_iff.mpr ⟨other, lit⟩, by simp [settle, lit, dotted, differ]⟩
  · exact .inr ⟨fun both => dotted both.1, by simp [settle, dotted]⟩

/-- A name is looked up in the deepest scope that has it, or nowhere. -/
theorem resolve_cases (name : String) (ns : List String) :
    (∃ p id, t.Deepest name ns p ∧ p ≠ [] ∧ t.find? (qualify p name) = some id ∧
        t.resolve name ns = t.settle name (qualify p name) id) ∨
      (∀ p, p <+: ns → p ≠ [] → ¬ t.Declares (qualify p name)) ∧
        t.resolve name ns = t.resolveIn name ((enclosing ns).map (qualify · name)) [] := by
  cases hit : (enclosing ns).find? fun p => (t.find? (qualify p name)).isSome with
  | none =>
    have absent (p) (mem : p ∈ enclosing ns) : t.find? (qualify p name) = none := by
      simpa using List.find?_eq_none.mp hit p mem
    refine .inr ⟨fun p inside full => ?_, ?_⟩
    · exact not_declares_iff.mpr (absent p (mem_enclosing_iff.mpr ⟨inside, full⟩))
    · simpa [resolve] using resolveIn_append [] absent []
  | some p =>
    rw [List.find?_eq_some_iff_append] at hit
    rcases hit with ⟨isKnown, front, back, scopes, absent⟩
    rcases Option.isSome_iff_exists.mp isKnown with ⟨id, known⟩
    rcases mem_enclosing_iff.mp (scopes ▸ by simp : p ∈ enclosing ns) with ⟨inside, full⟩
    refine .inl ⟨p, id, ⟨inside, declares_iff.mpr ⟨id, known⟩, ?_⟩, full, known, ?_⟩
    · intro q other declares
      by_cases outermost : q = []
      · simp [outermost]
      have mem := mem_enclosing_iff.mpr ⟨other, outermost⟩
      rw [scopes] at mem
      rcases List.mem_append.mp mem with before | later
      · exact absurd (not_declares_iff.mpr (by simpa using absent q before)) (not_not.mpr declares)
      · have ordered := scopes ▸ pairwise_enclosing ns
        rcases List.mem_cons.mp later with rfl | later
        · exact Nat.le_refl _
        · exact (List.pairwise_cons.mp (List.pairwise_append.mp ordered).2.1).1 q later
    simp_all [resolve, resolveIn_append, resolveIn]

theorem Deepest.unique (one : t.Deepest name ns p) (two : t.Deepest name ns q) : p = q := by
  have lengths := Nat.le_antisymm (two.longest p one.inside one.declares)
    (one.longest q two.inside two.declares)
  rw [List.prefix_iff_eq_take.mp one.inside, List.prefix_iff_eq_take.mp two.inside, lengths]

/-- A symbol of a deepest full name is the one that is found under it. -/
theorem Regular.find?_of_deepest (reg : t.Regular) (one : t.Deepest name ns p)
    (two : t.Deepest name ns q) {id : Nat} (stands : t.entries[id]? = some sym)
    (named : sym.fullName = qualify q name) : t.find? (qualify p name) = some id := by
  rw [one.unique two, ← named]
  exact reg.find?_of_getElem? stands

/-- What a name means: an ambiguity, the declaration of the deepest scope, or nothing. -/
inductive Means (t : SymbolTable) (name : String) (ns : List String) : Resolution → Prop where
  | ambiguous {p : List String} (clashes : t.Clashes name ns) (deepest : t.Deepest name ns p) :
      Means t name ns (.ambiguous (qualify p name) name)
  | resolved {p : List String} {id : Nat} {sym : Symbol} (clear : ¬ t.Clashes name ns)
      (deepest : t.Deepest name ns p) (stands : t.entries[id]? = some sym)
      (named : sym.fullName = qualify p name) : Means t name ns (.resolved id)
  | unresolved (absent : ∀ p, p <+: ns → ¬ t.Declares (qualify p name)) :
      Means t name ns (.unresolved (candidates name ns))

theorem Regular.means_resolve (reg : t.Regular) (name : String) (ns : List String) :
    Means t name ns (t.resolve name ns) := by
  rcases resolve_cases (t := t) name ns with ⟨p, id, deepest, full, hit, same⟩ | ⟨absent, same⟩
  · rw [same]
    rcases reg.getElem?_of_find? hit with ⟨sym, stands, named⟩
    rcases reg.settle_eq full hit with ⟨dotted, lit, same⟩ | ⟨clear, same⟩
    · rw [same]
      exact .ambiguous ⟨dotted, lit, p, deepest.inside, full, deepest.declares⟩ deepest
    · rw [same]
      exact .resolved (fun clash => clear ⟨clash.1, clash.2.1⟩) deepest stands named
  · rw [same, resolveIn]
    split
    · next id hit =>
        rcases reg.getElem?_of_find? hit with ⟨sym, stands, named⟩
        refine .resolved (p := []) ?_ ⟨List.nil_prefix, declares_iff.mpr ⟨id, hit⟩, ?_⟩ stands named
        · rintro ⟨_, _, p, inside, full, declares⟩
          exact absent p inside full declares
        grind
    · next unknown =>
        have tried : (enclosing ns).map (qualify · name) ++ [name] = candidates name ns := by
          rw [candidates, ← enclosing_append, List.map_append]
          rfl
        rw [tried]
        refine .unresolved fun p inside => ?_
        by_cases outermost : p = []
        · rw [outermost]
          exact not_declares_iff.mpr unknown
        · exact absent p inside outermost

/-- A name is ambiguous exactly if it clashes, means the declaration of the deepest scope that has
it otherwise, and is unresolved with all its candidates, each once, exactly if no scope has it.
The full name of what it means ends with the name. -/
theorem resolve_scoped (schemas : List Schema) (name : String) (ns : List String) :
    let t := (ofSchemas schemas).value
    ((∃ relative absolute, t.resolve name ns = .ambiguous relative absolute) ↔ t.Clashes name ns) ∧
      (∀ id, t.resolve name ns = .resolved id ↔
        ¬ t.Clashes name ns ∧ ∃ p sym, t.Deepest name ns p ∧ t.entries[id]? = some sym ∧
          sym.fullName = qualify p name) ∧
      (∀ tried, t.resolve name ns = .unresolved tried ↔
        (∀ p, p <+: ns → ¬ t.Declares (qualify p name)) ∧ tried = candidates name ns) ∧
      (candidates name ns).Nodup ∧
      ∀ id sym, t.resolve name ns = .resolved id → t.entries[id]? = some sym →
        name.toList <:+ sym.fullName.toList := by
  intro t
  have reg : t.Regular := regular_ofSchemas schemas
  have means := reg.means_resolve name ns
  generalize t.resolve name ns = resolution at means
  cases means with
  | @ambiguous p clashes deepest =>
    refine ⟨by simp [clashes], by simp [clashes], ?_, nodup_candidates name ns, by simp⟩
    simp only [reduceCtorEq, false_iff]
    exact fun tried absent => absent.1 p deepest.inside deepest.declares
  | @resolved p id sym clear deepest stands named =>
    refine ⟨by simp [clear], fun other => ?_, ?_, nodup_candidates name ns, ?_⟩
    · simp only [Resolution.resolved.injEq, clear, not_false_eq_true, true_and]
      refine ⟨?_, ?_⟩
      · rintro rfl
        exact ⟨p, sym, deepest, stands, named⟩
      · rintro ⟨q, sym, alsoDeepest, alsoStands, alsoNamed⟩
        have one := reg.find?_of_deepest deepest deepest stands named
        have two := reg.find?_of_deepest deepest alsoDeepest alsoStands alsoNamed
        exact Option.some.inj (one.symm.trans two)
    · simp only [reduceCtorEq, false_iff]
      exact fun tried absent => absent.1 p deepest.inside deepest.declares
    · rintro _ other ⟨⟩ found
      cases stands.symm.trans found
      rw [named, toList_qualify]
      exact List.suffix_append _ _
  | unresolved absent =>
    refine ⟨?_, ?_, fun tried => by simpa [eq_comm] using fun _ => absent,
      nodup_candidates name ns, by simp⟩
    · simp only [reduceCtorEq, exists_false, false_iff]
      exact fun clash => absent [] List.nil_prefix clash.2.1
    · simp only [reduceCtorEq, false_iff]
      rintro id ⟨_, p, _, deepest, _⟩
      exact absent p deepest.inside deepest.declares

end SymbolTable

end FlatSchema

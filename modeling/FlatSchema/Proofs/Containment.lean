import FlatSchema.Proofs.Symbols
import FlatSchema.Symbols.Cycle
import Mathlib.Data.List.Chain
import Mathlib.Data.List.Forall2

/-!
# Structs that contain themselves, and those that do not

The search for containment cycles marks structs and lists those that it is done
with.  Each struct of that list directly contains only structs before it, save
where both are marked.  What it marks are the structs of the cycles that it
reports, all of them cycles indeed.

If the search reports nothing, its list puts every struct after all structs
that it directly contains.  Such an order bounds how deep structs nest and
carries every induction over them.
-/

namespace FlatSchema

open CycleSearch

open List (Forall₂)

variable {search : CycleSearch}

namespace SymbolTable

variable {t : SymbolTable}

/-- The numbers of structs of a table. -/
def IsStruct (t : SymbolTable) (id : Nat) : Prop :=
  t.kind? id = some .struct

/-- A struct directly contains another: a field of it has the name of the other as its type. -/
def Holds (t : SymbolTable) (outer inner : Nat) : Prop :=
  ∃ sym fs f name span,
    t.entries[outer]? = some sym ∧ sym.decl.body = .struct fs ∧ f ∈ fs ∧
      f.type = .named name span ∧
      t.resolve name sym.decl.scope = .resolved inner ∧ t.IsStruct inner

theorem heldStruct?_eq_some_iff {id : Nat} :
    t.heldStruct? ns f = some id ↔
      ∃ name span, f.type = .named name span ∧
        t.resolve name ns = .resolved id ∧ t.IsStruct id := by
  unfold heldStruct? TypeExpr.plainName? IsStruct
  grind

theorem mem_contained_iff {outer inner : Nat} :
    inner ∈ t.contained outer ↔ t.Holds outer inner := by
  unfold contained heldStructs Holds
  grind [heldStruct?_eq_some_iff]

theorem isStruct_of_mem_contained {id : Nat} (mem : next ∈ t.contained id) : t.IsStruct next := by
  rcases mem_contained_iff.mp mem with ⟨_, _, _, _, _, _, _, _, _, _, isStruct⟩
  exact isStruct

/-- A list in which every struct stands after the structs that it directly contains. -/
inductive Ordered (t : SymbolTable) : List Nat → Prop where
  | nil : Ordered t []
  | snoc {pre : List Nat} {id : Nat} (ordered : Ordered t pre)
      (held : ∀ next ∈ t.contained id, next ∈ pre) : Ordered t (pre ++ [id])

theorem IsStruct.lt_length {id : Nat} (isStruct : t.IsStruct id) : id < t.entries.length := by
  grind [kind?_eq_some_iff, IsStruct]

/-- The structs of a regular table are those it lists. -/
theorem Regular.mem_structIds (reg : t.Regular) {id : Nat} : id ∈ t.structIds ↔ t.IsStruct id := by
  constructor
  · intro mem
    rcases List.mem_map.mp mem with ⟨sym, fits, rfl⟩
    rcases List.mem_filter.mp fits with ⟨fits, kind⟩
    rcases List.getElem?_of_mem fits with ⟨place, stands⟩
    rw [IsStruct, kind?_eq_some_iff]
    refine ⟨sym, ?_, by simpa using kind⟩
    rw [reg.id_eq stands]
    exact stands
  · intro isStruct
    rcases kind?_eq_some_iff.mp isStruct with ⟨sym, stands, kind⟩
    rw [structIds, List.mem_map]
    refine ⟨sym, List.mem_filter.mpr ⟨List.mem_of_getElem? stands, by simpa using kind⟩, ?_⟩
    exact reg.id_eq stands

/-- An order can be taken of structs only and without repetitions. -/
theorem Ordered.exists_nodup (ordered : t.Ordered order) :
    ∃ distinct : List Nat,
      t.Ordered distinct ∧ distinct.Nodup ∧ ∀ id, id ∈ distinct ↔ id ∈ order ∧ t.IsStruct id := by
  induction ordered with
  | nil => exact ⟨[], .nil, List.nodup_nil, by simp⟩
  | @snoc pre id _ held ih =>
    rcases ih with ⟨distinct, ordered, nodup, same⟩
    by_cases new : t.IsStruct id ∧ id ∉ distinct
    · refine ⟨distinct ++ [id], .snoc ordered ?_, by grind, by grind⟩
      grind [isStruct_of_mem_contained]
    · exact ⟨distinct, ordered, nodup, by grind⟩

/-- What a struct of an order contains stands before it. -/
theorem Ordered.idxOf_lt (ordered : t.Ordered order) (nodup : order.Nodup) {id : Nat}
    (mem : id ∈ order) (contained : next ∈ t.contained id) :
    next ∈ order ∧ order.idxOf next < order.idxOf id := by
  induction ordered with
  | nil => cases mem
  | @snoc pre last _ held ih =>
    grind

/-! ## Cycles -/

/-- Structs each of which directly contains the next, and the last one the first. -/
structure Round (t : SymbolTable) (e : Nat) (cycle : List Nat) : Prop where
  head_eq : cycle.head? = some e
  isChain : List.IsChain t.Holds (cycle ++ [e])

/-- A round of distinct structs. -/
structure Circular (t : SymbolTable) (e : Nat) (cycle : List Nat) : Prop
    extends Round t e cycle where
  nodup : cycle.Nodup

/-- The part of a path that a step from its end leads back to is a cycle with this end. -/
theorem circular_of_path (nodup : path.Nodup) (isChain : List.IsChain t.Holds path)
    (mem : e ∈ path) (closes : ∀ last ∈ path.getLast?, t.Holds last e) :
    t.Circular e (path.dropWhile (· != e)) ∧
      ∀ last ∈ path.getLast?, last ∈ path.dropWhile (· != e) := by
  rcases List.eq_append_cons_of_mem mem with ⟨pre, rest, rfl, absent⟩
  have cycle_eq : (pre ++ e :: rest).dropWhile (· != e) = e :: rest := by
    rw [List.dropWhile_append_of_pos (by grind), List.dropWhile_cons_of_neg (by simp)]
  rw [cycle_eq]
  have last_eq : (pre ++ e :: rest).getLast? = (e :: rest).getLast? :=
    List.getLast?_append_of_ne_nil _ (List.cons_ne_nil _ _)
  rw [last_eq] at closes ⊢
  refine ⟨⟨⟨rfl, ?_⟩, nodup.sublist (List.sublist_append_right _ _)⟩,
    fun _ isLast => List.mem_of_getLast? isLast⟩
  grind [List.isChain_append]

/-- A diagnostic tells a cycle: it stands at the first struct and names all of them in turn. -/
def Tells (t : SymbolTable) (cycle : List Nat) (diagnostic : Diagnostic) : Prop :=
  ∃ e sym, t.Circular e cycle ∧ t.entries[e]? = some sym ∧
    diagnostic =
      (Problem.structCycle sym.fullName ((cycle ++ [e]).map t.fullName)).diagnostic
        sym.decl.span

/-- A list in which every struct stands after the structs that it directly contains, save where
both are marked. -/
inductive Settled (t : SymbolTable) (marked : List Nat) : List Nat → Prop where
  | nil : Settled t marked []
  | snoc {pre : List Nat} {id : Nat} (settled : Settled t marked pre)
      (held : ∀ next ∈ t.contained id, next ∈ pre ∨ id ∈ marked ∧ next ∈ marked) :
      Settled t marked (pre ++ [id])

theorem Settled.mono (settled : t.Settled marked order)
    (grows : marked ⊆ more) : t.Settled more order := by
  induction settled with
  | nil => exact .nil
  | snoc _ held ih => exact .snoc ih (by grind)

theorem Settled.ordered (settled : t.Settled [] order) : t.Ordered order := by
  induction settled with
  | nil => exact .nil
  | snoc _ held ih => exact .snoc ih (by grind)

end SymbolTable

namespace CycleSearch

open SymbolTable

variable {t : SymbolTable}

/-- What a search has found: a report for each of some cycles, no two of which have the same
structs, and the structs of these cycles marked. -/
structure Explores (t : SymbolTable) (search : CycleSearch) : Prop where
  settled : t.Settled search.onCycle search.done
  told :
    ∃ cycles : List (List Nat),
      Forall₂ t.Tells cycles search.diagnostics ∧ search.reported = cycles.map ascending ∧
        search.reported.Nodup ∧ ∀ id, id ∈ search.onCycle ↔ ∃ cycle ∈ cycles, id ∈ cycle

/-- A search that goes on from another: it forgets neither marks nor structs. -/
structure Extends (t : SymbolTable) (search next : CycleSearch) : Prop where
  explores : Explores t next
  marked_subset : search.onCycle ⊆ next.onCycle
  done_subset : search.done ⊆ next.done

theorem Extends.refl (explores : Explores t search) : Extends t search search :=
  ⟨explores, fun _ mem => mem, fun _ mem => mem⟩

theorem Extends.trans (earlier : Extends t fst snd) (later : Extends t snd third) :
    Extends t fst third where
  explores := later.explores
  marked_subset := List.Subset.trans earlier.marked_subset later.marked_subset
  done_subset := List.Subset.trans earlier.done_subset later.done_subset

theorem mem_ascending {id : Nat} : id ∈ ascending ids ↔ id ∈ ids :=
  (List.mergeSort_perm ids _).mem_iff

/-- Noting a cycle marks its structs; it is reported unless one of the same structs has been. -/
theorem extends_note (explores : Explores t search) (circular : t.Circular e cycle)
    (isStruct : t.IsStruct e) :
    Extends t search (note t search e cycle) ∧ cycle ⊆ (note t search e cycle).onCycle := by
  rcases explores with ⟨settled, cycles, told, keys, nodup, union⟩
  have kept : t.Settled (search.onCycle ++ cycle) search.done :=
    settled.mono (List.subset_append_left _ _)
  by_cases known : ascending cycle ∈ search.reported
  · have noted : note t search e cycle = { search with onCycle := search.onCycle ++ cycle } := by
      simp [note, known]
    rw [noted]
    refine ⟨⟨⟨kept, cycles, told, keys, nodup, fun id => ?_⟩, by grind, by grind⟩, by grind⟩
    rw [keys] at known
    rcases List.mem_map.mp known with ⟨other, mem, equal⟩
    have alike : id ∈ cycle ↔ id ∈ other := by rw [← mem_ascending, ← equal, mem_ascending]
    grind
  · rcases kind?_eq_some_iff.mp isStruct with ⟨sym, stands, _⟩
    simp only [note, List.contains_iff_mem, known, if_false, stands]
    refine ⟨⟨⟨kept, cycles ++ [cycle], ?_, by simp [keys], by grind, by grind⟩, by grind, by grind⟩,
      by grind⟩
    exact List.rel_append told (.cons ⟨e, sym, circular, stands, rfl⟩ .nil)

/-- A path of distinct structs is no longer than the table. -/
theorem length_le_of_structs {path : List Nat} (nodup : path.Nodup)
    (structs : ∀ id ∈ path, t.IsStruct id) : path.length ≤ t.entries.length := by
  have fits : path ⊆ List.range t.entries.length := by
    grind [IsStruct.lt_length]
  have shorter := List.Nodup.length_le_of_subset nodup fits
  rwa [List.length_range] at shorter

/-- The step of a walk from the last struct of a path to one that it contains. -/
def visit (t : SymbolTable) (depth : Nat) (path : List Nat) (search : CycleSearch)
    (next : Nat) : CycleSearch :=
  if search.done.contains next then search
  else if path.contains next then note t search next (path.dropWhile (· != next))
  else walk t depth path search next

theorem walk_succ (depth : Nat) (path : List Nat) (search : CycleSearch) (id : Nat) :
    walk t (depth + 1) path search id =
      let searched := (t.contained id).foldl (visit t depth (path ++ [id])) search
      { searched with done := searched.done ++ [id] } :=
  rfl

/-- What a step below a path achieves: it goes on, and it is done with the struct or has marked it
together with the last struct of the path. -/
def Reaches (t : SymbolTable) (path : List Nat) (search next : CycleSearch) (id : Nat) : Prop :=
  Extends t search next ∧
    (id ∈ next.done ∨ ∃ last ∈ path.getLast?, last ∈ next.onCycle ∧ id ∈ next.onCycle)

theorem Reaches.later {id : Nat} (reaches : Reaches t path search mid id)
    (extended : Extends t mid next) : Reaches t path search next id := by
  refine ⟨reaches.1.trans extended, ?_⟩
  grind [extended.marked_subset, extended.done_subset, reaches.2]

/-- Steps to several structs reach all of them. -/
theorem foldl_visit {targets : List Nat}
    (each :
      ∀ next ∈ targets, ∀ search,
        Explores t search → Reaches t path search (visit t depth path search next) next)
    (explores : Explores t search) :
    Extends t search (targets.foldl (visit t depth path) search) ∧
      ∀ next ∈ targets, Reaches t path search (targets.foldl (visit t depth path) search) next := by
  induction targets generalizing search with
  | nil => exact ⟨.refl explores, fun _ mem => nomatch mem⟩
  | cons hd rest ih =>
    have reached := each hd List.mem_cons_self search explores
    rcases ih (fun next mem => each next (List.mem_cons_of_mem _ mem))
      reached.1.explores with ⟨extended, others⟩
    refine ⟨reached.1.trans extended, ?_⟩
    intro next mem
    rcases List.mem_cons.mp mem with rfl | later
    · exact reached.later extended
    · exact ⟨reached.1.trans extended, (others next later).2⟩

/-- The structs that a walk stands below: each directly contains the next. -/
structure Trail (t : SymbolTable) (path : List Nat) : Prop where
  nodup : path.Nodup
  structs : ∀ id ∈ path, t.IsStruct id
  isChain : List.IsChain t.Holds path

theorem Trail.snoc (trail : Trail t path) (fresh : next ∉ path)
    (isStruct : t.IsStruct next) (held : ∀ last ∈ path.getLast?, t.Holds last next) :
    Trail t (path ++ [next]) where
  nodup := by grind [trail.nodup]
  structs := by grind [trail.structs]
  isChain := by
    grind [isChain, List.isChain_append]

/--
A walk below a path is done with its struct.  The depth is enough, since no path is longer than
the table.
-/
theorem walk_reaches {path : List Nat} {id : Nat}
    (enough : t.entries.length ≤ path.length + depth) (trail : Trail t (path ++ [id]))
    (explores : Explores t search) :
    Extends t search (walk t depth path search id) ∧ id ∈ (walk t depth path search id).done := by
  have short := length_le_of_structs trail.nodup trail.structs
  rw [List.length_append, List.length_singleton] at short
  induction depth generalizing path search id with
  | zero => omega
  | succ depth ih =>
    have each :
        ∀ next ∈ t.contained id, ∀ search,
          Explores t search →
            Reaches t (path ++ [id]) search (visit t depth (path ++ [id]) search next)
              next := by
      intro next mem search explores
      have isStruct := isStruct_of_mem_contained mem
      have held : ∀ last ∈ (path ++ [id]).getLast?, t.Holds last next := by
        simpa using mem_contained_iff.mp mem
      unfold visit
      split
      · next known => exact ⟨.refl explores, .inl (List.contains_iff_mem.mp known)⟩
      · split
        · next onPath =>
            rw [List.contains_iff_mem] at onPath
            rcases circular_of_path trail.nodup trail.isChain onPath held with ⟨circular, ends⟩
            rcases extends_note explores circular isStruct with ⟨extended, marked⟩
            refine ⟨extended, .inr ⟨id, by simp, marked (ends id (by simp)), marked ?_⟩⟩
            exact List.mem_of_head? circular.head_eq
        · next fresh =>
            rw [List.contains_iff_mem] at fresh
            have longer := trail.snoc fresh isStruct held
            have longerShort := length_le_of_structs longer.nodup longer.structs
            rcases ih (by grind) longer explores (by grind) with ⟨extended, done⟩
            exact ⟨extended, .inl done⟩
    rcases foldl_visit each explores with ⟨extended, covered⟩
    rw [walk_succ]
    refine ⟨⟨⟨.snoc extended.explores.settled ?_, extended.explores.told⟩, extended.marked_subset,
      by grind [extended.done_subset]⟩, by grind⟩
    intro next mem
    simpa using (covered next mem).2

/-- A search over a regular table is done with every struct. -/
theorem run_reaches (reg : t.Regular) :
    Explores t (run t) ∧ ∀ id, t.IsStruct id → id ∈ (run t).done := by
  have each :
      ∀ id ∈ t.structIds, ∀ search,
        Explores t search → Reaches t [] search (visit t t.entries.length [] search id) id := by
    intro id mem search explores
    have isStruct := reg.mem_structIds.mp mem
    unfold visit
    split
    · next known => exact ⟨.refl explores, .inl (List.contains_iff_mem.mp known)⟩
    · have trail : Trail t ([] ++ [id]) := ⟨by simp, by simpa using isStruct, .singleton id⟩
      have enough : t.entries.length ≤ ([] : List Nat).length + t.entries.length := by simp
      rcases walk_reaches enough trail explores with ⟨extended, done⟩
      exact ⟨extended, .inl done⟩
  have initial : Explores t start := ⟨.nil, [], .nil, rfl, List.nodup_nil, by simp [start]⟩
  rcases foldl_visit each initial with ⟨extended, covered⟩
  refine ⟨extended.explores, ?_⟩
  intro id isStruct
  rcases (covered id (reg.mem_structIds.mpr isStruct)).2 with done | ⟨_, ⟨⟩, _⟩
  exact done

end CycleSearch

/--
Without a report of a cycle no struct lies on one, and all structs can be listed, each after what
it contains.
-/
theorem SymbolTable.Regular.exists_ordered {t : SymbolTable} (reg : t.Regular)
    (clean : t.structCycles.Clean) :
    t.structCycles.value = [] ∧
      ∃ order : List Nat, t.Ordered order ∧ order.Nodup ∧ ∀ id, id ∈ order ↔ t.IsStruct id := by
  rcases run_reaches reg with ⟨⟨settled, cycles, told, _, _, union⟩, covered⟩
  have clean : DiagnosticAt.hasErrors (run t).diagnostics = false := clean
  generalize (run t).diagnostics = diags at told clean
  cases told with
  | cons hd =>
    rcases hd with ⟨_, _, _, _, rfl⟩
    simp at clean
  | nil =>
    have unmarked : (run t).onCycle = [] := by
      rw [List.eq_nil_iff_forall_not_mem]
      simpa using union
    rw [unmarked] at settled
    refine ⟨by simp [structCycles, unmarked, ascending], ?_⟩
    rcases settled.ordered.exists_nodup with ⟨distinct, ordered, nodup, same⟩
    exact ⟨distinct, ordered, nodup, by grind⟩

end FlatSchema

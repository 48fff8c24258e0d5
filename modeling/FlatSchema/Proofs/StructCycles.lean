import FlatSchema.Proofs.Containment
import Mathlib.Data.List.Sort

/-!
# Containment cycles and their reports

The search for containment cycles reports one exactly where there is one: it
settles an order of all structs in which a struct contains a later one only
where both are marked, so no cycle avoids the marked structs, and what is
marked lies on a reported cycle.

Not every struct on a cycle is marked, though.  A struct that leads back into a
cycle only through structs that the search is done with is left out.  Where no
struct contains itself in two ways none is left out.
-/

namespace FlatSchema

open CycleSearch

namespace SymbolTable

open List (Forall₂)
open Relation (ReflTransGen TransGen)

variable {t : SymbolTable} {id : Nat}

/-- A struct contains itself, through one or more fields. -/
def OnCycle (t : SymbolTable) (id : Nat) : Prop :=
  TransGen t.Holds id id

/-- Where each element of a list is related to the next, it leads to all that follow. -/
theorem pairwise_transGen {path : List Nat} (isChain : List.IsChain rel path) :
    path.Pairwise (TransGen rel) :=
  (isChain.imp fun _ _ => TransGen.single).pairwise

namespace Round

variable (round : t.Round e cycle)
include round

theorem mem_entry : e ∈ cycle :=
  List.mem_of_head? round.head_eq

/-- Every struct of a round contains every other, and itself. -/
theorem transGen (fst : one ∈ cycle) (snd : other ∈ cycle) : TransGen t.Holds one other := by
  have ordered := pairwise_transGen round.isChain
  rw [List.pairwise_append] at ordered
  rcases ordered with ⟨within, _, back⟩
  have toEntry := back one fst e (List.mem_singleton.mpr rfl)
  rcases List.head?_eq_some_iff.mp round.head_eq with ⟨rest, rfl⟩
  rcases List.mem_cons.mp snd with rfl | later
  · exact toEntry
  · exact toEntry.trans (List.rel_of_pairwise_cons within later)

theorem exists_next (mem : id ∈ cycle) : ∃ next ∈ cycle, t.Holds id next := by
  have entryMember := round.mem_entry
  have isChain := round.isChain
  rcases List.append_of_mem mem with ⟨pre, post, rfl⟩
  rw [List.append_assoc] at isChain
  have following := isChain.right_of_append
  cases post with
  | nil => exact ⟨e, entryMember, List.isChain_pair.mp following⟩
  | cons next rest => exact ⟨next, by simp, following.rel⟩

theorem isStruct (mem : id ∈ cycle) : t.IsStruct id := by
  rcases TransGen.tail'_iff.mp (round.transGen mem mem) with ⟨_, _, held⟩
  exact isStruct_of_mem_contained (mem_contained_iff.mpr held)

end Round

/-- A struct that contains itself begins a round. -/
theorem OnCycle.exists_round (onCycle : t.OnCycle id) : ∃ cycle, t.Round id cycle := by
  rcases TransGen.tail'_iff.mp onCycle with ⟨last, path, held⟩
  rcases List.exists_isChain_cons_of_relationReflTransGen path with ⟨rest, isChain, ends⟩
  refine ⟨id :: rest, rfl, ?_⟩
  rw [List.isChain_append]
  grind

section

variable {marked order : List Nat}

/-- A struct directly contains another, and not both are marked. -/
def Descends (t : SymbolTable) (marked : List Nat) (outer inner : Nat) : Prop :=
  t.Holds outer inner ∧ ¬ (outer ∈ marked ∧ inner ∈ marked)

/-- From a struct of a settled list one descends only finitely far. -/
theorem Settled.acc (settled : t.Settled marked order) (mem : id ∈ order) :
    Acc (Function.swap (t.Descends marked)) id := by
  induction settled generalizing id with
  | nil => cases mem
  | snoc _ held ih =>
    rcases List.mem_append.mp mem with old | new
    · exact ih old
    · rw [List.mem_singleton] at new
      refine .intro _ fun inner step => ?_
      grind [mem_contained_iff, Descends, contained]

/-- No round avoids the marked structs, since one would descend along it without end. -/
theorem Settled.exists_marked (settled : t.Settled marked order)
    (round : t.Round e cycle) (listed : e ∈ order) : ∃ id ∈ cycle, id ∈ marked := by
  by_contra avoided
  have entryMember := round.mem_entry
  have isChain : List.IsChain (t.Descends marked) (cycle ++ [e]) :=
    round.isChain.imp_of_mem_imp fun outer inner own _ held => ⟨held, by grind⟩
  have back : TransGen (t.Descends marked) e e :=
    (List.pairwise_append.mp (pairwise_transGen isChain)).2.2 e entryMember e
      (List.mem_singleton.mpr rfl)
  refine Acc.recOn (settled.acc listed).transGen ?_ (Relation.transGen_swap.mpr back)
  exact fun place _ ih loop => ih place loop loop

end

/-! ## What the search reports -/

/-- The names of structs tell them apart. -/
theorem Regular.fullName_inj (reg : t.Regular) (fst : t.IsStruct one)
    (snd : t.IsStruct other) (same : t.fullName one = t.fullName other) : one = other := by
  rcases kind?_eq_some_iff.mp fst with ⟨sym, stands, _⟩
  rcases kind?_eq_some_iff.mp snd with ⟨again, stands', _⟩
  rw [fullName, fullName, stands, stands'] at same
  have found := reg.find?_of_getElem? stands
  rw [show sym.fullName = again.fullName from same, reg.find?_of_getElem? stands'] at found
  exact (Option.some.inj found).symm

/-- A round that names all structs of another has them. -/
theorem Regular.mem_of_named (reg : t.Regular) (round : t.Round e cycle)
    (again : t.Round other further)
    (named : ∀ name ∈ cycle.map t.fullName, name ∈ further.map t.fullName) (mem : id ∈ cycle) :
    id ∈ further := by
  rcases List.mem_map.mp (named _ (List.mem_map_of_mem mem)) with ⟨own, ownMember, same⟩
  rwa [← reg.fullName_inj (again.isStruct ownMember) (round.isStruct mem) same]

/-- Cycles with the same structs have one key. -/
theorem Circular.ascending_eq (fst : t.Circular one cycle) (snd : t.Circular other again)
    (same : ∀ id, id ∈ cycle ↔ id ∈ again) : ascending cycle = ascending again := by
  have perm := (List.perm_ext_iff_of_nodup fst.nodup snd.nodup).mpr same
  refine List.Perm.eq_of_sortedLE List.sortedLE_mergeSort List.sortedLE_mergeSort ?_
  exact (List.mergeSort_perm _ _).trans (perm.trans (List.mergeSort_perm _ _).symm)

theorem mem_structCycles : id ∈ t.structCycles.value ↔ id ∈ (run t).onCycle := by
  rw [structCycles, mem_ascending, List.mem_eraseDups]

theorem circular_of_told (told : Forall₂ t.Tells cycles diags)
    (mem : cycle ∈ cycles) : ∃ e, t.Circular e cycle := by
  induction told with
  | nil => cases mem
  | cons tells _ ih =>
    grind [Tells]

/-- The search of a regular table: it tells cycles, no two of the same structs, marks the structs
of these, and marks some struct of every round. -/
theorem Regular.structCycles_spec (reg : t.Regular) :
    ∃ cycles : List (List Nat),
      Forall₂ t.Tells cycles t.structCycles.diagnostics ∧ (cycles.map ascending).Nodup ∧
        (∀ id, id ∈ t.structCycles.value ↔ ∃ cycle ∈ cycles, id ∈ cycle) ∧
        ∀ e cycle, t.Round e cycle → ∃ id ∈ cycle, id ∈ t.structCycles.value := by
  rcases run_reaches reg with ⟨⟨settled, cycles, told, keys, nodup, union⟩, covered⟩
  simp only [mem_structCycles]
  refine ⟨cycles, told, keys ▸ nodup, union, ?_⟩
  intro e cycle round
  exact settled.exists_marked round (covered e (round.isStruct round.mem_entry))

/-- The search pushes a report exactly if some struct contains itself.  Each report tells a cycle,
and no two of them name the same structs. -/
theorem structCycles_reports_iff (schemas : List Schema) :
    let t := (ofSchemas schemas).value
    (t.structCycles.diagnostics ≠ [] ↔ ∃ id, t.OnCycle id) ∧
      ∃ cycles : List (List Nat),
        Forall₂ t.Tells cycles t.structCycles.diagnostics ∧
          cycles.Pairwise fun cycle other =>
            ¬ ∀ name, name ∈ cycle.map t.fullName ↔ name ∈ other.map t.fullName := by
  intro t
  have reg : t.Regular := regular_ofSchemas schemas
  rcases reg.structCycles_spec with ⟨cycles, told, nodup, union, hit⟩
  refine ⟨⟨?_, ?_⟩, cycles, told, ?_⟩
  · intro reported
    cases cycles with
    | nil => exact absurd (List.forall₂_nil_left_iff.mp told) reported
    | cons cycle rest =>
      rcases circular_of_told told List.mem_cons_self with ⟨e, circular⟩
      exact ⟨e, circular.transGen circular.mem_entry circular.mem_entry⟩
  · rintro ⟨id, onCycle⟩ silent
    rcases onCycle.exists_round with ⟨cycle, round⟩
    rcases hit id cycle round with ⟨found, _, marked⟩
    rcases (union found).mp marked with ⟨_, listed, _⟩
    rw [silent] at told
    cases told
    cases listed
  · refine (List.pairwise_map.mp nodup).imp_of_mem ?_
    intro cycle other fst snd distinct named
    rcases circular_of_told told fst with ⟨e, circular⟩
    rcases circular_of_told told snd with ⟨again, circularAgain⟩
    refine distinct (circular.ascending_eq circularAgain fun id => ⟨fun mem => ?_, fun mem => ?_⟩)
    · exact reg.mem_of_named circular.toRound circularAgain.toRound (fun name => (named name).mp)
        mem
    · exact reg.mem_of_named circularAgain.toRound circular.toRound (fun name => (named name).mpr)
        mem

/-- A struct directly contains two structs that both contain it again. -/
def Forked (t : SymbolTable) : Prop :=
  ∃ id one other, t.Holds id one ∧ t.Holds id other ∧ one ≠ other ∧
    ReflTransGen t.Holds one id ∧ ReflTransGen t.Holds other id

/-- Without forks a cycle has all that contain one of its structs and are contained in it. -/
theorem mem_of_not_forked (single : ¬ t.Forked) (circular : t.Circular e cycle)
    (mem : one ∈ cycle) (down : ReflTransGen t.Holds one id) (up : ReflTransGen t.Holds id one) :
    id ∈ cycle := by
  induction down with
  | refl => exact mem
  | @tail mid next path held ih =>
    have here := ih (.head held up)
    rcases circular.exists_next here with ⟨other, otherMember, otherHeld⟩
    by_cases same : next = other
    · exact same ▸ otherMember
    · refine absurd ⟨mid, next, other, held, otherHeld, same, up.trans path, ?_⟩ single
      exact (circular.transGen otherMember here).to_reflTransGen

/-- What the search marks contains itself, and every cycle has a marked struct.  All structs that
contain themselves are marked exactly if each of them is on a reported cycle, and so wherever no
struct contains itself in two ways. -/
theorem structCycles_exact_iff (schemas : List Schema) :
    let t := (ofSchemas schemas).value
    let marked := t.structCycles.value
    (∀ id ∈ marked, t.OnCycle id) ∧
      (∀ e cycle, t.Round e cycle → ∃ id ∈ cycle, id ∈ marked) ∧
      (∃ cycles : List (List Nat),
        Forall₂ t.Tells cycles t.structCycles.diagnostics ∧
          ((∀ id, id ∈ marked ↔ t.OnCycle id) ↔
            ∀ id, t.OnCycle id → ∃ cycle ∈ cycles, id ∈ cycle)) ∧
      (¬ t.Forked → ∀ id, id ∈ marked ↔ t.OnCycle id) := by
  intro t marked
  have reg : t.Regular := regular_ofSchemas schemas
  rcases reg.structCycles_spec with ⟨cycles, told, _, union, hit⟩
  have sound : ∀ id ∈ marked, t.OnCycle id := by
    intro id isMarked
    rcases (union id).mp isMarked with ⟨cycle, listed, mem⟩
    rcases circular_of_told told listed with ⟨e, circular⟩
    exact circular.transGen mem mem
  refine ⟨sound, hit, ⟨cycles, told, ?_⟩, ?_⟩
  · grind
  · intro single id
    refine ⟨sound id, fun onCycle => ?_⟩
    rcases onCycle.exists_round with ⟨way, round⟩
    rcases hit id way round with ⟨found, foundOn, foundMarked⟩
    rcases (union found).mp foundMarked with ⟨cycle, listed, mem⟩
    rcases circular_of_told told listed with ⟨e, circular⟩
    refine (union id).mpr ⟨cycle, listed, mem_of_not_forked single circular mem ?_ ?_⟩
    · exact (round.transGen foundOn round.mem_entry).to_reflTransGen
    · exact (round.transGen round.mem_entry foundOn).to_reflTransGen

/-- A struct with a field of each of some structs. -/
def structOf (name : String) (held : List String) : Item :=
  .declaration ⟨name, [], [], [],
    .struct (held.map fun ty => ⟨ty, .named ty default, none, [], [], default⟩), default⟩

/-- Three structs on two cycles, `A -> B -> A` and `A -> C -> B -> A`. -/
def crossingSchema : Schema :=
  ⟨"crossing.fbs", [structOf "A" ["B", "C"], structOf "B" ["A"], structOf "C" ["B"]], default⟩

/-- The third struct contains itself, but it is not marked: the search is done with the second
one when it comes there. -/
theorem structCycles_omits_third :
    let t := (ofSchemas [crossingSchema]).value
    2 ∉ t.structCycles.value ∧ t.OnCycle 2 := by
  intro t
  have step : ∀ outer inner, inner ∈ t.contained outer → t.Holds outer inner :=
    fun _ _ => mem_contained_iff.mp
  have toSecond : t.Holds 2 1 := step 2 1 (by decide +kernel)
  have toFirst : t.Holds 1 0 := step 1 0 (by decide +kernel)
  have toThird : t.Holds 0 2 := step 0 2 (by decide +kernel)
  refine ⟨?_, .tail (.tail (.single toSecond) toFirst) toThird⟩
  rw [mem_structCycles]
  decide +kernel

end SymbolTable

end FlatSchema

import FlatSchema.Proofs.StructLayout
import Mathlib.Data.Set.Finite.List
import Mathlib.Logic.Relation
import Mathlib.Order.WellFounded

/-!
# Layouts of families of structs

A struct of a family has a layout if and only if nothing that it leads to is
missing, invalid or leads back to itself.  `Laid` says what the layout is,
without a search; what the search finds is the same.

The search remembers what it found and refuses the structs that it is
visiting.  Neither is seen in its result.  What it remembers is right, and a
struct that has a layout is refused only if it leads to one that is being
visited, which does not happen below a struct that has a layout itself.
-/

namespace FlatSchema.StructLayout

open List (Forall₂)
open Relation (ReflTransGen TransGen)

variable {ι ν : Type} {shapes : List (ι × StructShape ι ν)} {id inner : ι}
  {fields : List (FieldShape ι ν)}

/-! ## The rooms of fields -/

section Rooms

variable (layoutOf : ι → Option (StructLayout ν))

/-- The room of a field, given the layouts of structs. -/
def storage? : FieldShape ι ν → Option (Storage ν)
  | .inline storage => some storage
  | .struct id => (layoutOf id).map storage
  | .invalid => none

/-- Each field has its room, given the layouts of structs. -/
def Rooms (fields : List (FieldShape ι ν)) (cells : List (Storage ν)) : Prop :=
  Forall₂ (fun field cell => storage? layoutOf field = some cell) fields cells

variable {layoutOf later : ι → Option (StructLayout ν)}

theorem storage?_mono (hit : storage? layoutOf field = some cell)
    (grows : ∀ id layout, layoutOf id = some layout → later id = some layout) :
    storage? later field = some cell := by
  cases field with
  | inline | invalid => exact hit
  | struct id =>
    rcases Option.map_eq_some_iff.mp hit with ⟨layout, known, same⟩
    exact Option.map_eq_some_iff.mpr ⟨layout, grows id layout known, same⟩

theorem Rooms.mono (rooms : Rooms layoutOf fields cells)
    (grows : ∀ id layout, layoutOf id = some layout → later id = some layout) :
    Rooms later fields cells :=
  rooms.imp fun _ _ hit => storage?_mono hit grows

/-- Layouts that do not contradict each other give the same rooms. -/
theorem Rooms.unique (rooms : Rooms layoutOf fields cells) (others : Rooms later fields more)
    (agree : ∀ id layout other, layoutOf id = some layout → later id = some other →
      layout = other) : cells = more := by
  induction rooms generalizing more with
  | nil =>
    cases others
    rfl
  | @cons field _ _ _ own _ ih =>
    cases others with
    | cons also rest =>
      refine congrArg₂ List.cons ?_ (ih rest)
      cases field with
      | inline | invalid => exact Option.some.inj (own.symm.trans also)
      | struct id =>
        rcases Option.map_eq_some_iff.mp own with ⟨layout, known, rfl⟩
        rcases Option.map_eq_some_iff.mp also with ⟨other, alsoKnown, rfl⟩
        rw [agree id layout other known alsoKnown]

theorem Rooms.exists_cell (rooms : Rooms layoutOf fields cells) (mem : field ∈ fields) :
    ∃ cell, storage? layoutOf field = some cell := by
  induction rooms with
  | nil => cases mem
  | cons own _ ih =>
    rcases List.mem_cons.mp mem with rfl | later
    · exact ⟨_, own⟩
    · exact ih later

end Rooms

/-! ## Layouts without a search -/

variable [BEq ι]

/-- A struct directly holds another. -/
def Contains (shapes : List (ι × StructShape ι ν)) (outer inner : ι) : Prop :=
  ∃ shape, shapes.lookup outer = some shape ∧ .struct inner ∈ shape.fields

/-- A struct that is missing, has an invalid field or holds itself in the end. -/
def Blocked (shapes : List (ι × StructShape ι ν)) (id : ι) : Prop :=
  shapes.lookup id = none ∨
    (∃ shape, shapes.lookup id = some shape ∧ .invalid ∈ shape.fields) ∨
    TransGen (Contains shapes) id id

theorem Rooms.exists_layout (rooms : Rooms layoutOf shape.fields cells)
    (known : shapes.lookup id = some shape) (contains : Contains shapes id inner) :
    ∃ layout, layoutOf inner = some layout := by
  rcases contains with ⟨_, again, mem⟩
  cases known.symm.trans again
  rcases rooms.exists_cell mem with ⟨cell, room⟩
  rcases Option.map_eq_some_iff.mp room with ⟨layout, hit, _⟩
  exact ⟨layout, hit⟩

variable [Measure ν]

/-- A layout of a struct: its fields laid out over layouts of the structs that they hold. -/
inductive Laid (shapes : List (ι × StructShape ι ν)) : ι → StructLayout ν → Prop where
  | intro {id : ι} (layoutOf : ι → Option (StructLayout ν)) (known : shapes.lookup id = some shape)
      (nested : ∀ inner layout, layoutOf inner = some layout → Laid shapes inner layout)
      (rooms : Rooms layoutOf shape.fields cells) : Laid shapes id (ofFields cells shape.forced)

namespace Laid

theorem unique (laid : Laid shapes id layout) (again : Laid shapes id other) : layout = other := by
  induction laid generalizing other with
  | intro layoutOf known nested rooms ih =>
    cases again with
    | intro later alsoKnown others alsoRooms =>
      cases known.symm.trans alsoKnown
      rw [rooms.unique alsoRooms fun inner layout other own also =>
        ih inner layout own (others inner other also)]

/-- A struct that is laid out holds structs that are. -/
theorem of_contains (laid : Laid shapes id layout) (contains : Contains shapes id inner) :
    ∃ nested, Laid shapes inner nested := by
  rcases laid with ⟨layoutOf, known, nested, rooms⟩
  exact (rooms.exists_layout known contains).imp (nested inner)

theorem of_reflTransGen (laid : Laid shapes id layout)
    (leads : ReflTransGen (Contains shapes) id inner) : ∃ nested, Laid shapes inner nested := by
  induction leads with
  | refl => exact ⟨layout, laid⟩
  | tail _ contains ih =>
    rcases ih with ⟨_, outer⟩
    exact outer.of_contains contains

theorem acc (laid : Laid shapes id layout) : Acc (Function.swap (Contains shapes)) id := by
  induction laid with
  | intro layoutOf known nested rooms ih =>
    refine .intro _ fun inner contains => ?_
    rcases rooms.exists_layout known contains with ⟨layout, hit⟩
    exact ih inner layout hit

/-- A struct that is laid out is not blocked. -/
theorem not_blocked (laid : Laid shapes id layout) : ¬ Blocked shapes id := by
  have ends := laid.acc
  rcases laid with ⟨layoutOf, known, _, rooms⟩
  rintro (missing | ⟨_, again, mem⟩ | cycle)
  · cases missing.symm.trans known
  · cases known.symm.trans again
    rcases rooms.exists_cell mem with ⟨_, ⟨⟩⟩
  · refine Acc.recOn ends.transGen ?_ (Relation.transGen_swap.mpr cycle)
    exact fun place _ ih loop => ih place loop loop

/-- Only what is found under the names counts. -/
theorem congr (laid : Laid shapes id layout)
    (same : ∀ key, others.lookup key = shapes.lookup key) : Laid others id layout := by
  induction laid with
  | intro layoutOf known _ rooms ih => exact .intro layoutOf ((same _).trans known) ih rooms

end Laid

variable [LawfulBEq ι]

/-- A struct has a layout if nothing that it leads to is blocked: going down from it ends, since
the family is finite and has no cycle there. -/
theorem exists_laid_of_free (free : ∀ other, ReflTransGen (Contains shapes) id other →
      ¬ Blocked shapes other) : ∃ layout, Laid shapes id layout := by
  let Below : Set ι := {other | ReflTransGen (Contains shapes) id other}
  have here : ∀ other ∈ Below, other ∈ shapes.map Prod.fst := by
    intro other leads
    cases hit : shapes.lookup other with
    | none => exact absurd (.inl hit) (free other leads)
    | some shape => exact List.mem_map_of_mem (f := Prod.fst) (mem_of_lookup hit)
  have : Finite Below := ((List.finite_toSet (shapes.map Prod.fst)).subset here).to_subtype
  let Under (low high : Below) : Prop := TransGen (Contains shapes) high.1 low.1
  have : Std.Irrefl Under := ⟨fun place loop => free place.1 place.2 (.inr (.inr loop))⟩
  have ends : WellFounded Under := Finite.wellFounded_of_trans_of_irrefl Under
  suffices all : ∀ place : Below, ∃ layout, Laid shapes place.1 layout from all ⟨id, .refl⟩
  intro place
  induction place using ends.induction with
  | _ place ih =>
  have unblocked := free place.1 place.2
  cases hit : shapes.lookup place.1 with
  | none => exact absurd (.inl hit) unblocked
  | some shape =>
    classical
    let layoutOf (inner : ι) : Option (StructLayout ν) :=
      if laid : ∃ layout, Laid shapes inner layout then some laid.choose else none
    have nested : ∀ inner layout, layoutOf inner = some layout → Laid shapes inner layout := by
      intro inner layout hit
      rcases Option.dite_none_right_eq_some.mp hit with ⟨laid, same⟩
      cases same
      exact laid.choose_spec
    have each : ∀ field ∈ shape.fields, ∃ cell, storage? layoutOf field = some cell := by
      intro field mem
      cases field with
      | inline cell => exact ⟨cell, rfl⟩
      | invalid => exact absurd (.inr (.inl ⟨shape, hit, mem⟩)) unblocked
      | struct inner =>
        have held : Contains shapes place.1 inner := ⟨shape, hit, mem⟩
        have laid := ih ⟨inner, place.2.tail held⟩ (.single held)
        exact ⟨_, congrArg (Option.map storage) (dif_pos laid)⟩
    rcases exists_forall₂ each with ⟨cells, rooms⟩
    exact ⟨_, .intro layoutOf hit nested rooms⟩

/-! ## The search -/

/-- Layouts that extend others by structs of their own. -/
def Includes (found later : List (ι × StructLayout ν)) : Prop :=
  ∀ id layout, found.lookup id = some layout → later.lookup id = some layout

/-- Each layout is that of its struct. -/
def Right (shapes : List (ι × StructShape ι ν)) (found : List (ι × StructLayout ν)) : Prop :=
  ∀ id layout, found.lookup id = some layout → Laid shapes id layout

/-- The outcome of a search that goes on from some layouts.  It leaves right ones and forgets none;
what it finds is good under the layouts that it leaves, and it finds something where it must. -/
structure Looked (shapes : List (ι × StructShape ι ν)) (found : List (ι × StructLayout ν))
    (good : (ι → Option (StructLayout ν)) → α → Prop) (must : Prop)
    (outcome : Option α × List (ι × StructLayout ν)) : Prop where
  right : Right shapes outcome.2
  includes : Includes found outcome.2
  good : ∀ v, outcome.1 = some v → good (outcome.2.lookup ·) v
  finds : must → ∃ v, outcome.1 = some v

variable {found : List (ι × StructLayout ν)}

namespace Looked

variable {good : (ι → Option (StructLayout ν)) → α → Prop} {must : Prop}

omit [LawfulBEq ι]

theorem mono {outcome : Option α × List (ι × StructLayout ν)}
    (looked : Looked shapes found good must outcome) (weaker : other → must) :
    Looked shapes found good other outcome :=
  { looked with finds := fun given => looked.finds (weaker given) }

theorem pure (right : Right shapes found) (holds : good (found.lookup ·) v) :
    Looked shapes found good True ((Pure.pure v : Search ι ν α).run.run found) := by
  refine ⟨right, fun _ _ hit => hit, ?_, fun _ => ⟨v, rfl⟩⟩
  rintro _ ⟨⟩
  exact holds

theorem failure (right : Right shapes found) (never : ¬ must) :
    Looked shapes found good must ((Alternative.failure : Search ι ν α).run.run found) :=
  ⟨right, fun _ _ hit => hit, nofun, fun given => absurd given never⟩

theorem bind {search : Search ι ν α} {next : α → Search ι ν β} {fits : _ → β → Prop}
    (own : Looked shapes found good must (search.run.run found))
    (rest : ∀ v later, Right shapes later → Includes found later → good (later.lookup ·) v →
      Looked shapes later fits other ((next v).run.run later)) :
    Looked shapes found fits (must ∧ other) ((search >>= next).run.run found) := by
  rw [OptionT.run_bind, Option.elimM, StateT.run_bind]
  rcases ran : search.run.run found with ⟨_ | v, later⟩
  · rw [ran] at own
    refine ⟨own.right, own.includes, nofun, fun given => ?_⟩
    rcases own.finds given.1 with ⟨_, ⟨⟩⟩
  · rw [ran] at own
    have tail := rest v later own.right own.includes (own.good v rfl)
    have includes : Includes found _ := fun id layout hit =>
      tail.includes id layout (own.includes id layout hit)
    exact ⟨tail.right, includes, tail.good, fun given => tail.finds given.2⟩

end Looked

omit [LawfulBEq ι] in
/-- The rooms of fields are looked for one after the other, each from what the ones before it have
left. -/
theorem looked_mapM {search : FieldShape ι ν → Search ι ν (Storage ν)}
    {must : FieldShape ι ν → Prop}
    (each : ∀ field ∈ fields, ∀ found, Right shapes found →
      Looked shapes found (storage? · field = some ·) (must field) ((search field).run.run found))
    (right : Right shapes found) :
    Looked shapes found (Rooms · fields) (∀ field ∈ fields, must field)
      ((fields.mapM search).run.run found) := by
  induction fields generalizing found with
  | nil => exact (Looked.pure right .nil).mono fun _ => trivial
  | cons field rest ih =>
    rw [List.mapM_cons]
    have own := each field List.mem_cons_self found right
    refine (own.bind fun cell mid right _ room =>
      (ih (fun field mem => each field (List.mem_cons_of_mem _ mem)) right).bind
        fun cells later right includes rooms =>
          .pure right (.cons (storage?_mono room includes) rooms)).mono fun must => ?_
    exact ⟨must field List.mem_cons_self, fun field mem => must field (List.mem_cons_of_mem _ mem),
      trivial⟩

omit [Measure ν] in
/-- Shapes of distinct names all stand. -/
theorem standing_eq (nodup : (shapes.map Prod.fst).Nodup) : standing shapes = shapes := by
  induction shapes with
  | nil => rfl
  | cons entry rest ih =>
    rcases List.nodup_cons.mp nodup with ⟨apart, nodup⟩
    have alone : (rest.any fun later => later.1 == entry.1) = false := by
      refine Bool.eq_false_iff.mpr fun again => ?_
      rcases List.any_eq_true.mp again with ⟨later, mem, same⟩
      exact apart (eq_of_beq same ▸ List.mem_map_of_mem (f := Prod.fst) mem)
    rw [standing, alone, ih nodup]
    rfl

/-- A struct that has a layout and leads to none that is being visited. -/
def Reachable (shapes : List (ι × StructShape ι ν)) (visiting : List ι) (id : ι) : Prop :=
  (∃ layout, Laid shapes id layout) ∧
    ∀ other ∈ visiting, ¬ ReflTransGen (Contains shapes) id other

omit [LawfulBEq ι] in
/-- The structs that such a struct holds lead to none that is being visited either, now that it is
visited itself: it would lie on a cycle. -/
theorem Reachable.of_contains (reachable : Reachable shapes visiting id)
    (contains : Contains shapes id inner) : Reachable shapes (id :: visiting) inner := by
  rcases reachable with ⟨⟨layout, laid⟩, apart⟩
  refine ⟨laid.of_contains contains, fun other mem leads => ?_⟩
  rcases List.mem_cons.mp mem with rfl | earlier
  · exact laid.not_blocked (.inr (.inr (.head' contains leads)))
  · exact apart other earlier (.head contains leads)

omit [LawfulBEq ι] in
theorem looked_storageOf {search : ι → Search ι ν (StructLayout ν)} {visiting : List ι}
    (each : ∀ inner, Looked shapes found (· inner = some ·) (Reachable shapes visiting inner)
      ((search inner).run.run found)) (right : Right shapes found) (field : FieldShape ι ν) :
    Looked shapes found (storage? · field = some ·)
      (field ≠ .invalid ∧ ∀ inner, field = .struct inner → Reachable shapes visiting inner)
      ((storageOf search field).run.run found) := by
  cases field with
  | inline cell => exact (Looked.pure (v := cell) right rfl).mono fun _ => trivial
  | invalid => exact .failure right fun must => must.1 rfl
  | struct inner =>
    refine ((each inner).bind fun layout later right _ hit => .pure right ?_).mono fun must => ?_
    · exact Option.map_eq_some_iff.mpr ⟨layout, hit, rfl⟩
    · exact ⟨must.2 inner rfl, trivial⟩

/-- What was found stays found when the layout of one more struct is added: it has no other. -/
theorem Looked.remember (right : Right shapes found) (known : shapes.lookup id = some shape)
    (rooms : Rooms (found.lookup ·) shape.fields cells) :
    Looked shapes found (· id = some ·) True
      (some (ofFields cells shape.forced), (id, ofFields cells shape.forced) :: found) := by
  have own : Laid shapes id (ofFields cells shape.forced) := .intro _ known right rooms
  refine ⟨fun key layout hit => ?_, fun key layout hit => ?_, ?_, fun _ => ⟨_, rfl⟩⟩
  · rw [List.lookup_cons] at hit
    split at hit
    · next same =>
      cases hit
      rw [eq_of_beq same]
      exact own
    · exact right key layout hit
  · rw [List.lookup_cons]
    split
    · next same =>
      rw [eq_of_beq same] at hit
      rw [own.unique (right id layout hit)]
    · exact hit
  · rintro _ ⟨⟩
    exact List.lookup_cons_self

omit [BEq ι] [LawfulBEq ι] [Measure ν] in
theorem run_get_bind (next : List (ι × StructLayout ν) → Search ι ν α) :
    (get >>= next).run.run found = (next found).run.run found :=
  rfl

/-- The search for a struct.  The induction is on how many structs are not being visited. -/
theorem looked_searchLayout (right : Right shapes found) (visiting : List ι) (id : ι) :
    Looked shapes found (· id = some ·) (Reachable shapes visiting id)
      ((searchLayout shapes visiting id).run.run found) := by
  induction size : unvisited shapes visiting using Nat.strong_induction_on
    generalizing visiting id found with
  | _ size ih =>
  subst size
  rw [searchLayout, run_get_bind]
  split
  · next layout hit => exact (Looked.pure right hit).mono fun _ => trivial
  · split
    · next missing =>
      refine .failure right fun reachable => ?_
      rcases reachable.1 with ⟨layout, laid⟩
      exact laid.not_blocked (.inl missing)
    · next shape known =>
      split
      · next visited =>
        refine .failure right fun reachable => ?_
        exact reachable.2 id (List.contains_iff_mem.mp visited) .refl
      · next fresh =>
        have fields := looked_mapM (fun field (_ : field ∈ shape.fields) _ right =>
          looked_storageOf (fun inner => ih _ (unvisited_cons_lt known fresh) right _ inner rfl)
            right field) right
        refine (fields.bind fun cells later right _ rooms => .remember right known rooms).mono
          fun reachable => ⟨fun field mem => ⟨?_, ?_⟩, trivial⟩
        · rintro rfl
          rcases reachable.1 with ⟨layout, laid⟩
          exact laid.not_blocked (.inr (.inl ⟨shape, known, mem⟩))
        · rintro inner rfl
          exact reachable.of_contains ⟨shape, known, mem⟩

/-- Going through the structs of a family one after the other leaves right layouts, forgets none and
adds those of the structs that were gone through. -/
theorem looked_each (entries : List (ι × StructShape ι ν)) (right : Right shapes found) :
    let final := entries.foldl
      (fun found entry => ((searchLayout shapes [] entry.1).run.run found).2) found
    Right shapes final ∧ Includes found final ∧
      ∀ id ∈ entries.map Prod.fst, (∃ layout, Laid shapes id layout) →
        ∃ layout, final.lookup id = some layout := by
  induction entries generalizing found with
  | nil => exact ⟨right, fun _ _ hit => hit, nofun⟩
  | cons entry rest ih =>
    have own := looked_searchLayout right [] entry.1
    rcases ih own.right with ⟨stillRight, includes, others⟩
    refine ⟨stillRight, fun id layout hit => includes id layout (own.includes id layout hit),
      fun id mem laid => ?_⟩
    rcases List.mem_cons.mp mem with rfl | later
    · rcases own.finds ⟨laid, nofun⟩ with ⟨layout, hit⟩
      exact ⟨layout, includes _ _ (own.good layout hit)⟩
    · exact others id later laid

/-- The layouts of a family are those of its structs. -/
theorem lookup_ofShapes_iff (nodup : (shapes.map Prod.fst).Nodup) :
    (ofShapes shapes).lookup id = some layout ↔ Laid shapes id layout := by
  have none : Right shapes [] := nofun
  rcases looked_each shapes none with ⟨right, _, each⟩
  rw [ofShapes, standing_eq nodup]
  refine ⟨right id layout, fun laid => ?_⟩
  have mem : id ∈ shapes.map Prod.fst := by
    rcases laid with ⟨_, known, _, _⟩
    exact List.mem_map_of_mem (f := Prod.fst) (mem_of_lookup known)
  rcases each id mem ⟨layout, laid⟩ with ⟨other, hit⟩
  rw [laid.unique (right id other hit)]
  exact hit

/-- A struct whose fields all have their rooms among the layouts of a family has its own there. -/
theorem lookup_ofShapes_of_rooms (nodup : (shapes.map Prod.fst).Nodup)
    (known : shapes.lookup id = some shape)
    (rooms : Rooms ((ofShapes shapes).lookup ·) shape.fields cells) :
    (ofShapes shapes).lookup id = some (ofFields cells shape.forced) :=
  (lookup_ofShapes_iff nodup).mpr
    (.intro _ known (fun _ _ => (lookup_ofShapes_iff nodup).mp) rooms)

/-- A struct of a family has a layout exactly if nothing that it leads to is blocked.  It is its
fields laid out over the layouts of the structs that they hold, whatever the order of the
family. -/
theorem ofShapes_wellFounded (nodup : (shapes.map Prod.fst).Nodup) :
    (∀ id, (∃ layout, (ofShapes shapes).lookup id = some layout) ↔
        ∀ other, ReflTransGen (Contains shapes) id other → ¬ Blocked shapes other) ∧
      (∀ id layout, (ofShapes shapes).lookup id = some layout ↔ Laid shapes id layout) ∧
      (∀ id layout, (ofShapes shapes).lookup id = some layout →
        ∃ shape cells, shapes.lookup id = some shape ∧
          Rooms ((ofShapes shapes).lookup ·) shape.fields cells ∧
          layout = ofFields cells shape.forced) ∧
      ∀ others, shapes.Perm others →
        ∀ id, (ofShapes others).lookup id = (ofShapes shapes).lookup id := by
  refine ⟨fun id => ⟨?_, ?_⟩, fun id layout => lookup_ofShapes_iff nodup, ?_, ?_⟩
  · rintro ⟨layout, found⟩ other leads
    rcases ((lookup_ofShapes_iff nodup).mp found).of_reflTransGen leads with ⟨_, laid⟩
    exact laid.not_blocked
  · intro free
    rcases exists_laid_of_free free with ⟨layout, laid⟩
    exact ⟨layout, (lookup_ofShapes_iff nodup).mpr laid⟩
  · intro id layout found
    rcases (lookup_ofShapes_iff nodup).mp found with ⟨layoutOf, known, nested, rooms⟩
    refine ⟨_, _, known, rooms.mono fun inner layout hit => ?_, rfl⟩
    exact (lookup_ofShapes_iff nodup).mpr (nested inner layout hit)
  · intro others perm id
    have othersNodup := (perm.map Prod.fst).nodup_iff.mp nodup
    have same : ∀ key, others.lookup key = shapes.lookup key := by
      intro key
      refine Option.ext fun shape => ⟨fun found => ?_, fun found => ?_⟩
      · exact lookup_of_mem nodup (perm.mem_iff.mpr (mem_of_lookup found))
      · exact lookup_of_mem othersNodup (perm.mem_iff.mp (mem_of_lookup found))
    refine Option.ext fun layout => ?_
    rw [lookup_ofShapes_iff nodup, lookup_ofShapes_iff othersNodup]
    exact ⟨fun laid => laid.congr fun key => (same key).symm, fun laid => laid.congr same⟩

/-- Two structs that hold each other, one that the second of them holds as well, and one that holds
that twice. -/
def familyShapes : List (Nat × StructShape Nat Nat) :=
  [(0, ⟨[.struct 1], none⟩), (1, ⟨[.struct 2, .struct 0], none⟩), (2, ⟨[.inline ⟨2, 2⟩], some 4⟩),
    (3, ⟨[.struct 2, .inline ⟨1, 1⟩, .struct 2], none⟩)]

theorem ofShapes_wellFounded_family :
    (familyShapes.map Prod.fst).Nodup ∧
      (ofShapes familyShapes).lookup 3 = some ⟨[⟨0, 4, 0⟩, ⟨4, 1, 3⟩, ⟨8, 4, 0⟩], 12, 4⟩ ∧
      ¬ ∃ layout, (ofShapes familyShapes).lookup 1 = some layout := by
  have nodup : (familyShapes.map Prod.fst).Nodup := by decide
  rcases ofShapes_wellFounded nodup with ⟨laid, same, _⟩
  have single : familyShapes.lookup 2 = some ⟨[.inline ⟨2, 2⟩], some 4⟩ := rfl
  have held : Laid familyShapes 2 (ofFields [⟨2, 2⟩] (some 4)) :=
    .intro (fun _ => none) single nofun (.cons rfl .nil)
  have twice :
      familyShapes.lookup 3 = some ⟨[.struct 2, .inline ⟨1, 1⟩, .struct 2], none⟩ := rfl
  have outer : Laid familyShapes 3 (ofFields [⟨4, 4⟩, ⟨1, 1⟩, ⟨4, 4⟩] none) := by
    refine .intro (if · = 2 then some (ofFields [⟨2, 2⟩] (some 4)) else none) twice ?_
      (.cons rfl (.cons rfl (.cons rfl .nil)))
    intro inner layout known
    rcases Option.ite_none_right_eq_some.mp known with ⟨rfl, ⟨⟩⟩
    exact held
  refine ⟨nodup, (same _ _).mpr outer, ?_⟩
  rw [laid]
  intro free
  have back : Contains familyShapes 1 0 := ⟨_, rfl, by decide⟩
  have forth : Contains familyShapes 0 1 := ⟨_, rfl, by decide⟩
  exact free 1 .refl (.inr (.inr (.tail (.single back) forth)))

end FlatSchema.StructLayout

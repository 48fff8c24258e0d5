import FlatSchema.Proofs.Calls

/-!
# Beginning and ending objects

A builder has one mark for an object that is open, be it a table or a vector,
and remembers the slots of the table that was begun last.  To end a table it
asks for both, to end a vector for the mark alone.

`Course` follows a builder from its start and notes which object is open.  So
a vector can be ended if and only if any object is open.  A table that has
been ended as a vector leaves its slots behind; from then on, until a table
begins or ends, a vector can be ended as a table.  Apart from this tables are
ended as tables only.  An end that is refused leaves the builder as it was.
-/

namespace FlatSchema

open Builder Yields

namespace Build

/-! ## The object that is open -/

inductive Object where
  | table
  | vector
deriving DecidableEq

/-- Which object is open, and whether a table was ended as a vector since a table was begun or
ended the last time. -/
structure Standing where
  opened : Option Object
  stale : Bool
deriving DecidableEq

namespace Standing

/-- Beginning or ending an object changes the standing if it succeeds. -/
def next {α : Type} (standing : Standing) (out : Except WireError α) (other : Standing) :
    Standing :=
  if out.isOk then other else standing

/-- A vector is ended unless the end is refused, even if there is no room for its length. -/
def endVector (standing : Standing) : Except WireError Int → Standing
  | .error .vectorNotOpen => standing
  | _ => ⟨none, standing.stale || standing.opened == some .table⟩

end Standing

/-- The standing of a builder along its use.  Operations that neither begin nor end an object are
made of bytes that are put, room that is made, alignments that are raised, the mark of a finished
buffer, and slots that are noted. -/
inductive Course : Builder Int → Standing → Prop
  | start {room : Int} (small : room < 2147483648) (force : Bool) :
      Course (start room force) ⟨none, false⟩
  | reset (course : Course b standing) : Course b.reset ⟨none, false⟩
  | put (course : Course b standing) (bs : List UInt8) : Course ((put bs).run.run b).2 standing
  | reserve (course : Course b standing) (needed : Int) :
      Course ((reserve needed).run.run b).2 standing
  | raise (course : Course b standing) (larger : b.minAlign < size) :
      Course { b with minAlign := size } standing
  | mark (course : Course b standing) : Course { b with finished := true } standing
  | slot (course : Course b standing) (i : Int) : Course ((slot i).run.run b).2 standing
  | startTable (course : Course b standing) (n : Int) :
      Course ((startTable n).run.run b).2
        (standing.next ((startTable n).run.run b).1 ⟨some .table, false⟩)
  | startVector (course : Course b standing) (width n align : Int) :
      Course ((startVector width n align).run.run b).2
        (standing.next ((startVector width n align).run.run b).1 ⟨some .vector, standing.stale⟩)
  | endTable (course : Course b standing) :
      Course (endTable.run.run b).2 (standing.next (endTable.run.run b).1 ⟨none, false⟩)
  | endVector (course : Course b standing) :
      Course (endVector.run.run b).2 (standing.endVector (endVector.run.run b).1)

/-- Every use of a builder follows a course. -/
theorem exists_course (reachable : b.Reachable) : ∃ standing, Course b standing := by
  rcases reachable with ⟨room, force, α, program, small, uses, rfl⟩
  have follows : ∀ {β : Type} {op : Build Int β},
      (∀ b standing, Course b standing → ∃ later, Course (op.run.run b).2 later) →
      Preserves (fun b => ∃ standing, Course b standing) op :=
    fun step b hit => hit.elim (step b)
  have tables : StableTables fun b => ∃ standing, Course b standing :=
    { put := fun bs => follows fun _ _ course => ⟨_, course.put bs⟩
      reserve := fun needed => follows fun _ _ course => ⟨_, course.reserve needed⟩
      scalar := fun _ => trivial
      raise := fun _ _ _ hit larger => hit.imp fun _ course => course.raise larger
      mark := fun _ hit => hit.imp fun _ course => course.mark
      startVector := fun _ _ _ => follows fun _ _ course => ⟨_, course.startVector _ _ _⟩
      endVector := follows fun _ _ course => ⟨_, course.endVector⟩
      startTable := fun n => follows fun _ _ course => ⟨_, course.startTable n⟩
      slot := fun i => follows fun _ _ course => ⟨_, course.slot i⟩
      endTable := follows fun _ _ course => ⟨_, course.endTable⟩ }
  exact uses.preserves tables (fun _ hit => hit.elim fun _ course => ⟨_, course.reset⟩) _
    ⟨_, .start small force⟩

/-! ## What marks an open object -/

variable {α : Type} {pre post b : Builder Int} {standing : Standing}
  {nested remembers : Bool} {op : Build Int α}

/-- The mark of an open object, and whether slots of a table are there. -/
def Marked (nested remembers : Bool) (s : Builder Int) : Prop :=
  s.nested = nested ∧ s.slots.isSome = remembers

theorem steady_marked (nested remembers : Bool) :
    SteadyFor (fun _ => True) (Marked nested remembers) :=
  steady_setting (fun setting => setting.nested = nested ∧ setting.slots.isSome = remembers)
    fun _ marked => marked

theorem marked_slot (i : Int) : Preserves (Marked nested remembers) (slot i) :=
  preserves_slot (fun _ _ _ marked isOpen => ⟨marked.1, by rw [← marked.2, isOpen]; rfl⟩) i

/-- A table begins only where nothing is open; otherwise nothing changes. -/
theorem marked_startTable (marked : Marked nested remembers pre) (n : Int) :
    Ensures (startTable n) pre (fun _ post => nested = false ∧ Marked true true post)
      fun _ => Marked nested remembers := by
  refine assertNotNested_bind (fun _ => marked) fun closed => ?_
  split
  · exact .modify ⟨marked.1.symm.trans closed, rfl, rfl⟩
  · exact .throw marked

/-- A vector begins only where nothing is open. -/
theorem marked_startVector (marked : Marked nested remembers pre) (width n align : Int) :
    Ensures (startVector width n align) pre
      (fun _ post => nested = false ∧ Marked true remembers post)
      fun _ => Marked nested remembers := by
  have aligns : ∀ size, Preserves (Marked nested remembers) (prep size (width * n)) :=
    fun size => (steady_marked nested remembers).prep trivial _
  have counted : Marked nested remembers { pre with vectorCount := n } := marked
  refine assertNotNested_bind (fun _ => marked) fun closed => .modify_bind ?_
  refine (aligns _ _ counted).ensures.andThen fun _ _ lengthened => ?_
  refine (aligns _ _ lengthened).ensures.andThen fun _ _ aligned => ?_
  exact .modify ⟨marked.1.symm.trans closed, rfl, aligned.2⟩

theorem marked_vtable (words : List Int) : Preserves (Marked nested remembers) (vtable words) := by
  refine .get_bind fun _ => ?_
  split
  · exact .pure _
  · refine .bind (.forM fun word _ => (steady_marked _ _).addWord trivial word) fun _ => ?_
    exact .bind preserves_offset fun _ => .bind (.modify fun _ kept => kept) fun _ => .pure _

/-- A table that has been ended leaves nothing open and no slots. -/
theorem marked_endTable (marked : Marked nested remembers pre) :
    Ensures endTable pre (fun _ => Marked false false) fun _ => Marked nested remembers := by
  refine .get_bind (.get_bind ?_)
  split
  · refine ((steady_marked _ _).addWord trivial _ pre marked).ensures.andThen fun _ begun kept => ?_
    refine .get_bind (.get_bind ((marked_vtable _ begun kept).ensures.andThen ?_))
    intro vt listed kept
    exact (replace_fails kept _ _).andThen fun _ _ _ => .modify_bind (.pure ⟨rfl, rfl⟩)
  · exact .throw marked

/-! ## Ends that proceed -/

/-- An operation fails and leaves the builder as it was. -/
def Refused (err : WireError) (op : Build Int α) (pre : Builder Int) : Prop :=
  op.run.run pre = (.error err, pre)

variable {err : WireError}

theorem Refused.get_bind {tail : Builder Int → Build Int α}
    (next : Refused err (tail pre) pre) : Refused err (get >>= tail) pre :=
  next

/-- An operation that proceeds is not refused. -/
theorem not_refused_of_proceeds (proceeds : Proceeds IsFull op pre)
    (other : err ≠ .tooLarge) : ¬Refused err op pre := by
  intro refused
  rcases proceeds with ⟨v, post, ran⟩ | ⟨_, post, failed, rfl, _⟩
  · cases refused.symm.trans ran
  · cases refused.symm.trans failed
    exact other rfl

theorem proceeds_endTable (orderly : pre.Orderly) (isOpen : pre.nested = true)
    (remembers : pre.slots.isSome = true) : Proceeds IsFull endTable pre := by
  rcases Option.isSome_iff_exists.mp remembers with ⟨slots, slots_eq⟩
  refine ((endTable_ends orderly.bounded orderly.stand slots_eq).mono (fun err post failed => ?_)
    fun _ _ closed => closed).proceeds
  rcases failed with isClosed | full
  · cases isClosed.symm.trans isOpen
  · exact full.1

theorem refused_endTable (closed : pre.nested = false ∨ pre.slots.isSome = false) :
    Refused .tableNotOpen endTable pre := by
  refine Refused.get_bind (Refused.get_bind ?_)
  split
  · next isOpen slots_eq => simp [isOpen, slots_eq] at closed
  · rfl

theorem refused_endVector (closed : pre.nested = false) : Refused .vectorNotOpen endVector pre := by
  show (ite _ _ _ : Build Int Int).run.run pre = _
  rw [if_neg (by simp [closed])]
  rfl

theorem marked_endVector (marked : Marked true remembers pre) :
    Upholds (Marked false remembers) endVector pre := by
  refine .get_bind ?_
  rw [if_pos marked.1]
  have unmarked : Upholds (Marked false remembers)
      (modify fun b => { b with nested := false } : Build Int PUnit) pre :=
    ⟨rfl, marked.2⟩
  refine .bind unmarked fun _ mid _ left => .get_bind ?_
  exact .bind ((steady_marked false remembers).addWord trivial _ mid left) fun _ _ _ kept => kept

/-- A builder is marked as its standing says. -/
def Standing.Marks (standing : Standing) (b : Builder Int) : Prop :=
  Marked standing.opened.isSome (standing.opened == some .table || standing.stale) b

theorem Standing.marks_next (ends : Ensures op pre (fun _ => other.Marks) fun _ => standing.Marks) :
    (standing.next (op.run.run pre).1 other).Marks (op.run.run pre).2 := by
  unfold Ensures at ends
  split at ends
  · next ran => rwa [ran]
  · next ran => rwa [ran]

structure Stood (b : Builder Int) (standing : Standing) : Prop where
  orderly : b.Orderly
  marked : standing.Marks b

theorem Course.stood (course : Course b standing) : Stood b standing := by
  induction course with
  | start small force => exact ⟨orderly_start small force, rfl, rfl⟩
  | reset _ ih => exact ⟨orderly_start ih.orderly.initial_lt _, rfl, rfl⟩
  | put _ bs ih =>
    exact ⟨stable_orderly.put bs _ ih.orderly, (steady_marked _ _).put bs _ ih.marked⟩
  | reserve _ needed ih =>
    exact ⟨stable_orderly.reserve needed _ ih.orderly,
      (steady_marked _ _).reserve needed _ ih.marked⟩
  | raise _ larger ih =>
    exact ⟨stable_orderly.raise _ _ trivial ih.orderly larger, ih.marked⟩
  | mark _ ih => exact ⟨stable_orderly.mark _ ih.orderly, ih.marked⟩
  | slot _ i ih => exact ⟨orderly_slot i _ ih.orderly, marked_slot i _ ih.marked⟩
  | startTable _ n ih =>
    refine ⟨orderly_startTable n _ ih.orderly, Standing.marks_next ?_⟩
    exact (marked_startTable ih.marked n).imp fun _ _ began => began.2
  | startVector _ width n align ih =>
    refine ⟨stable_orderly.vectors.startVector trivial width n _ ih.orderly, Standing.marks_next ?_⟩
    refine (marked_startVector ih.marked width n align).imp fun _ _ began => ?_
    grind [Standing.Marks, Marked]
  | endTable _ ih =>
    exact ⟨orderly_endTable _ ih.orderly, Standing.marks_next (marked_endTable ih.marked)⟩
  | @endVector b standing _ ih =>
    refine ⟨stable_orderly.vectors.endVector _ ih.orderly, ?_⟩
    cases opened : standing.opened with
    | none =>
      have marked := ih.marked
      rw [Standing.Marks, opened] at marked
      rw [refused_endVector marked.1]
      simpa [Standing.endVector, Standing.Marks, opened] using marked
    | some obj =>
      have marked := ih.marked
      rw [Standing.Marks, opened] at marked
      have kept := marked_endVector marked
      rcases (endVector_ends ih.orderly.bounded marked.1).proceeds with
        ⟨_, _, ran⟩ | ⟨_, _, failed, rfl, _⟩
      · rw [Upholds, ran] at kept
        rw [ran]
        simpa [Standing.endVector, Standing.Marks, opened, Bool.or_comm] using kept
      · rw [Upholds, failed] at kept
        rw [failed]
        simpa [Standing.endVector, Standing.Marks, opened, Bool.or_comm] using kept

/-! ## What can be begun and ended -/

/-- The operations that begin an object. -/
inductive Begins : {α : Type} → Build Int α → Prop
  | startTable (n : Int) : Begins (startTable n)
  | startVector (width n align : Int) : Begins (startVector width n align)
  | createString (content : List UInt8) : Begins (createString content)
  | createScalarVector (kind : ScalarKind) (vs : List ScalarValue) :
      Begins (createScalarVector kind vs)
  | createOffsetVector (targets : List Int) : Begins (createOffsetVector targets)
  | createStructVector (width align : Int) (items : List (Build Int Unit)) :
      Begins (createStructVector width align items)

theorem Begins.closed (begins : Begins op) (marked : Marked nested remembers pre)
    (ran : Yields op pre v post) : nested = false := by
  cases begins with
  | startTable n => exact ((marked_startTable marked n).yields ran).1
  | startVector width n align =>
    exact ((marked_startVector marked width n align).yields ran).1
  | createString content =>
    rcases Yields.bind_iff.mp ran with ⟨_, ended, zero, ran⟩
    rcases bind_iff.mp ran with ⟨_, _, began, _⟩
    have kept := ((steady_marked nested remembers).addScalar _ _ pre marked).of_yields zero
    exact ((marked_startVector kept _ _ _).yields began).1
  | createScalarVector | createOffsetVector | createStructVector =>
    rcases Yields.bind_iff.mp ran with ⟨_, _, began, _⟩
    exact ((marked_startVector marked _ _ _).yields began).1

theorem proceeds_iff [Decidable may] (other : err ≠ .tooLarge)
    (decided : if may then Proceeds IsFull op pre else Refused err op pre) :
    Proceeds IsFull op pre ↔ may := by
  constructor
  · intro proceeds
    simp_all [not_refused_of_proceeds, if_neg]
  grind

/-- Every use of a builder follows a course.  Along it a vector can be ended where any object is
open, and a table where one is open, or a vector while slots are left of a table that was ended as
a vector; other ends are refused and change nothing, and objects begin only where nothing is open.
So each object is ended as what it is if and only if no table is open, and no vector while such
slots are left. -/
theorem ends_as_opened_iff (b : Builder Int) :
    (b.Reachable → ∃ standing, Course b standing) ∧
      ∀ standing, Course b standing →
        (if standing.opened = some .table ∨ standing.opened = some .vector ∧ standing.stale = true
          then Proceeds IsFull endTable b else Refused .tableNotOpen endTable b) ∧
        (if standing.opened.isSome
          then Proceeds IsFull endVector b else Refused .vectorNotOpen endVector b) ∧
        (∀ (α : Type) (op : Build Int α), Begins op →
          ∀ v post, Yields op b v post → standing.opened = none) ∧
        ((Proceeds IsFull endTable b ↔ standing.opened = some .table) ∧
            (Proceeds IsFull endVector b ↔ standing.opened = some .vector) ↔
          standing.opened ≠ some .table ∧
            ¬(standing.opened = some .vector ∧ standing.stale = true)) := by
  refine ⟨exists_course, fun standing course => ?_⟩
  have orderly := course.stood.orderly
  have marked := course.stood.marked
  have table :
      if standing.opened = some .table ∨ standing.opened = some .vector ∧ standing.stale = true
        then Proceeds IsFull endTable b else Refused .tableNotOpen endTable b := by
    split
    · next may =>
        refine proceeds_endTable orderly (marked.1.trans ?_) (marked.2.trans ?_)
        · rcases may with opened | ⟨opened, _⟩ <;> rw [opened] <;> rfl
        · rcases may with opened | ⟨_, stale⟩ <;> simp [*]
    · next may =>
        refine refused_endTable ?_
        rw [marked.1, marked.2]
        revert may
        rcases standing with ⟨_ | _ | _, _ | _⟩ <;> simp
  have vector :
      if standing.opened.isSome
        then Proceeds IsFull endVector b else Refused .vectorNotOpen endVector b := by
    split
    · next isOpen => exact (endVector_ends orderly.bounded (marked.1.trans isOpen)).proceeds
    · next closed => exact refused_endVector (marked.1.trans (by simpa using closed))
  refine ⟨table, vector, ?_, ?_⟩
  · intro α op begins v post ran
    simpa using begins.closed marked ran
  · rw [proceeds_iff (by simp) table, proceeds_iff (by simp) vector]
    rcases standing with ⟨_ | _ | _, _ | _⟩ <;> simp

/-- A vector that is open after a table has been ended as one. -/
def vectorAfterTable : Builder Int :=
  ((startVector 1 0 1).run.run
    (endVector.run.run ((startTable 1).run.run (start standardRoom false)).2).2).2

theorem ends_as_opened_vectorAfterTable :
    Course vectorAfterTable ⟨some .vector, true⟩ ∧ Proceeds IsFull endTable vectorAfterTable := by
  obtain ⟨standing, course, rfl⟩ :
      ∃ standing, Course vectorAfterTable standing ∧ standing = ⟨some .vector, true⟩ :=
    ⟨_, (((Course.start (by decide) false).startTable 1).endVector).startVector 1 0 1,
      by decide +kernel⟩
  have ends := (ends_as_opened_iff vectorAfterTable).2 _ course
  exact ⟨course, by simpa using ends.1⟩

/-- A table is ended as a vector. -/
theorem endVector_of_startTable :
    Call.endVector.outcome ((Call.startTable 1).after (start standardRoom false)) =
      .ok (.offset 4) := by
  decide +kernel

end Build

end FlatSchema

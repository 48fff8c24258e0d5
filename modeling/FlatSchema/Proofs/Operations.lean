import FlatSchema.Proofs.TableWriting

/-!
# What every use of a builder preserves

A builder is used through its operations, in any order and with any arguments,
and may be used on after an operation has failed.  Whatever it is used for,
its bytes stay inside its room and behind its position, the vtables that it
remembers stand where it noted them, and the slots of an open table note
places between the start of the table and the position.

The operations are made of a few steps, so what these preserve every operation
does: `StableVectorsFor` and `StableTablesFor` list the steps.
-/

namespace FlatSchema

section

variable {ε σ α β : Type} {prop : σ → Prop} {op : ExceptT ε (StateM σ) α}
  {tail : α → ExceptT ε (StateM σ) β} {pre : σ}

/-- Whatever an operation comes to in a state, the state that it leaves has a property. -/
def Upholds (prop : σ → Prop) (op : ExceptT ε (StateM σ) α) (pre : σ) : Prop :=
  prop (op.run.run pre).2

/-- An operation leaves a state with a property wherever it is run in one. -/
def Preserves (prop : σ → Prop) (op : ExceptT ε (StateM σ) α) : Prop :=
  ∀ pre, prop pre → Upholds prop op pre

theorem Upholds.bind (first : Upholds prop op pre)
    (next : ∀ v mid, Yields op pre v mid → prop mid → Upholds prop (tail v) mid) :
    Upholds prop (op >>= tail) pre := by
  unfold Upholds at first ⊢
  rw [Yields.run_bind]
  rcases ran : op.run.run pre with ⟨out, mid⟩
  rw [ran] at first
  cases out with
  | ok v => exact next v mid ran first
  | error err => exact first

/-- Success and failure are all that an operation comes to. -/
theorem Upholds.of_outcomes (succeeds : ∀ v post, Yields op pre v post → prop post)
    (fails : Ensures op pre (fun _ _ => True) fun _ => prop) : Upholds prop op pre := by
  unfold Upholds
  unfold Ensures at fails
  rcases ran : op.run.run pre with ⟨out, post⟩
  rw [ran] at fails
  cases out with
  | ok v => exact succeeds v post ran
  | error err => exact fails

theorem Upholds.ensures (leaves : Upholds prop op pre) :
    Ensures op pre (fun _ => prop) fun _ => prop := by
  grind [Ensures, Upholds]

theorem Upholds.of_yields (leaves : Upholds prop op pre) (ran : Yields op pre v post) : prop post :=
  leaves.ensures.yields ran

theorem Upholds.get_bind {tail : σ → ExceptT ε (StateM σ) β} (next : Upholds prop (tail pre) pre) :
    Upholds prop (get >>= tail) pre :=
  next

namespace Preserves

theorem pure (v : α) : Preserves prop (Pure.pure v : ExceptT ε (StateM σ) α) :=
  fun _ holds => holds

theorem throw (err : ε) : Preserves prop (throw err : ExceptT ε (StateM σ) α) :=
  fun _ holds => holds

theorem bind (first : Preserves prop op) (next : ∀ v, Preserves prop (tail v)) :
    Preserves prop (op >>= tail) :=
  fun pre holds => (first pre holds).bind fun v mid _ left => next v mid left

theorem throw_bind (err : ε) :
    Preserves prop ((MonadExcept.throw err : ExceptT ε (StateM σ) α) >>= tail) :=
  fun _ holds => holds

theorem get_bind {tail : σ → ExceptT ε (StateM σ) β} (next : ∀ s, Preserves prop (tail s)) :
    Preserves prop (get >>= tail) :=
  fun pre holds => .get_bind (next pre pre holds)

theorem modify (kept : ∀ s, prop s → prop (change s)) :
    Preserves prop (modify change : ExceptT ε (StateM σ) PUnit) :=
  fun pre holds => kept pre holds

theorem ite [Decidable condition] (fst : Preserves prop op) (snd : Preserves prop other) :
    Preserves prop (if condition then op else other) := by
  split
  · exact fst
  · exact snd

theorem forM {step : α → ExceptT ε (StateM σ) PUnit} {elems : List α}
    (each : ∀ elem ∈ elems, Preserves prop (step elem)) : Preserves prop (elems.forM step) := by
  induction elems with
  | nil => exact pure PUnit.unit
  | cons hd rest ih =>
    refine bind (each hd List.mem_cons_self) fun _ => ?_
    exact ih fun elem mem => each elem (List.mem_cons_of_mem _ mem)

end Preserves

end

namespace Builder

/-- The invariant of a builder in use. -/
structure Orderly (b : Builder Int) : Prop where
  bounded : b.Bounded
  stand : VtablesStand b.written b.vtables
  start_le : b.slots.isSome = true → b.objectStart ≤ b.offset
  noted : ∀ slots, b.slots = some slots → ∀ f ∈ slots, f ≠ 0 → b.objectStart ≤ f ∧ f ≤ b.offset
  initial_lt : b.initialSpace < 2147483648

theorem orderly_start (small : room < 2147483648) (force : Bool) : (start room force).Orderly where
  bounded := (valid_start small force).toBounded
  stand := by
    intro words vt mem
    cases mem
  start_le := by
    intro isOpen
    cases isOpen
  noted := by
    intro slots isOpen
    cases isOpen
  initial_lt := by
    simp only [start, Extent.less_int, Extent.ofInt_int, decide_eq_true_eq]
    split <;> omega

variable {pre post : Builder Int}

/-- The invariant is about the bytes and the room, the vtables, the open table and the room at the
start. -/
theorem Orderly.of_eq (orderly : pre.Orderly) (tape_eq : post.tape = pre.tape)
    (capacity_eq : post.capacity = pre.capacity) (space_eq : post.space = pre.space)
    (vtables_eq : post.vtables = pre.vtables) (slots_eq : post.slots = pre.slots)
    (objectStart_eq : post.objectStart = pre.objectStart)
    (initial_eq : post.initialSpace = pre.initialSpace)
    (minAlign_le : pre.minAlign ≤ post.minAlign) :
    post.Orderly := by
  rcases orderly with ⟨bounded, stand, start_le, noted, initial_lt⟩
  refine ⟨bounded.of_setting tape_eq capacity_eq space_eq minAlign_le, ?_, ?_, ?_, ?_⟩ <;>
    grind [VtablesStand, written, offset]

/-- Bytes may come before those of a builder, and its room may change. -/
structure Advances (pre post : Builder Int) : Prop where
  bounded : post.Bounded
  isSuffix : pre.written <:+ post.written
  offset_le : pre.offset ≤ post.offset
  setting_eq : post.setting = pre.setting

theorem Orderly.advance (orderly : pre.Orderly) (advances : Advances pre post) : post.Orderly := by
  have slots_eq : post.slots = pre.slots := congrArg Setting.slots advances.setting_eq
  have start_eq : post.objectStart = pre.objectStart :=
    congrArg Setting.objectStart advances.setting_eq
  have vtables_eq : post.vtables = pre.vtables := congrArg Setting.vtables advances.setting_eq
  have further := advances.offset_le
  refine ⟨advances.bounded, ?_, ?_, ?_, ?_⟩
  · rw [vtables_eq]
    exact orderly.stand.mono advances.isSuffix
  · rw [slots_eq, start_eq]
    intro isOpen
    exact Int.le_trans (orderly.start_le isOpen) further
  · rw [slots_eq, start_eq]
    intro slots isOpen f mem full
    rcases orderly.noted slots isOpen f mem full with ⟨least, greatest⟩
    exact ⟨least, Int.le_trans greatest further⟩
  · have initial_eq : post.initialSpace = pre.initialSpace :=
      congrArg Setting.initialSpace advances.setting_eq
    rw [initial_eq]
    exact orderly.initial_lt

end Builder

open Builder

namespace Build

variable {post : Builder Int}

/-! ## What the steps of a builder preserve -/

variable {prop : Builder Int → Prop}

variable {sizes : Int → Prop}

/-- A property that lasts while bytes are put and room is made, as long as values are aligned to
some sizes only; those of scalars are among them. -/
structure SteadyFor (sizes : Int → Prop) (prop : Builder Int → Prop) : Prop where
  put : ∀ bs, Preserves prop (put bs)
  reserve : ∀ needed, Preserves prop (reserve needed)
  scalar : ∀ kind : ScalarKind, sizes kind.size
  raise : ∀ s size, sizes size → prop s → s.minAlign < size → prop { s with minAlign := size }
  mark : ∀ s, prop s → prop { s with finished := true }

/-- A property that lasts while vectors are written as well. -/
structure StableVectorsFor (sizes : Int → Prop) (prop : Builder Int → Prop) : Prop
    extends SteadyFor sizes prop where
  startVector :
    ∀ {align}, sizes align → ∀ elementSize n, Preserves prop (startVector elementSize n align)
  endVector : Preserves prop endVector

/-- A property that has nothing to do with vectors. -/
structure StableFor (sizes : Int → Prop) (prop : Builder Int → Prop) : Prop
    extends SteadyFor sizes prop where
  count : ∀ s count, prop s → prop { s with vectorCount := count }
  nest : ∀ s nested, prop s → prop { s with nested := nested }

/-- A property that lasts while tables are written as well. -/
structure StableTablesFor (sizes : Int → Prop) (prop : Builder Int → Prop) : Prop
    extends StableVectorsFor sizes prop where
  startTable : ∀ n, Preserves prop (startTable n)
  slot : ∀ i, Preserves prop (slot i)
  endTable : Preserves prop endTable

/-- A property that lasts to whatever sizes values are aligned. -/
abbrev Stable (prop : Builder Int → Prop) : Prop :=
  StableFor (fun _ => True) prop

abbrev StableTables (prop : Builder Int → Prop) : Prop :=
  StableTablesFor (fun _ => True) prop

/-- Putting bytes and making room leave the setting of a builder. -/
theorem steady_setting (prop : Setting → Prop)
    (mark : ∀ setting, prop setting → prop { setting with finished := true }) :
    SteadyFor (fun _ => True) fun s => prop s.setting where
  put := by
    intro bs s holds
    refine .get_bind ?_
    dsimp only
    split
    · exact holds
    · exact holds
  reserve := by
    intro needed s holds
    refine .get_bind (Upholds.bind holds fun _ mid _ left => ?_)
    exact Preserves.ite (.throw _) (.pure _) mid left
  scalar := fun _ => trivial
  raise := fun _ _ _ holds _ => holds
  mark := fun s => mark s.setting

theorem preserves_offset : Preserves prop (offset : Build Int Int) :=
  .get_bind fun _ => .pure _

theorem preserves_assertNotNested : Preserves prop (assertNotNested : Build Int Unit) :=
  .get_bind fun _ => .ite (.throw _) (.pure _)

theorem preserves_requiredField (t e : Int) (name : Option Text) :
    Preserves prop (requiredField t e name) := by
  refine .get_bind fun s => ?_
  dsimp only
  split
  · exact .throw _
  · exact .pure _
  · exact .throw _

theorem preserves_bytes : Preserves prop (bytes : Build Int (List UInt8)) :=
  .get_bind fun _ => .ite (.pure _) (.throw _)

/-- Beginning a table changes its slots, its start and the mark of an open object. -/
theorem preserves_startTable
    (begins : ∀ s n, prop s →
      prop
        { s with
          slots := some (List.replicate n 0)
          nested := true
          objectStart := s.offset })
    (n : Int) :
    Preserves prop (startTable n) := by
  refine .bind preserves_assertNotNested fun _ => ?_
  split
  · exact .modify fun s holds => begins s _ holds
  · exact .throw _

/-- A slot that is noted has the position. -/
theorem preserves_slot
    (notes : ∀ (s : Builder Int) slots i, prop s → s.slots = some slots →
      prop { s with slots := some (slots.set i s.offset) })
    (i : Int) :
    Preserves prop (slot i) := by
  intro pre holds
  refine .get_bind ?_
  split
  · exact holds
  · next slots isOpen =>
      dsimp only
      split
      · exact holds
      · split
        · exact notes pre slots _ holds isOpen
        · exact holds

/-- Try an operation and go on after it, whatever it comes to. -/
def attempt {α : Type} (op : Build Int α) : Build Int (Except WireError α) :=
  ExceptT.mk (Except.ok <$> op.run)

theorem preserves_attempt {op : Build Int α} (preserves : Preserves prop op) :
    Preserves prop (attempt op) :=
  fun pre holds => preserves pre holds

namespace SteadyFor

variable {s : Builder Int}

variable (steady : SteadyFor sizes prop)
include steady

theorem zeros (n : Nat) : Preserves prop (Build.zeros n) := by
  induction n with
  | zero => exact .pure ()
  | succ n ih => exact (steady.put [0]).bind fun _ => ih

theorem pad (n : Int) : Preserves prop (Build.pad n) :=
  .get_bind fun _ => steady.zeros _

theorem raised (admitted : sizes size) (holds : prop s) : prop (s.raised size) := by
  unfold Builder.raised
  split
  · next larger => exact steady.raise s size admitted holds (by simpa using larger)
  · exact holds

/-- Only the greatest alignment changes before room is made. -/
theorem prep_of_raised (extra : Int)
    (holds : prop (s.raised size)) : Upholds prop (Build.prep size extra) s := by
  refine Upholds.bind holds fun _ mid _ left => ?_
  refine Preserves.bind preserves_offset (fun _ => ?_) mid left
  exact .bind (steady.reserve _) fun _ => steady.zeros _

theorem prep (admitted : sizes size) (extra : Int) : Preserves prop (Build.prep size extra) :=
  fun _ holds => steady.prep_of_raised extra (steady.raised admitted holds)

/-- The greatest alignment so far raises nothing. -/
theorem prep_minAlign (extra : Int) (holds : prop s) :
    Upholds prop (Build.prep s.minAlign extra) s := by
  refine steady.prep_of_raised extra ?_
  simp_all [Builder.raised]

theorem addWord {width : Nat} (admitted : sizes width) (v : Int) :
    Preserves prop (Build.addWord width v) :=
  .bind (steady.prep admitted _) fun _ => steady.put _

theorem writeScalar (kind : ScalarKind) (v : ScalarValue) :
    Preserves prop (Build.writeScalar kind v) := by
  unfold Build.writeScalar
  split
  · exact steady.put _
  · exact .throw _

theorem addScalar (kind : ScalarKind) (v : ScalarValue) : Preserves prop (Build.addScalar kind v) :=
  .bind (steady.prep (steady.scalar kind) _) fun _ => steady.writeScalar kind v

theorem addOffset (target : Int) : Preserves prop (Build.addOffset target) := by
  refine .bind (steady.prep (steady.scalar .uint32) _) fun _ => ?_
  refine .bind preserves_offset fun pos => ?_
  split
  · exact .throw_bind _
  · exact steady.put _

theorem refer (root : Int) (sized : Bool) : Preserves prop (Build.refer root sized) := by
  have mark : Preserves prop (modify fun b => { b with finished := true } : Build Int PUnit) :=
    .modify fun s holds => steady.mark s holds
  intro pre holds
  refine .get_bind (.bind (steady.prep_minAlign _ holds) fun _ mid _ left => ?_)
  refine Preserves.bind (steady.addOffset root) (fun _ => ?_) mid left
  split
  · exact .bind preserves_offset fun _ =>
      .bind (steady.addWord (steady.scalar .uint32) _) fun _ => mark
  · exact mark

theorem finish (root : Int) (ident : Option Text) (sized : Bool) :
    Preserves prop (Build.finish root ident sized) := by
  unfold Build.finish
  cases ident with
  | none => exact steady.refer root sized
  | some ident =>
    dsimp only
    split
    · exact .throw_bind _
    · intro pre holds
      refine .get_bind (.bind (steady.prep_minAlign _ holds) fun _ mid _ left => ?_)
      exact Preserves.bind (steady.put _) (fun _ => steady.refer root sized) mid left

end SteadyFor

/-- What has nothing to do with vectors lasts while they are written. -/
theorem StableFor.vectors (stable : StableFor sizes prop) : StableVectorsFor sizes prop where
  toSteadyFor := stable.toSteadyFor
  startVector := by
    intro align admitted elementSize n
    refine .bind preserves_assertNotNested fun _ => .bind (.modify ?_) fun _ => ?_
    · exact fun s holds => stable.count s n holds
    · refine .bind (stable.prep (stable.scalar .uint32) _) fun _ => ?_
      refine .bind (stable.prep admitted _) fun _ => .modify ?_
      exact fun s holds => stable.nest s true holds
  endVector := by
    refine .get_bind fun _ => .ite (.bind (.modify ?_) fun _ => .get_bind fun s => ?_) (.throw _)
    · exact fun s holds => stable.nest s false holds
    · exact .bind (stable.addWord (stable.scalar .uint32) _) fun _ => preserves_offset

namespace StableVectorsFor

theorem createString (stable : StableVectorsFor sizes prop) (content : List UInt8) :
    Preserves prop (Build.createString content) := by
  refine .bind (stable.addScalar _ _) fun _ => ?_
  refine .bind (stable.startVector (stable.scalar .uint8) _ _) fun _ => ?_
  exact .bind (stable.put content) fun _ => stable.endVector

/-- A vector whose elements are written by operations of their own. -/
theorem vector {ε : Type} {elems : List ε} {write : ε → Build Int PUnit}
    (stable : StableVectorsFor sizes prop) (admitted : sizes align) (elementSize n : Int)
    (each : ∀ elem ∈ elems, Preserves prop (write elem)) :
    Preserves prop (do
      Build.startVector elementSize n align
      elems.reverse.forM write
      Build.endVector) := by
  refine .bind (stable.startVector admitted _ _) fun _ => ?_
  refine .bind (.forM ?_) fun _ => stable.endVector
  exact fun elem mem => each elem (List.mem_reverse.mp mem)

end StableVectorsFor

namespace StableTablesFor

variable (stable : StableTablesFor sizes prop)
include stable

theorem addFieldScalar (i : Int) (kind : ScalarKind)
    (v fallback : ScalarValue) : Preserves prop (Build.addFieldScalar i kind v fallback) :=
  .get_bind fun _ => .ite (.pure _) (.bind (stable.addScalar kind v) fun _ => stable.slot i)

theorem addFieldOffset (i target : Int) : Preserves prop (Build.addFieldOffset i target) :=
  .ite (.pure _) (.bind (stable.addOffset target) fun _ => stable.slot i)

theorem addFieldStruct (i target : Int) : Preserves prop (Build.addFieldStruct i target) := by
  refine .bind preserves_offset fun pos => ?_
  split
  · exact .throw_bind _
  · exact stable.slot i

end StableTablesFor

/-- A use of a builder: its operations, one after another, where each may depend on what those
before it came to. -/
inductive Program : {α : Type} → Build Int α → Prop
  | pure {α : Type} (v : α) : Program (Pure.pure v)
  | bind {α β : Type} {op : Build Int α} {tail : α → Build Int β} :
      Program op → (∀ v, Program (tail v)) → Program (op >>= tail)
  | attempt {α : Type} {op : Build Int α} : Program op → Program (attempt op)
  | offset : Program offset
  | pad (n : Int) : Program (pad n)
  | prep (size extra : Int) : Program (prep size extra)
  | writeScalar (kind : ScalarKind) (v : ScalarValue) : Program (writeScalar kind v)
  | addScalar (kind : ScalarKind) (v : ScalarValue) : Program (addScalar kind v)
  | addOffset (target : Int) : Program (addOffset target)
  | startTable (n : Int) : Program (startTable n)
  | slot (i : Int) : Program (slot i)
  | addFieldScalar (i : Int) (kind : ScalarKind) (v fallback : ScalarValue) :
      Program (addFieldScalar i kind v fallback)
  | addFieldOffset (i target : Int) : Program (addFieldOffset i target)
  | addFieldStruct (i target : Int) : Program (addFieldStruct i target)
  | endTable : Program endTable
  | requiredField (t e : Int) (name : Option Text) : Program (requiredField t e name)
  | startVector (elementSize n align : Int) : Program (startVector elementSize n align)
  | endVector : Program endVector
  | createString (content : List UInt8) : Program (createString content)
  | createScalarVector (kind : ScalarKind) (vs : List ScalarValue) :
      Program (createScalarVector kind vs)
  | createOffsetVector (targets : List Int) : Program (createOffsetVector targets)
  | createStructVector (elementSize align : Int) (items : List (Build Int Unit)) :
      (∀ item ∈ items, Program item) → Program (createStructVector elementSize align items)
  | finish (root : Int) (ident : Option Text) (sized : Bool) : Program (finish root ident sized)
  | bytes : Program bytes
  | reset : Program (modify Builder.reset)

/-- Every use of a builder preserves what its steps and beginning anew preserve. -/
theorem Program.preserves {program : Build Int α} (stable : StableTables prop)
    (anew : ∀ s, prop s → prop s.reset) (uses : Program program) : Preserves prop program := by
  induction uses with
  | pure v => exact .pure v
  | bind _ _ first next => exact .bind first next
  | attempt _ ih => exact preserves_attempt ih
  | offset => exact preserves_offset
  | pad n => exact stable.pad n
  | prep size extra => exact stable.prep trivial extra
  | writeScalar kind v => exact stable.writeScalar kind v
  | addScalar kind v => exact stable.addScalar kind v
  | addOffset target => exact stable.addOffset target
  | startTable n => exact stable.startTable n
  | slot i => exact stable.slot i
  | addFieldScalar i kind v fallback => exact stable.addFieldScalar i kind v fallback
  | addFieldOffset i target => exact stable.addFieldOffset i target
  | addFieldStruct i target => exact stable.addFieldStruct i target
  | endTable => exact stable.endTable
  | requiredField t e name => exact preserves_requiredField t e name
  | startVector elementSize n align => exact stable.startVector trivial elementSize n
  | endVector => exact stable.endVector
  | createString content => exact stable.createString content
  | createScalarVector kind vs =>
    exact stable.vector trivial _ _ fun v _ => stable.writeScalar kind v
  | createOffsetVector targets =>
    exact stable.vector trivial _ _ fun target _ => stable.addOffset target
  | createStructVector elementSize align items _ ih => exact stable.vector trivial _ _ ih
  | finish root ident sized => exact stable.finish root ident sized
  | bytes => exact preserves_bytes
  | reset => exact .modify anew

/-! ## The order of a builder in use -/

variable {pre : Builder Int}

/-- Bytes that are put come first; without room for them the position moves alone. -/
theorem advances_put (bounded : pre.Bounded) (bs : List UInt8) :
    Advances pre ((put bs).run.run pre).2 := by
  rcases bounded with ⟨space_le, size_le, size_le_capacity, capacity_pos, capacity_lt, aligned⟩
  show Upholds (Advances pre) (put bs) pre
  refine .get_bind ?_
  dsimp only
  rw [Extent.ofInt_int]
  split
  · next gap hit =>
      rcases distance?_eq_some hit with ⟨room, _, nearest⟩
      show Advances pre
        { pre with
          space := pre.space - bs.length
          tape := pre.tape.place gap bs }
      refine ⟨⟨?_, ?_, ?_, capacity_pos, capacity_lt, aligned⟩, ⟨bs, ?_⟩, ?_, rfl⟩
      · simp only
        omega
      · simp only [Tape.place]
        omega
      · simp only [Tape.place]
        omega
      · grind [written_eq, Tape.last_place_length]
      · simp only [Builder.offset, Extent.ofInt_int]
        omega
  · show Advances pre { pre with space := pre.space - bs.length }
    refine ⟨⟨?_, ?_, size_le_capacity, capacity_pos, capacity_lt, aligned⟩, ?_, ?_, rfl⟩
    · simp only
      omega
    · simp only
      omega
    · grind [written_eq, Tape.last_suffix]
    · simp only [Builder.offset, Extent.ofInt_int]
      omega

/-- Room that is made leaves the offset as it is. -/
theorem advances_enlarged (bounded : pre.Bounded) (needed : Int) :
    Advances pre (pre.enlarged needed) := by
  rcases bounded.enlarged needed with ⟨still, off, more, larger⟩
  refine ⟨still, ?_, Int.le_of_eq off.symm, rfl⟩
  simp only [Builder.offset, Extent.ofInt_int] at off
  rw [written_eq, written_eq]
  exact Tape.last_suffix _ (by omega)

theorem orderly_reserve (needed : Int) : Preserves Orderly (reserve needed) := by
  intro pre orderly
  refine .get_bind ?_
  have grown := orderly.advance (advances_enlarged orderly.bounded needed)
  refine Upholds.bind grown fun _ mid _ left => ?_
  exact Preserves.ite (.throw _) (.pure _) mid left

theorem stable_orderly : Stable Orderly where
  put := fun bs _ orderly => orderly.advance (advances_put orderly.bounded bs)
  reserve := orderly_reserve
  scalar := fun _ => trivial
  raise := fun _ _ _ orderly larger =>
    orderly.of_eq rfl rfl rfl rfl rfl rfl rfl (Int.le_of_lt larger)
  count := fun _ _ orderly => orderly.of_eq rfl rfl rfl rfl rfl rfl rfl (Int.le_refl _)
  nest := fun _ _ orderly => orderly.of_eq rfl rfl rfl rfl rfl rfl rfl (Int.le_refl _)
  mark := fun _ orderly => orderly.of_eq rfl rfl rfl rfl rfl rfl rfl (Int.le_refl _)

theorem orderly_startTable (n : Int) : Preserves Orderly (startTable n) := by
  refine preserves_startTable (fun s n orderly => ?_) n
  refine ⟨orderly.bounded.of_setting rfl rfl rfl (Int.le_refl _), orderly.stand, ?_, ?_,
    orderly.initial_lt⟩
  · exact fun _ => Int.le_refl _
  grind

/-- A slot notes the position, behind which the open table began. -/
theorem orderly_slot (i : Int) : Preserves Orderly (slot i) := by
  refine preserves_slot (fun s slots i orderly isOpen => ?_) i
  have begun := orderly.start_le (by rw [isOpen]; rfl)
  refine ⟨orderly.bounded.of_setting rfl rfl rfl (Int.le_refl _), orderly.stand,
    fun _ => begun, ?_, orderly.initial_lt⟩
  rintro _ ⟨⟩ f mem full
  rcases List.mem_or_eq_of_mem_set mem with old | rfl
  · exact orderly.noted slots isOpen f old full
  · exact ⟨begun, Int.le_refl _⟩

theorem slots_of_endTable (ran : Yields endTable pre obj post) :
    ∃ slots, pre.slots = some slots := by
  grind [Yields.throw_iff, Yields.get_bind_iff, endTable]

theorem orderly_of_closedTable {slots : List Int} (orderly : pre.Orderly)
    (closed : ClosedTable pre slots obj post) :
    post.Orderly := by
  have slots_eq : post.slots = none := congrArg Setting.slots closed.setting_eq
  have initial_eq : post.initialSpace = pre.initialSpace :=
    congrArg Setting.initialSpace closed.setting_eq
  refine ⟨closed.valid.toBounded, closed.vtablesStand, ?_, ?_, ?_⟩
  · grind
  · grind
  · rw [initial_eq]
    exact orderly.initial_lt

/-- A vtable that has been found or written is noted where it stands. -/
theorem orderly_of_vtable (orderly : pre.Orderly)
    (valid : pre.Valid) (even : (pre.written.length : Int) % 2 = 0)
    (ran : Yields (Build.vtable words) pre vt post) :
    post.Orderly := by
  rcases (vtable_ends words valid even).yields ran with
    ⟨more, afterValid, bytes_eq, setting_eq, _, _, standing⟩
  have longer : pre.offset ≤ post.offset := by
    rw [valid.offset_eq, afterValid.offset_eq, bytes_eq, List.length_append]
    omega
  have slots_eq : post.slots = pre.slots := congrArg Setting.slots setting_eq
  have start_eq : post.objectStart = pre.objectStart := congrArg Setting.objectStart setting_eq
  have initial_eq : post.initialSpace = pre.initialSpace := congrArg Setting.initialSpace setting_eq
  refine ⟨afterValid.toBounded, ?_, ?_, ?_, ?_⟩
  · grind [Orderly.stand]
  · rw [slots_eq, start_eq]
    exact fun isOpen => Int.le_trans (orderly.start_le isOpen) longer
  · rw [slots_eq, start_eq]
    intro slots isOpen f mem full
    rcases orderly.noted slots isOpen f mem full with ⟨least, greatest⟩
    exact ⟨least, Int.le_trans greatest longer⟩
  · rw [initial_eq]
    exact orderly.initial_lt

theorem vtable_fails (steady : SteadyFor (fun _ => True) prop) (holds : prop pre)
    (words : List Int) : Ensures (vtable words) pre (fun _ _ => True) fun _ => prop := by
  have loop : Preserves prop (words.reverse.forM (addWord 2) : Build Int PUnit) :=
    .forM fun word _ => steady.addWord trivial word
  refine .get_bind ?_
  split
  · exact .pure trivial
  · exact (loop pre holds).ensures.andThen fun _ _ _ => trivial

theorem replace_fails (holds : prop pre) (pos : Int) (bs : List UInt8) :
    Ensures (replace pos bs) pre (fun _ _ => True) fun _ => prop := by
  refine .get_bind ?_
  split
  · trivial
  · exact .throw holds

/-- Ending a table that fails leaves the bytes that were written so far. -/
theorem orderly_endTable : Preserves Orderly (endTable : Build Int Int) := by
  intro pre orderly
  refine .of_outcomes ?_ ?_
  · intro obj post ran
    rcases slots_of_endTable ran with ⟨slots, isOpen⟩
    exact orderly_of_closedTable orderly
      ((endTable_ends orderly.bounded orderly.stand isOpen).yields ran)
  · refine .get_bind (.get_bind ?_)
    split
    · next slots _ isOpen =>
        have word : Upholds Orderly (addWord 4 (Extent.ofInt 0)) pre :=
          stable_orderly.addWord trivial _ pre orderly
        refine word.ensures.yielding.andThen ?_
        rintro _ begun ⟨worded, begunOrderly⟩
        rcases (addWord_ends isAlignment_four orderly.bounded _).yields worded with
          ⟨_, padded, appended, further⟩
        rw [appended.valid.offset_eq] at further
        have lists := fun words => vtable_fails stable_orderly.toSteadyFor begunOrderly words
        refine .get_bind (.get_bind ((lists _).yielding.andThen ?_))
        rintro vt listed ⟨hit, _⟩
        have listedOrderly := orderly_of_vtable begunOrderly appended.valid (by omega) hit
        exact (replace_fails listedOrderly _ _).andThen fun _ _ _ => trivial
    · exact .throw orderly

theorem stableTables_orderly : StableTables Orderly where
  toStableVectorsFor := stable_orderly.vectors
  startTable := orderly_startTable
  slot := orderly_slot
  endTable := orderly_endTable

end Build

/-- A builder that some use of a new one leaves. -/
def Builder.Reachable (b : Builder Int) : Prop :=
  ∃ (room : Int) (force : Bool) (α : Type) (program : Build Int α),
    room < 2147483648 ∧ Build.Program program ∧
      b = (program.run.run (Builder.start room force)).2

theorem Builder.Reachable.orderly {b : Builder Int} (reachable : b.Reachable) : b.Orderly := by
  rcases reachable with ⟨room, force, α, program, small, uses, rfl⟩
  refine uses.preserves Build.stableTables_orderly ?_ _ (orderly_start small force)
  exact fun _ orderly => orderly_start orderly.initial_lt _

end FlatSchema

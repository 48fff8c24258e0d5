import FlatSchema.Proofs.Operations

/-!
# Calls of a builder

The operations of a builder as data: what may be asked of it, with sizes,
offsets and slots that are natural numbers.  A vector of structs is asked for
with a writer for each of its elements, which makes calls of its own.

`Call.run` is what a call does.  Whatever the steps of a builder preserve,
every call preserves, whether it succeeds or fails halfway.
-/

namespace FlatSchema

namespace Build

/-- What a call answers. -/
inductive Answer where
  | done
  | offset (v : Int)
  | bytes (content : List UInt8)
deriving DecidableEq, Inhabited, Repr

/-- The public operations of a builder apart from beginning anew.  The writer of an element is a
list of calls; it ends at the first that fails, unless the call is one that it attempts. -/
inductive Call where
  | offset
  | pad (n : Nat)
  | prep (size extra : Nat)
  | writeScalar (kind : ScalarKind) (v : ScalarValue)
  | addScalar (kind : ScalarKind) (v : ScalarValue)
  | addOffset (target : Nat)
  | startTable (n : Nat)
  | slot (i : Nat)
  | addFieldScalar (i : Nat) (kind : ScalarKind) (v fallback : ScalarValue)
  | addFieldOffset (i target : Nat)
  | addFieldStruct (i target : Nat)
  | endTable
  | requiredField (t e : Nat) (name : Option Text)
  | startVector (width n align : Nat)
  | endVector
  | createString (content : List UInt8)
  | createScalarVector (kind : ScalarKind) (vs : List ScalarValue)
  | createOffsetVector (targets : List Nat)
  | createStructVector (width align : Nat) (writers : List (List Call))
  | finish (root : Nat) (ident : Option Text) (sized : Bool)
  | bytes
  | attempt (call : Call)
deriving Inhabited, Repr

namespace Call

/-- An operation that answers nothing. -/
def quiet (op : Build Int Unit) : Build Int Answer := do
  op
  return .done

/-- An operation that answers an offset. -/
def placing (op : Build Int Int) : Build Int Answer := do
  return .offset (← op)

mutual

/-- What a call does. -/
def run : Call → Build Int Answer
  | .offset => placing Build.offset
  | .pad n => quiet (Build.pad (n : Int))
  | .prep size extra => quiet (Build.prep (size : Int) extra)
  | .writeScalar kind v => quiet (Build.writeScalar kind v)
  | .addScalar kind v => quiet (Build.addScalar kind v)
  | .addOffset target => quiet (Build.addOffset (target : Int))
  | .startTable n => quiet (Build.startTable (n : Int))
  | .slot i => quiet (Build.slot (i : Int))
  | .addFieldScalar i kind v fallback =>
    quiet (Build.addFieldScalar (i : Int) kind v fallback)
  | .addFieldOffset i target => quiet (Build.addFieldOffset (i : Int) target)
  | .addFieldStruct i target => quiet (Build.addFieldStruct (i : Int) target)
  | .endTable => placing Build.endTable
  | .requiredField t e name => quiet (Build.requiredField (t : Int) e name)
  | .startVector width n align =>
    quiet (Build.startVector (width : Int) n align)
  | .endVector => placing Build.endVector
  | .createString content => placing (Build.createString content)
  | .createScalarVector kind vs => placing (Build.createScalarVector kind vs)
  | .createOffsetVector targets => placing (Build.createOffsetVector (targets.map Int.ofNat))
  | .createStructVector width align writers =>
    placing (Build.createStructVector (width : Int) align (runWriters writers))
  | .finish root ident sized => quiet (Build.finish (root : Int) ident sized)
  | .bytes => do return .bytes (← Build.bytes)
  | .attempt call => do
      let _ ← Build.attempt call.run
      return .done

/-- What a writer does. -/
def runSteps : List Call → Build Int Unit
  | [] => return ()
  | call :: rest => do
      let _ ← call.run
      runSteps rest

/-- What each of several writers does. -/
def runWriters : List (List Call) → List (Build Int Unit)
  | [] => []
  | writer :: rest => runSteps writer :: runWriters rest

end

/-- The builder that a call leaves, whatever comes of it. -/
def after (call : Call) (pre : Builder Int) : Builder Int :=
  (call.run.run.run pre).2

/-- What comes of a call. -/
def outcome (call : Call) (pre : Builder Int) : Except WireError Answer :=
  (call.run.run.run pre).1

/-- The builder that calls leave one after another, whatever comes of each. -/
def afterAll (calls : List Call) (pre : Builder Int) : Builder Int :=
  calls.foldl (fun b call => call.after b) pre

/-- A call that answers nothing leaves what its operation does. -/
theorem after_of_quiet {call : Call}
    (runs : call.run = quiet op) (ran : Yields op pre () post) : call.after pre = post := by
  have ran : Yields call.run pre .done post := by
    rw [runs]
    exact Yields.bind_iff.mpr ⟨_, _, ran, Yields.pure_iff.mpr ⟨rfl, rfl⟩⟩
  rw [after, ran]

theorem runWriters_eq_map (writers : List (List Call)) :
    runWriters writers = writers.map runSteps := by
  induction writers with
  | nil => rfl
  | cons writer rest ih => rw [runWriters, ih, List.map_cons]

/-- A call that makes no calls of its own. -/
def isPlain : Call → Bool
  | .createStructVector _ _ _ | .attempt _ => false
  | _ => true

/-- What holds of plain calls, and of each call if it does of those that it makes, holds of
all. -/
@[elab_as_elim]
theorem induction {motive : Call → Prop} (plain : ∀ call : Call, call.isPlain = true → motive call)
    (vector :
      ∀ width align writers, (∀ writer ∈ writers, ∀ call ∈ writer, motive call) →
        motive (.createStructVector width align writers))
    (attempt : ∀ call, motive call → motive (.attempt call)) (call : Call) : motive call := by
  induction size : sizeOf call using Nat.strongRecOn generalizing call with
  | ind bound ih =>
  cases call with
  | createStructVector width align writers =>
    refine vector width align writers fun writer mem call own => ?_
    have fits := List.sizeOf_lt_of_mem mem
    have inner := List.sizeOf_lt_of_mem own
    grind
  | attempt call =>
    grind
  | _ => exact plain _ rfl

/-- A call, or one that it makes, asks for an alignment. -/
inductive Asks : Call → Int → Prop
  | prep {size extra : Nat} : Asks (.prep size extra) size
  | startVector {width n align : Nat} : Asks (.startVector width n align) align
  | structVector {width align : Nat} {writers : List (List Call)} :
      Asks (.createStructVector width align writers) align
  | writer {width align : Nat} {writers : List (List Call)} {writer : List Call} {call : Call}
      {size : Int} (own : writer ∈ writers) (made : call ∈ writer) (asks : Asks call size) :
      Asks (.createStructVector width align writers) size
  | attempt {call : Call} {size : Int} (asks : Asks call size) : Asks (.attempt call) size

/-! ## What calls preserve -/

variable {prop : Builder Int → Prop} {sizes : Int → Prop}

theorem preserves_quiet (preserves : Preserves prop op) : Preserves prop (quiet op) :=
  .bind preserves fun _ => .pure _

theorem preserves_placing (preserves : Preserves prop op) : Preserves prop (placing op) :=
  .bind preserves fun _ => .pure _

theorem preserves_runSteps (each : ∀ call ∈ calls, Preserves prop call.run) :
    Preserves prop (runSteps calls) := by
  induction calls with
  | nil => exact .pure ()
  | cons hd rest ih =>
    refine .bind (each hd List.mem_cons_self) fun _ => ?_
    exact ih fun call mem => each call (List.mem_cons_of_mem _ mem)

variable (stable : StableTablesFor sizes prop)
include stable

theorem preserves_plain {call : Call}
    (plain : call.isPlain = true) (asked : ∀ size, call.Asks size → sizes size) :
    Preserves prop call.run := by
  cases call with
  | createStructVector | attempt => cases plain
  | offset => exact preserves_placing preserves_offset
  | pad n => exact preserves_quiet (stable.pad _)
  | prep size extra => exact preserves_quiet (stable.prep (asked _ .prep) _)
  | writeScalar kind v => exact preserves_quiet (stable.writeScalar _ _)
  | addScalar kind v => exact preserves_quiet (stable.addScalar _ _)
  | addOffset target => exact preserves_quiet (stable.addOffset _)
  | startTable n => exact preserves_quiet (stable.startTable _)
  | slot i => exact preserves_quiet (stable.slot _)
  | addFieldScalar => exact preserves_quiet (stable.addFieldScalar _ _ _ _)
  | addFieldOffset => exact preserves_quiet (stable.addFieldOffset _ _)
  | addFieldStruct => exact preserves_quiet (stable.addFieldStruct _ _)
  | endTable => exact preserves_placing stable.endTable
  | requiredField => exact preserves_quiet (preserves_requiredField _ _ _)
  | startVector => exact preserves_quiet (stable.startVector (asked _ .startVector) _ _)
  | endVector => exact preserves_placing stable.endVector
  | createString content => exact preserves_placing (stable.createString _)
  | createScalarVector kind vs =>
    exact preserves_placing
      (stable.vector (stable.scalar kind) _ _ fun v _ => stable.writeScalar kind v)
  | createOffsetVector targets =>
    exact preserves_placing
      (stable.vector (stable.scalar .uint32) _ _ fun target _ => stable.addOffset target)
  | finish => exact preserves_quiet (stable.finish _ _ _)
  | bytes => exact .bind preserves_bytes fun _ => .pure _

/-- Whatever comes of a call, it preserves what the steps of a builder preserve. -/
theorem preserves_run (call : Call)
    (asked : ∀ size, call.Asks size → sizes size) : Preserves prop call.run := by
  induction call using Call.induction with
  | plain call isPlain => exact preserves_plain stable isPlain asked
  | vector width align writers ih =>
    refine preserves_placing (stable.vector (asked _ .structVector) _ _ fun step mem => ?_)
    rw [runWriters_eq_map] at mem
    rcases List.mem_map.mp mem with ⟨writer, own, rfl⟩
    refine preserves_runSteps fun call made => ih writer own call made fun size asks => ?_
    exact asked size (.writer own made asks)
  | attempt call ih =>
    refine .bind (preserves_attempt (ih fun size asks => ?_)) fun _ => .pure _
    exact asked size (.attempt asks)

theorem preserves_afterAll (calls : List Call)
    (asked : ∀ call ∈ calls, ∀ size, call.Asks size → sizes size) (holds : prop pre) :
    prop (afterAll calls pre) := by
  induction calls generalizing pre with
  | nil => exact holds
  | cons call rest ih =>
    rw [List.forall_mem_cons] at asked
    exact ih asked.2 (call.preserves_run stable asked.1 pre holds)

end Call

end Build

end FlatSchema

import FlatSchema.Proofs.Reading
import FlatSchema.Proofs.Success

/-!
# What writing can fail for

Writing a record can fail because a value has not the shape of its type or
because the builder refuses.  It can also fail because the catalog refers to
nothing or to something of the wrong kind; over a closed catalog this never
happens, and neither does it in reading.
-/

namespace FlatSchema

open Catalog Decode Fields Value

/-- The failures that only a catalog with loose ends can cause. -/
def RecordError.isInternal : RecordError → Bool
  | .unknownEntry _ | .notTable _ | .structFieldType _ | .vectorElement _ => true
  | _ => false

/-- An outcome that is no such failure. -/
abbrev External {α : Type} (out : Except RecordError α) : Prop :=
  FailsOnly (fun err => err.isInternal = false) out

namespace Encode

/-! ## Operations without internal failures -/

/-- An operation that fails for what it is given, if at all. -/
def Safe {ν α : Type} (op : Encode ν α) : Prop :=
  ∀ pre, External (op.run.run pre).1

namespace Safe

variable {ν α β : Type}

theorem pure (v : α) : Safe (Pure.pure v : Encode ν α) :=
  fun _ => Alike.pure v

theorem throw (external : err.isInternal = false) : Safe (MonadExcept.throw err : Encode ν α) :=
  fun _ => Alike.error external

variable {next : α → Encode ν β}

theorem bind (first : Safe op) (tail : ∀ v, Safe (next v)) : Safe (op >>= next) := by
  intro pre
  have ended := first pre
  rw [Yields.run_bind]
  rcases ran : op.run.run pre with ⟨out, mid⟩
  rw [ran] at ended
  cases out with
  | ok v => exact tail v mid
  | error err => exact Alike.error (ended.2 err rfl)

/-- The builder fails for reasons of its own. -/
theorem ofBuild (op : Build ν α) : Safe (Encode.ofBuild op) := by
  intro pre
  rw [run_ofBuild]
  rcases op.run.run pre with ⟨out, mid⟩
  cases out with
  | ok v => exact Alike.pure v
  | error err => exact Alike.error rfl

/-- A check of a value. -/
theorem lift (checks : External out) : Safe (liftM out : Encode ν α) := by
  cases out with
  | ok v => exact pure v
  | error err => exact throw (checks.2 err rfl)

/-- A look-up that finds something. -/
theorem found {out : Except RecordError α}
    (finds : FailsOnly (fun _ => False) out) (tail : ∀ v, out = .ok v → Safe (next v)) :
    Safe ((liftM out : Encode ν α) >>= next) := by
  rcases finds.exists_ok with ⟨v, rfl⟩
  exact tail v rfl

/-- A look-up whose result is known. -/
theorem known {out : Except RecordError α}
    (hit : out = .ok v) (tail : Safe (next v)) : Safe ((liftM out : Encode ν α) >>= next) := by
  rw [hit]
  exact tail

theorem forM {step : α → Encode ν PUnit} {elems : List α}
    (each : ∀ elem ∈ elems, Safe (step elem)) : Safe (elems.forM step) := by
  induction elems with
  | nil => exact pure PUnit.unit
  | cons hd rest ih =>
    refine bind (each hd List.mem_cons_self) fun _ => ?_
    exact ih fun elem mem => each elem (List.mem_cons_of_mem _ mem)

theorem mapM {step : α → Encode ν β} {elems : List α} (each : ∀ elem ∈ elems, Safe (step elem)) :
    Safe (elems.mapM step) := by
  induction elems with
  | nil => exact pure []
  | cons hd rest ih =>
    rw [List.mapM_cons]
    refine bind (each hd List.mem_cons_self) fun _ => ?_
    refine bind (ih fun elem mem => each elem (List.mem_cons_of_mem _ mem)) fun _ => ?_
    exact pure _

end Safe

/-! ## Checks of values -/

theorem external_normalize (kind : ScalarKind) (place : String) (v : Option Value) :
    External (normalize kind place v) := by
  unfold normalize
  split
  · split
    · split <;> exact .pure _
    · split
      · split
        · exact .pure _
        · exact .pure _
        · split
          · exact .pure _
          · exact .error rfl
      · exact .pure _
  · exact .error rfl

theorem external_asRecord (place : String) (v : Option Value) : External (asRecord place v) := by
  unfold asRecord
  split
  · exact .pure _
  · exact .error rfl

theorem external_asText (place : String) (v : Option Value) : External (asText place v) := by
  unfold asText
  split
  · exact .pure _
  · exact .error rfl

/-! ## Structs and slots -/

section

variable {ν : Type} [Extent ν] {c : Catalog} (closed : c.Closed)
include closed

theorem safe_writeStruct (e : Entry) {id : Nat}
    (body : c.body? id = some (.struct struct)) (fs : Fields) :
    Safe (writeStruct c e struct fs : Encode ν ν) := by
  induction size : sizeOf fs using Nat.strongRecOn generalizing id e struct fs with
  | ind bound ih =>
  rw [writeStruct]
  refine .bind (.ofBuild _) fun _ => .bind (.forM fun f mem => ?_) fun _ => .ofBuild _
  refine .bind (.ofBuild _) fun _ => ?_
  cases closed.body body with
  | struct isInline =>
  have inline := isInline f (List.mem_reverse.mp mem)
  refine .found (failsOnly_structOf inline.known) fun hit isStruct => ?_
  rcases hit with _ | ⟨inner, nested⟩
  · refine .found (failsOnly_scalarOf inline.known) fun hit isScalar => ?_
    cases hit with
    | some kind => exact .bind (.lift (external_normalize kind _ _)) fun _ => .ofBuild _
    | none => exact (inline.not_both isScalar isStruct).elim
  · dsimp only
    split
    · next innerFs hit =>
        have smaller := sizeOf_lt_of_lookup hit
        rw [record.sizeOf_spec] at smaller
        rcases structOf_eq_some isStruct with ⟨_, _, nestedBody⟩
        exact .bind (ih (sizeOf innerFs) (by omega) inner nestedBody innerFs rfl) fun _ => .pure _
    · exact .throw rfl

theorem safe_writeStructs (e : Entry) {id : Nat}
    (body : c.body? id = some (.struct struct)) (items : List Value) (place : String) :
    Safe (writeStructs c e struct items place : Encode ν ν) := by
  refine .bind (.ofBuild _) fun _ => .bind (.forM fun item _ => ?_) fun _ => .ofBuild _
  refine .bind (.lift (external_asRecord place (some item))) fun fs => ?_
  exact .bind (safe_writeStruct closed e body fs) fun _ => .pure _

theorem safe_writeSlot (e : Entry) (fs : Fields)
    (kids : List (String × Child ν)) {write : SlotWrite} (known : c.Known write.field.type) :
    Safe (writeSlot c e fs kids write) := by
  unfold writeSlot
  split
  · exact .ofBuild _
  refine .found (failsOnly_scalarOf known) fun hit _ => ?_
  cases hit with
  | some kind =>
    dsimp only
    split
    · exact .bind (.lift (external_normalize kind _ _)) fun _ => .ofBuild _
    · exact .ofBuild _
  | none =>
  refine .found (failsOnly_structOf known) fun hit isStruct => ?_
  rcases hit with _ | ⟨inner, struct⟩
  · exact .ofBuild _
  · dsimp only
    split
    · next v _ =>
        refine .bind (.lift (external_asRecord _ (some v))) fun innerFs => ?_
        rcases structOf_eq_some isStruct with ⟨_, _, body⟩
        exact .bind (safe_writeStruct closed inner body innerFs) fun _ => .ofBuild _
    · exact .pure _

/-! ## Tables -/

omit closed in
/-- Writing a record as any table of the catalog is safe. -/
def TableSafe (ν : Type) [Extent ν] (c : Catalog) (fs : Fields) : Prop :=
  ∀ e id t,
    c.body? id = some (.table t) →
      Safe (writeTable c e t fs : Encode ν ν)

theorem safe_writeVector {elem : FieldType} (isElement : IsElement c elem)
    (inner : ∀ fs, .record fs ∈ items → TableSafe ν c fs) (place : String) :
    Safe (writeVector c elem items place : Encode ν ν) := by
  rw [writeVector.eq_def]
  refine .found (failsOnly_scalarOf isElement.known) fun hit isScalar => ?_
  cases hit with
  | some kind =>
    refine .bind (.mapM fun pair _ => ?_) fun _ => .ofBuild _
    exact .lift (external_normalize kind _ (some pair.1))
  | none =>
  refine .found (failsOnly_structOf isElement.known) fun hit isStruct => ?_
  rcases hit with _ | ⟨e, struct⟩
  · cases elem with
    | scalar => cases isScalar
    | string =>
      refine .bind (.mapM fun pair _ => ?_) fun _ => .ofBuild _
      exact .bind (.lift (external_asText _ (some pair.1))) fun _ => .ofBuild _
    | named id =>
      rcases isElement.exists_table isScalar isStruct with ⟨t, body⟩
      rcases tableOf_of_body body with ⟨e, known⟩
      refine .known known (.bind (.mapM fun pair _ => ?_) fun _ => .ofBuild _)
      rcases pair with ⟨⟨item, mem⟩, i⟩
      dsimp only
      split
      · exact inner _ mem e id t body
      · exact .throw rfl
    | vector => rcases isElement with ⟨⟨⟩⟩
  grind [structOf_eq_some, safe_writeStructs]

theorem safe_writeChild (isMember : IsMember c f.type)
    (inner : ∀ fs : Fields, sizeOf fs < sizeOf v → TableSafe ν c fs) (place : String) :
    Safe (writeChild c f v place : Encode ν (Option (Child ν))) := by
  rw [writeChild.eq_def]
  generalize f.type = ty at isMember
  cases ty with
  | scalar => exact .pure _
  | string =>
    refine .bind (.lift (external_asText place (some v))) fun _ => ?_
    exact .bind (.ofBuild _) fun _ => .pure _
  | vector elem =>
    rcases isMember with ⟨⟨⟨⟩⟩⟩ | isElement | ⟨_, ⟨⟩, _⟩
    dsimp only
    split
    · next items =>
        refine .bind (safe_writeVector closed isElement (fun fs mem => inner fs ?_) place)
          fun _ => .pure _
        have smaller := List.sizeOf_lt_of_mem mem
        grind
    · exact .throw rfl
  | named id =>
    rcases isMember.known with ⟨e, stands⟩
    have body := body?_of_entry? stands rfl
    have known := entryOf_of_entry? stands
    refine .known known ?_
    cases own : e.body with
    | table t =>
      rw [own] at body
      dsimp only
      split
      · next fs => exact .bind (inner fs (by simp) e id t body) fun _ => .pure _
      · exact .throw rfl
    | union union =>
      rw [own] at body
      cases closed.body body with
      | union isTable =>
      dsimp only
      split
      · next pick =>
          refine .bind (.lift (external_asText _ _)) fun name => ?_
          split
          · exact .throw rfl
          · next alt chosen =>
              split
              · next fs held =>
                  have smaller := sizeOf_lt_of_lookup held
                  rcases exists_table (isTable alt (List.mem_of_find?_eq_some chosen)) with
                    ⟨target, t, stands, own⟩
                  have known := tableOf_of_entry? stands own
                  have tableBody := body?_of_entry? stands own
                  refine .known known (.bind (inner fs ?_ target _ t tableBody) fun _ => .pure _)
                  grind
              · exact .throw rfl
      · exact .throw rfl
    | enum | struct | service => exact .pure _

/-- Writing a record as a table of a closed catalog never fails because of the catalog.  The
argument goes by the size of the record: each nested record is smaller. -/
theorem safe_writeTable (fs : Fields) : TableSafe ν c fs := by
  induction size : sizeOf fs using Nat.strongRecOn generalizing fs with
  | ind bound ih =>
  intro e id t body
  rw [writeTable]
  cases closed.body body with
  | table isMember _ =>
    refine .bind (.mapM fun f mem => ?_) fun kids => .bind (.ofBuild _) fun _ => ?_
    · have fits := List.mem_of_mem_filter mem
      split
      · next v here =>
          have smaller := sizeOf_lt_of_present here
          grind [Safe.bind, safe_writeChild, Safe.pure]
      · exact .pure _
    · refine .bind (.forM fun write mem => ?_) fun _ => ?_
      · grind [field_of_mem_writeOrder, safe_writeSlot, IsMember.known]
      · exact .bind (.ofBuild _) fun _ => .bind (.ofBuild _) fun _ => .pure _

end

end Encode

/-- Reading a table of a closed catalog never fails because of the catalog, however deep the
tables nest. -/
theorem Decode.external_readTable [Extent ν]
    (closed : c.Closed) (sound : c.Sound) (buf : Buffer) (depth : Nat)
    (closedTable : c.ClosedBody (.table t)) (pos : ν) : External (readTable buf c depth t pos) := by
  induction depth generalizing t pos with
  | zero => exact .error rfl
  | succ depth ih =>
    have nested :
        AlikeFrom (fun err : RecordError => err.isInternal = false) c buf pos
          (readTable buf c depth) (readTable buf c depth) :=
      fun _ target closedInner _ => ih closedInner target
    refine alike_tableWith ?_ closed sound closedTable nested
    rfl

end FlatSchema

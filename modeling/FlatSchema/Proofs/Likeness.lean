import FlatSchema.Proofs.AppendOnly

/-!
# Builders that differ in their room alone

Two builders are alike if they hold the same, whatever their room.  One of
them serves as the measure: it was begun with ample room, and as long as that
room need not grow, every request has stayed within it.

`Tracks need operation leave` compares an operation on such a pair: from
builders that are alike and have `need` bytes free, it comes to the same on
both and leaves builders that are alike, with `leave` bytes free if it
succeeds, unless the ample room has been outgrown.  Operations that reserve
the room for what they write need none.
-/

namespace FlatSchema

variable {needed : Int} {err : WireError}

namespace Builder

/-- What a builder holds apart from its room. -/
structure View where
  bytes : List UInt8
  offset : Int
  minAlign : Int
  setting : Setting

def view (b : Builder Int) : View :=
  ⟨b.written, b.offset, b.minAlign, { b.setting with initialSpace := 0 }⟩

/-- Room for half a gibibyte. -/
def ampleRoom : Nat := 0x20000000

/-- More room has been asked for than was ample. -/
def Outgrown (b : Builder Int) : Prop :=
  ampleRoom < b.capacity

/-- A builder looks like one with ample room, and both have some bytes free. -/
structure Resembles (free : Nat) (ample b : Builder Int) : Prop where
  ampleValid : ample.Valid
  valid : b.Valid
  capacity_eq : ample.capacity = ampleRoom
  view_eq : b.view = ample.view
  ampleFree : (free : Int) ≤ ample.space
  isFree : (free : Int) ≤ b.space

variable {ample b : Builder Int} {free : Nat}

theorem Resembles.mono (like : Resembles free ample b) (fewer : less ≤ free) :
    Resembles less ample b :=
  { like with
    ampleFree := by have := like.ampleFree; omega
    isFree := by have := like.isFree; omega }

theorem Resembles.written_eq (like : Resembles free ample b) : b.written = ample.written :=
  congrArg View.bytes like.view_eq

theorem Resembles.offset_eq (like : Resembles free ample b) : b.offset = ample.offset :=
  congrArg View.offset like.view_eq

theorem Keeps.outgrown (keeps : Keeps pre post) (outgrown : pre.Outgrown) : post.Outgrown :=
  Nat.lt_of_lt_of_le outgrown keeps.capacity_le

end Builder

open Builder

namespace Build

variable {α β : Type} {ample b pre post : Builder Int} {need mid leave : Nat}

/-- Room never shrinks. -/
theorem outgrown_of_keeps {op : Build Int α}
    (keeps : ∀ src, Preserves (Keeps src) op) : Preserves Outgrown op :=
  fun s outgrown => (keeps s s (.refl s)).outgrown outgrown

theorem stableTables_outgrown : StableTables Outgrown where
  put := fun bs => outgrown_of_keeps fun src => (stable_keeps src).put bs
  reserve := fun needed => outgrown_of_keeps fun src => (stable_keeps src).reserve needed
  scalar := fun _ => trivial
  raise := fun _ _ _ outgrown _ => outgrown
  mark := fun _ outgrown => outgrown
  startVector := fun admitted elementSize n =>
    outgrown_of_keeps fun src => (stable_keeps src).vectors.startVector admitted elementSize n
  endVector := outgrown_of_keeps fun src => (stable_keeps src).vectors.endVector
  startTable := fun n => outgrown_of_keeps fun src => (stableTables_keeps src).startTable n
  slot := fun i => outgrown_of_keeps fun src => (stableTables_keeps src).slot i
  endTable := outgrown_of_keeps fun src => (stableTables_keeps src).endTable

/-- An operation was refused for want of room. -/
def LacksRoom (out : Except WireError α) : Prop :=
  out = .error .tooLarge ∨ out = .error .outOfRange

theorem not_lacksRoom_ok (v : α) : ¬LacksRoom (.ok v : Except WireError α) := by
  rintro (lacks | lacks)
  · cases lacks
  · cases lacks

theorem not_lacksRoom_error (large : err ≠ .tooLarge) (fits : err ≠ .outOfRange) :
    ¬LacksRoom (.error err : Except WireError α) := by
  grind [LacksRoom]

/-- Two runs have come to the same, not for want of room, and have left builders that are alike. -/
structure Agree (leave : Nat) (left right : Except WireError α × Builder Int) : Prop where
  outcome_eq : right.1 = left.1
  roomy : ¬LacksRoom left.1
  resembles : Resembles 0 left.2 right.2
  free : ∀ v, left.1 = .ok v → Resembles leave left.2 right.2

/-- Two operations come to the same, each on its own builder, unless the first outgrows its
room. -/
def Agrees (leave : Nat) (left right : Build Int α) (ample b : Builder Int) : Prop :=
  Upholds Outgrown left ample ∨ Agree leave (left.run.run ample) (right.run.run b)

/-- An operation comes to the same on all builders that are alike and have some bytes free. -/
structure Tracks (need : Nat) (op : Build Int α) (leave : Nat) : Prop where
  stays : Preserves Outgrown op
  agrees : ∀ ample b, Resembles need ample b → Agrees leave op op ample b

namespace Agrees

variable {left right : Build Int α} {leftNext rightNext : α → Build Int β}

theorem of_yields (ampleRan : Yields left ample v ampleAfter)
    (ran : Yields right b v post) (like : Resembles leave ampleAfter post) :
    Agrees leave left right ample b := by
  refine .inr ?_
  rw [ampleRan, ran]
  exact ⟨rfl, not_lacksRoom_ok v, like.mono (Nat.zero_le _), fun _ _ => like⟩

theorem throw (large : err ≠ .tooLarge) (fits : err ≠ .outOfRange) (like : Resembles 0 ample b) :
    Agrees leave (throw err : Build Int α) (MonadExcept.throw err) ample b := by
  refine .inr ⟨rfl, not_lacksRoom_error large fits, like, fun _ success => ?_⟩
  cases success

/-- Operations one after another. -/
theorem bind (first : Agrees mid left right ample b) (stays : ∀ v, Preserves Outgrown (leftNext v))
    (next :
      ∀ v ampleNext builderNext, Yields left ample v ampleNext →
        Yields right b v builderNext → Resembles mid ampleNext builderNext →
        Agrees leave (leftNext v) (rightNext v) ampleNext builderNext) :
    Agrees leave (left >>= leftNext) (right >>= rightNext) ample b := by
  unfold Agrees Upholds at first ⊢
  rw [Yields.run_bind, Yields.run_bind]
  rcases ampleRan : left.run.run ample with ⟨out, ampleNext⟩
  rcases ran : right.run.run b with ⟨other, builderNext⟩
  rw [ampleRan, ran] at first
  rcases first with outgrown | ⟨same, roomy, like, free⟩
  · cases out with
    | ok v => exact .inl (stays v ampleNext outgrown)
    | error err => exact .inl outgrown
  · have equal : other = out := same
    subst equal
    cases other with
    | ok v => exact next v ampleNext builderNext ampleRan ran (free v rfl)
    | error err =>
      refine .inr ⟨rfl, ?_, like, fun _ success => by cases success⟩
      refine not_lacksRoom_error ?_ ?_
      · rintro rfl
        exact roomy (.inl rfl)
      · rintro rfl
        exact roomy (.inr rfl)

theorem get_bind {leftNext rightNext : Builder Int → Build Int β}
    (next : Agrees leave (leftNext ample) (rightNext b) ample b) :
    Agrees leave (get >>= leftNext) (get >>= rightNext) ample b :=
  next

end Agrees

namespace Tracks

variable {op : Build Int α} {tail : α → Build Int β}

theorem mono (tracks : Tracks need op leave) (needs : need ≤ more) (leaves : less ≤ leave) :
    Tracks more op less where
  stays := tracks.stays
  agrees := by
    intro ample b like
    rcases tracks.agrees ample b (like.mono needs) with outgrown | agree
    · exact .inl outgrown
    · exact .inr { agree with free := fun v success => (agree.free v success).mono leaves }

theorem pure (v : α) : Tracks need (Pure.pure v : Build Int α) need where
  stays := .pure v
  agrees := fun _ _ like =>
    .of_yields (Yields.pure_iff.mpr ⟨rfl, rfl⟩) (Yields.pure_iff.mpr ⟨rfl, rfl⟩) like

theorem throw (large : err ≠ .tooLarge) (fits : err ≠ .outOfRange) :
    Tracks need (MonadExcept.throw err : Build Int α) leave where
  stays := .throw err
  agrees := fun _ _ like => .throw large fits (like.mono (Nat.zero_le _))

theorem bind (first : Tracks need op mid) (next : ∀ v, Tracks mid (tail v) leave) :
    Tracks need (op >>= tail) leave where
  stays := first.stays.bind fun v => (next v).stays
  agrees := fun ample b like =>
    (first.agrees ample b like).bind (fun v => (next v).stays)
      fun v ampleNext builderNext _ _ later => (next v).agrees ampleNext builderNext later

theorem throw_bind (large : err ≠ .tooLarge) (fits : err ≠ .outOfRange) :
    Tracks need ((MonadExcept.throw err : Build Int α) >>= tail) leave where
  stays := .throw_bind err
  agrees := fun _ _ like => Agrees.throw (α := β) large fits (like.mono (Nat.zero_le _))

/-- An operation that goes on from what a builder holds apart from its room. -/
theorem look {tail : Builder Int → Build Int β} (next : View → Build Int β)
    (factors : ∀ s, tail s = next s.view) (tracks : ∀ view, Tracks need (next view) leave) :
    Tracks need (get >>= tail) leave where
  stays := .get_bind fun s => factors s ▸ (tracks s.view).stays
  agrees := by
    grind [Agrees.get_bind, Resembles.view_eq, agrees]

/-- A change of what a builder holds apart from its room and its bytes. -/
theorem modify (next : View → View) (factors : ∀ s, (change s).view = next s.view)
    (same :
      ∀ s, (change s).tape = s.tape ∧ (change s).capacity = s.capacity ∧
        (change s).space = s.space ∧ s.minAlign ≤ (change s).minAlign) :
    Tracks need (modify change : Build Int PUnit) need where
  stays := .modify fun s outgrown => by
    rw [Outgrown, (same s).2.1]
    exact outgrown
  agrees := by
    intro ample b like
    rcases same ample with ⟨ampleTape, ampleCapacity, ampleSpace, ampleLe⟩
    rcases same b with ⟨tape, cap, space, le⟩
    refine .of_yields (Yields.modify_iff.mpr rfl) (Yields.modify_iff.mpr rfl : Yields _ _ ⟨⟩ _) ?_
    refine ⟨like.ampleValid.of_setting ampleTape ampleCapacity ampleSpace ampleLe,
      like.valid.of_setting tape cap space le, ?_, ?_, ?_, ?_⟩
    · rw [ampleCapacity, like.capacity_eq]
    · rw [factors, factors, like.view_eq]
    · rw [ampleSpace]
      exact like.ampleFree
    · rw [space]
      exact like.isFree

theorem ite [Decidable condition] (fst : Tracks need op leave) (snd : Tracks need other leave) :
    Tracks need (if condition then op else other) leave := by
  split
  · exact fst
  · exact snd

theorem forM {elems : List α} (steps : ∀ elem ∈ elems, Tracks need (step elem) need) :
    Tracks need (elems.forM step) need := by
  induction elems with
  | nil => exact pure PUnit.unit
  | cons hd rest ih =>
    refine (steps hd List.mem_cons_self).bind fun _ => ?_
    exact ih fun elem mem => steps elem (List.mem_cons_of_mem _ mem)

/-- A loop whose steps take some of the free bytes each. -/
theorem forM_taking {elems : List α}
    (steps : ∀ elem ∈ elems, ∀ leave, Tracks (each + leave) (step elem) leave) :
    Tracks (each * elems.length + leave) (elems.forM step) leave := by
  induction elems with
  | nil =>
    rw [List.length_nil, Nat.mul_zero, Nat.zero_add]
    exact pure PUnit.unit
  | cons hd rest ih =>
    rw [List.length_cons, Nat.mul_succ,
      show each * rest.length + each + leave = each + (each * rest.length + leave) by omega]
    refine (steps hd List.mem_cons_self _).bind fun _ => ?_
    exact ih fun elem mem => steps elem (List.mem_cons_of_mem _ mem)

end Tracks

/-! ## Bytes -/

variable {bs : List UInt8}

theorem view_of_put (valid : pre.Valid) (ran : Yields (put bs) pre res post) :
    post.view =
      { pre.view with
        bytes := bs ++ pre.view.bytes, offset := pre.view.offset + bs.length } := by
  rcases (put_ends bs valid).yields ran with ⟨appends, _, aligned⟩
  have moved := offset_of_put ran
  simp only [view, appends.bytes_eq, appends.setting_eq, moved, aligned]

theorem tracks_put (bs : List UInt8) : Tracks (bs.length + leave) (put bs) leave where
  stays := stableTables_outgrown.put bs
  agrees := by
    intro ample b like
    have ampleFree := like.ampleFree
    have isFree := like.isFree
    have puts {s : Builder Int} (valid : s.Valid) (room : (bs.length : Int) ≤ s.space) :=
      ((put_ends bs valid).mono (fun _ _ lacking => Int.not_lt.mpr room lacking)
        fun _ _ put => put).exists_yields
    rcases puts like.ampleValid (by omega) with
      ⟨_, ampleNext, ampleRan, ampleAppends, ampleCapacity, _⟩
    rcases puts like.valid (by omega) with ⟨_, next, ran, appends, cap, _⟩
    have ampleLength := ampleAppends.length_eq
    have len := appends.length_eq
    have ampleOld := like.ampleValid.space_eq
    have ampleNew := ampleAppends.valid.space_eq
    have old := like.valid.space_eq
    have new := appends.valid.space_eq
    refine .of_yields ampleRan ran ⟨ampleAppends.valid, appends.valid, ?_, ?_, ?_, ?_⟩
    · rw [ampleCapacity, like.capacity_eq]
    · rw [view_of_put like.ampleValid ampleRan, view_of_put like.valid ran, like.view_eq]
    · omega
    · omega

theorem tracks_zeros (n : Nat) : Tracks (n + leave) (zeros n) leave := by
  induction n with
  | zero =>
    rw [Nat.zero_add]
    exact .pure ()
  | succ n ih =>
    rw [show n + 1 + leave = ([0] : List UInt8).length + (n + leave) by
      rw [List.length_singleton]
      omega]
    exact (tracks_put [0]).bind fun _ => ih

theorem tracks_pad (n : Nat) : Tracks (n + leave) (pad (n : Int)) leave where
  stays := stableTables_outgrown.pad _
  agrees := by
    intro ample b like
    have all :
        ∀ s : Builder Int, s.Valid → (n : Int) ≤ s.space → zeroCount s.capacity (n : Int) = n := by
      intro s valid room
      have fits := valid.space_le
      rw [zeroCount, Extent.ceiling?_int]
      simp only [Int.toNat_natCast]
      omega
    have ampleFree := like.ampleFree
    have isFree := like.isFree
    refine .get_bind ?_
    rw [all ample like.ampleValid (by omega), all b like.valid (by omega)]
    exact (tracks_zeros n).agrees ample b like

/-! ## Room -/

/-- Room that suffices does not grow. -/
theorem enlarged_of_le (enough : needed ≤ b.space) : b.enlarged needed = b := by
  rw [enlarged, grown, if_neg (by simpa using enough)]

theorem outgrown_of_lacking {space : Int} (lacking : space < needed) :
    ampleRoom < (grown ampleRoom space needed).1 := by
  have larger := (grown_adds (2 * ampleRoom) (space + Extent.ofInt ampleRoom) needed).2
  rw [grown, if_pos (by simpa using lacking), dif_pos (by decide)]
  have positive : 0 < ampleRoom := by decide
  omega

/-- Where ample room suffices for a request, other room grows until it does. -/
theorem le_grown_of_ample (like : Resembles need ample b) (enough : needed ≤ ample.space) :
    needed ≤ (b.enlarged needed).space := by
  by_contra lacking
  have full : growthLimit ≤ (b.enlarged needed).capacity :=
    growthLimit_le_of_grown like.valid.capacity_pos (Int.not_le.mp lacking)
  rcases like.valid.toBounded.enlarged needed with ⟨_, behind, _⟩
  have same := like.offset_eq
  have cap := like.capacity_eq
  have limit : growthLimit = 2 * ampleRoom := by decide
  simp only [Builder.offset, Extent.ofInt_int] at same behind
  omega

theorem view_of_reserve (valid : pre.Valid) (ran : Yields (reserve needed) pre res post) :
    post.view = pre.view := by
  rcases (reserve_ends valid.toBounded (.inl valid.space_nonneg)).yields ran with
    ⟨appends, moved, _, aligned⟩
  rw [valid.gap_eq] at appends
  have raw : post.written = pre.written := appends.bytes_eq
  simp only [view, raw, appends.setting_eq, aligned, moved]

/-- A request leaves as many bytes free as were asked for or were free. -/
theorem tracks_reserve (room : (leave : Int) ≤ need ∨ (leave : Int) ≤ needed) :
    Tracks need (reserve needed) leave where
  stays := stableTables_outgrown.reserve needed
  agrees := by
    intro ample b like
    have ampleFree := like.ampleFree
    have isFree := like.isFree
    rcases Int.lt_or_le ample.space needed with lacking | enough
    · refine .inl ?_
      have outgrown := outgrown_of_lacking lacking
      rw [← like.capacity_eq] at outgrown
      refine .get_bind (.bind (?_ : Upholds Outgrown _ _) fun _ s _ left => ?_)
      · show ampleRoom < (grown ample.capacity ample.space needed).1
        rw [← like.capacity_eq]
        exact outgrown
      · exact Preserves.ite (.throw _) (.pure _) s left
    · have ampleRan : Yields (reserve needed) ample () ample := by
        grind [reserve_iff, enlarged_of_le]
      have asked := le_grown_of_ample like enough
      have ran : Yields (reserve needed) b () _ := reserve_iff.mpr ⟨asked, rfl⟩
      have appends :=
        ((reserve_ends like.valid.toBounded (.inl like.valid.space_nonneg)).yields ran).1
      rcases like.valid.toBounded.enlarged needed with ⟨_, _, more, _⟩
      refine .of_yields ampleRan ran
        ⟨like.ampleValid, appends.valid, like.capacity_eq, ?_, by omega, ?_⟩
      · rw [view_of_reserve like.valid ran, like.view_eq]
      · omega

theorem tracks_offset : Tracks need (offset : Build Int Int) need :=
  .look (fun view => pure view.offset) (fun _ => rfl) fun view => .pure view.offset

theorem tracks_raise (size : Int) :
    Tracks need
      (modify fun b : Builder Int =>
        if Extent.less b.minAlign size then { b with minAlign := size } else b)
      need := by
  refine .modify
    (fun view =>
      if Extent.less view.minAlign size then { view with minAlign := size } else view) ?_ ?_
  · intro s
    show (if _ then _ else _ : Builder Int).view = if Extent.less s.minAlign size then _ else _
    split
    · rfl
    · rfl
  · intro s
    split
    · simp_all [Int.le_of_lt]
    · exact ⟨rfl, rfl, rfl, Int.le_refl _⟩

theorem tracks_prep_of
    (spaced :
      ∀ pos : Int,
        Tracks need
          (do
            reserve (padding pos extra size + size + extra)
            zeros (padding pos extra size).toNat)
          leave) : Tracks need (prep size extra) leave :=
  (tracks_raise size).bind fun _ => tracks_offset.bind fun pos => spaced pos

/-- Making room for any size leaves the additional bytes free, if there is a size or if they were
free before. -/
theorem tracks_prep (natural : 0 ≤ size) (fewer : (leave : Int) ≤ extra)
    (room : leave ≤ need ∨ 0 < size) : Tracks need (prep size extra) leave := by
  refine tracks_prep_of fun pos => ?_
  rcases Int.lt_or_le (padding pos extra size) 0 with negative | nonneg
  · rw [Int.toNat_of_nonpos (Int.le_of_lt negative)]
    refine (tracks_reserve ?_).bind fun _ => .pure ()
    rcases room with kept | positive
    · omega
    · have least := neg_padding_le positive pos extra
      omega
  · refine (tracks_reserve ?_ : Tracks _ _ ((padding pos extra size).toNat + leave)).bind
      fun _ => tracks_zeros _
    omega

/-- Making room for an alignment leaves a value of that size and the additional bytes free. -/
theorem tracks_prep_aligned (aligned : StructLayout.IsAlignment align) (extra : Nat) :
    Tracks 0 (prep (align : Int) (extra : Int)) (align + extra) := by
  refine tracks_prep_of fun pos => ?_
  have nonneg := (padding_range (isPower_of_isAlignment aligned) pos extra).1
  generalize padding pos (extra : Int) (align : Int) = n at nonneg ⊢
  refine (tracks_reserve ?_ : Tracks _ _ (n.toNat + (align + extra))).bind fun _ => tracks_zeros _
  omega

/-! ## Words, scalars and references -/

theorem tracks_addWord (aligned : StructLayout.IsAlignment width) (v : Int) :
    Tracks 0 (addWord width v) 0 := by
  refine (tracks_prep_aligned aligned 0).bind fun _ => ?_
  have put : Tracks _ _ 0 := tracks_put (littleEndian width (Extent.word v).toNat)
  rw [length_littleEndian] at put
  exact put

variable (kind : ScalarKind)

theorem tracks_writeScalar (v : ScalarValue) :
    Tracks (kind.size + leave) (writeScalar kind v) leave := by
  unfold writeScalar
  split
  · next bs enc =>
      rw [← ScalarKind.length_of_encode enc]
      exact tracks_put bs
  · exact .throw (by simp) (by simp)

theorem tracks_addScalar (v : ScalarValue) : Tracks 0 (addScalar kind v) 0 :=
  (tracks_prep_aligned (StructLayout.isAlignment_scalarSize kind) 0).bind fun _ =>
    tracks_writeScalar kind v

theorem tracks_addOffset (target : Int) : Tracks 0 (addOffset target) 0 := by
  refine (tracks_prep_aligned isAlignment_four 0).bind fun _ => tracks_offset.bind fun pos => ?_
  split
  · exact .throw_bind (by simp) (by simp)
  · have put : Tracks _ _ 0 := tracks_put
      (littleEndian 4 (Extent.word (pos - target + Extent.ofInt 4)).toNat)
    exact put

theorem tracks_assertNotNested : Tracks need (assertNotNested : Build Int Unit) need :=
  .look (fun view => if view.setting.nested then throw .objectOpen else pure ())
    (fun _ => rfl) fun _ => .ite (.throw (by simp) (by simp)) (.pure ())

/-! ## Vectors -/

theorem tracks_count (n : Int) :
    Tracks need (modify fun b : Builder Int => { b with vectorCount := n }) need :=
  .modify (fun view => { view with setting := { view.setting with vectorCount := n } })
    (fun _ => rfl) fun _ => ⟨rfl, rfl, rfl, Int.le_refl _⟩

theorem tracks_nest (nested : Bool) :
    Tracks need (modify fun b : Builder Int => { b with nested := nested }) need :=
  .modify (fun view => { view with setting := { view.setting with nested := nested } })
    (fun _ => rfl) fun _ => ⟨rfl, rfl, rfl, Int.le_refl _⟩

/-- An open vector has room for its elements. -/
theorem tracks_startVector (elementSize n align : Nat) :
    Tracks 0 (startVector (elementSize : Int) n align) (elementSize * n) := by
  refine tracks_assertNotNested.bind fun _ => (tracks_count n).bind fun _ => ?_
  refine ((tracks_prep_aligned isAlignment_four (elementSize * n)).mono (Nat.le_refl _)
    (Nat.le_add_left _ _)).bind fun _ => ?_
  refine (tracks_prep (Int.natCast_nonneg _) (Int.le_refl _) (.inl (Nat.le_refl _))).bind
    fun _ => ?_
  exact tracks_nest true

theorem tracks_endVector : Tracks 0 (endVector : Build Int Int) 0 := by
  have close :
      Tracks 0
        (do
          modify fun b : Builder Int => { b with nested := false }
          addWord 4 (← get).vectorCount
          offset)
        0 := by
    refine (tracks_nest false).bind fun _ => ?_
    refine .look (fun view => addWord 4 view.setting.vectorCount >>= fun _ => offset)
      (fun _ => rfl) fun view => ?_
    exact (tracks_addWord isAlignment_four _).bind fun _ => tracks_offset
  exact .look (fun view => if view.setting.nested then _ else throw .vectorNotOpen)
    (fun _ => rfl) fun _ => .ite close (.throw (by simp) (by simp))

theorem tracks_createString (content : List UInt8) :
    Tracks 0 (createString content : Build Int Int) 0 := by
  refine (tracks_addScalar _ _).bind fun _ => ?_
  refine (tracks_startVector 1 content.length 1).bind fun _ => ?_
  rw [Nat.one_mul]
  exact (tracks_put content).bind fun _ => tracks_endVector

theorem tracks_createScalarVector (vs : List ScalarValue) :
    Tracks 0 (createScalarVector kind vs : Build Int Int) 0 := by
  refine (tracks_startVector kind.size vs.length kind.size).bind fun _ => ?_
  have loop : Tracks _ (vs.reverse.forM (writeScalar kind) : Build Int PUnit) 0 :=
    .forM_taking fun v _ _ => tracks_writeScalar kind v
  rw [List.length_reverse] at loop
  exact loop.bind fun _ => tracks_endVector

theorem tracks_createOffsetVector (targets : List Int) :
    Tracks 0 (createOffsetVector targets) 0 := by
  refine ((tracks_startVector 4 targets.length 4).mono (Nat.le_refl _) (Nat.zero_le _)).bind
    fun _ => ?_
  have loop : Tracks 0 (targets.reverse.forM addOffset) 0 :=
    .forM fun target _ => tracks_addOffset target
  exact loop.bind fun _ => tracks_endVector

/-! ## Tables -/

theorem tracks_startTable (n : Int) : Tracks 0 (startTable n) 0 := by
  refine tracks_assertNotNested.bind fun _ => ?_
  split
  · next all _ =>
      exact .modify
        (fun view =>
          { view with
            setting :=
              { view.setting with
                slots := some (List.replicate all 0)
                nested := true
                objectStart := view.offset } })
        (fun _ => rfl) fun _ => ⟨rfl, rfl, rfl, Int.le_refl _⟩
  · exact .throw (by simp) (by simp)

theorem tracks_slot (i : Int) : Tracks 0 (slot i) 0 where
  stays := stableTables_outgrown.slot i
  agrees := by
    intro ample b like
    have slots_eq : b.slots = ample.slots := congrArg (fun view => view.setting.slots) like.view_eq
    have offset_eq := like.offset_eq
    refine .get_bind ?_
    rw [slots_eq, offset_eq]
    split
    · exact .throw (by simp) (by simp) like
    · next slots _ =>
        dsimp only
        split
        · exact .throw (by simp) (by simp) like
        · split
          · next all _ =>
              have noted :
                  Tracks 0
                    (modify fun s : Builder Int =>
                      { s with slots := some (slots.set all.toNat ample.offset) })
                    0 :=
                .modify
                  (fun view =>
                    { view with
                      setting :=
                        { view.setting with
                          slots := some (slots.set all.toNat ample.offset) } })
                  (fun _ => rfl) fun _ => ⟨rfl, rfl, rfl, Int.le_refl _⟩
              exact noted.agrees ample b like
          · exact (Tracks.pure ()).agrees ample b like

theorem tracks_addFieldScalar (i : Int) (kind : ScalarKind) (v fallback : ScalarValue) :
    Tracks 0 (addFieldScalar i kind v fallback) 0 :=
  .look (fun view => if !view.setting.forceDefaults && v.same fallback then _ else _)
    (fun _ => rfl) fun _ => .ite (.pure ()) ((tracks_addScalar kind v).bind fun _ => tracks_slot i)

theorem tracks_addFieldOffset (i target : Int) : Tracks 0 (addFieldOffset i target) 0 :=
  .ite (.pure ()) ((tracks_addOffset target).bind fun _ => tracks_slot i)

theorem tracks_addFieldStruct (i target : Int) : Tracks 0 (addFieldStruct i target) 0 := by
  refine tracks_offset.bind fun pos => ?_
  split
  · exact .throw_bind (by simp) (by simp)
  · exact tracks_slot i

theorem tracks_vtable (words : List Int) : Tracks 0 (vtable words) 0 := by
  have write :
      Tracks 0
        (do
          words.reverse.forM (addWord 2)
          let vt ← offset
          modify fun b : Builder Int => { b with vtables := b.vtables ++ [(words, vt)] }
          return vt)
        0 := by
    have loop : Tracks 0 (words.reverse.forM (addWord 2)) 0 :=
      .forM fun word _ => tracks_addWord isAlignment_two word
    refine loop.bind fun _ => tracks_offset.bind fun pos => ?_
    refine (?_ : Tracks 0 _ 0).bind fun _ => .pure pos
    exact .modify
      (fun view =>
        { view with
          setting := { view.setting with vtables := view.setting.vtables ++ [(words, pos)] } })
      (fun _ => rfl) fun _ => ⟨rfl, rfl, rfl, Int.le_refl _⟩
  refine ⟨.get_bind fun s => ?_, fun ample b like => .get_bind ?_⟩
  · split
    · exact .pure _
    · exact write.stays
  · have vtables_eq : b.vtables = ample.vtables :=
      congrArg (fun view => view.setting.vtables) like.view_eq
    rw [vtables_eq]
    split
    · exact (Tracks.pure _).agrees ample b like
    · exact write.agrees ample b like

/-- Bytes that are replaced change nothing else. -/
theorem replace_frame (ran : Yields (replace obj bs) pre res post) :
    ∃ tape, post = { pre with tape := tape } := by
  rw [replace, Yields.get_bind_iff] at ran
  split at ran
  · exact ⟨_, Yields.set_iff.mp ran⟩
  · exact (Yields.throw_iff.mp ran).elim

theorem outgrown_replace (obj : Int) (bs : List UInt8) : Preserves Outgrown (replace obj bs) := by
  intro pre outgrown
  refine .get_bind ?_
  split
  · exact outgrown
  · exact outgrown

/-- Bytes that are there give way to others in both builders. -/
theorem agrees_replace (like : Resembles 0 ample b)
    (long : (bs.length : Int) ≤ obj) (fits : obj ≤ ample.offset) :
    Agrees 0 (replace obj bs) (replace obj bs) ample b := by
  have raw := like.written_eq
  rw [like.ampleValid.offset_eq] at fits
  obtain ⟨front, old, back, split, size, gap⟩ :
      ∃ front old back, ample.written = front ++ (old ++ back) ∧ old.length = bs.length ∧
        obj = (old ++ back).length := by
    refine ⟨ample.written.take (ample.written.length - obj.toNat),
      (ample.written.drop (ample.written.length - obj.toNat)).take bs.length,
      (ample.written.drop (ample.written.length - obj.toNat)).drop bs.length, ?_, ?_, ?_⟩
    · rw [List.take_append_drop, List.take_append_drop]
    · grind
    grind
  rcases (replace_ends like.ampleValid split size gap).exists_yields with
    ⟨_, _, ampleRan, ampleValid, ampleWritten, _⟩
  rcases (replace_ends like.valid (raw.trans split) size gap).exists_yields with
    ⟨_, _, ran, valid, nextWritten, _⟩
  rw [← ampleWritten] at nextWritten
  rcases replace_frame ampleRan with ⟨ampleTape, rfl⟩
  rcases replace_frame ran with ⟨tape, rfl⟩
  refine .of_yields ampleRan ran
    ⟨ampleValid, valid, like.capacity_eq, ?_, like.ampleFree, like.isFree⟩
  have rest := like.view_eq
  simp only [view, View.mk.injEq] at rest ⊢
  exact ⟨nextWritten, rest.2⟩

theorem tracks_close :
    Tracks need (modify fun b : Builder Int => { b with slots := none, nested := false }) need :=
  .modify
    (fun view => { view with setting := { view.setting with slots := none, nested := false } })
    (fun _ => rfl) fun _ => ⟨rfl, rfl, rfl, Int.le_refl _⟩

/-- The end of a table: its vtable and the reference to it. -/
def closeTable (obj : Int) (words : List Int) : Build Int Int := do
  let vt ← vtable words
  replace obj (littleEndian 4 (Extent.word (vt - obj)).toNat)
  modify fun b => { b with slots := none, nested := false }
  return obj

theorem outgrown_closeTable (obj : Int) (words : List Int) :
    Preserves Outgrown (closeTable obj words) :=
  .bind (tracks_vtable words).stays fun _ => .bind (outgrown_replace _ _) fun _ =>
    .bind (tracks_close : Tracks 0 _ 0).stays fun _ => .pure obj

theorem agrees_closeTable (like : Resembles 0 ample b) (long : 4 ≤ ample.offset)
    (words : List Int) :
    Agrees 0 (closeTable ample.offset words) (closeTable ample.offset words) ample b := by
  have rest :
      Tracks 0
        (do
          modify fun b : Builder Int => { b with slots := none, nested := false }
          return ample.offset)
        0 :=
    tracks_close.bind fun _ => .pure ample.offset
  refine ((tracks_vtable words).agrees ample b like).bind
    (fun vt => (outgrown_replace _ _).bind fun _ => rest.stays) ?_
  intro vt ampleListed listed hit _ later
  have further := ((keeps_vtable words ample (.refl ample)).of_yields hit).offset_le
  refine (agrees_replace later ?_ further).bind (fun _ => rest.stays) ?_
  · exact long
  grind [Tracks.agrees]

theorem tracks_endTable : Tracks 0 (endTable : Build Int Int) 0 where
  stays := stableTables_outgrown.endTable
  agrees := by
    intro ample b like
    have nested_eq : b.nested = ample.nested :=
      congrArg (fun view => view.setting.nested) like.view_eq
    have slots_eq : b.slots = ample.slots := congrArg (fun view => view.setting.slots) like.view_eq
    refine .get_bind (.get_bind ?_)
    rw [nested_eq, slots_eq]
    split
    · next slots _ _ =>
        have word := tracks_addWord isAlignment_four (Extent.ofInt 0)
        refine (word.agrees ample b like).bind (fun _ => .bind preserves_offset
          fun obj => .get_bind fun _ => outgrown_closeTable obj _) ?_
        intro _ ampleBegun begun worded _ later
        have start_eq : begun.objectStart = ampleBegun.objectStart :=
          congrArg (fun view => view.setting.objectStart) later.view_eq
        have moved := offset_of_addWord worded
        have nonneg := like.ampleValid.offset_eq
        rw [Build.offset, bind_assoc]
        refine .get_bind ?_
        rw [pure_bind, pure_bind]
        refine .get_bind ?_
        rw [later.offset_eq, start_eq]
        exact agrees_closeTable later (by omega) _
    · exact .throw (by simp) (by simp) like

/-! ## Whole buffers -/

theorem tracks_mark :
    Tracks need (modify fun b : Builder Int => { b with finished := true }) need :=
  .modify (fun view => { view with setting := { view.setting with finished := true } })
    (fun _ => rfl) fun _ => ⟨rfl, rfl, rfl, Int.le_refl _⟩

theorem tracks_refer (root : Int) (sized : Bool) : Tracks 0 (refer root sized) 0 where
  stays := stableTables_outgrown.refer root sized
  agrees := by
    intro ample b like
    have minAlign_eq : b.minAlign = ample.minAlign := congrArg View.minAlign like.view_eq
    have positive := like.ampleValid.minAlign_pos
    refine .get_bind ?_
    rw [minAlign_eq]
    have spaced :
        Tracks 0 (prep ample.minAlign (Extent.ofInt (4 + Buffer.prefixSize sized) : Int)) 0 :=
      tracks_prep (Int.le_of_lt positive) (Int.natCast_nonneg _) (.inr positive)
    refine (?_ : Tracks 0 _ 0).agrees ample b like
    refine spaced.bind fun _ => (tracks_addOffset root).bind fun _ => ?_
    split
    · refine tracks_offset.bind fun pos => ?_
      exact (tracks_addWord isAlignment_four pos).bind fun _ => tracks_mark
    · exact tracks_mark

/-- An identifier takes some of the room that is made for it. -/
theorem tracks_putIdentifier (all : ident.length = Buffer.identifierLength) :
    Tracks 4 (putIdentifier ident : Build Int Unit) 0 := by
  have put : Tracks _ _ 0 := tracks_put (ident.units.map fun unit => UInt8.ofNat (unit.toNat % 256))
  have four : ident.units.length = 4 := all
  rw [List.length_map, four] at put
  exact put

theorem tracks_finish (root : Int) (ident : Option Text) (sized : Bool) :
    Tracks 0 (finish root ident sized) 0 where
  stays := stableTables_outgrown.finish root ident sized
  agrees := by
    intro ample b like
    unfold finish
    cases ident with
    | none => exact (tracks_refer root sized).agrees ample b like
    | some ident =>
      dsimp only
      split
      · exact Agrees.throw (α := Unit) (by simp) (by simp) like
      next all =>
      have minAlign_eq : b.minAlign = ample.minAlign := congrArg View.minAlign like.view_eq
      have positive := like.ampleValid.minAlign_pos
      have spaced :
          Tracks 0
            (prep ample.minAlign
              (Extent.ofInt (4 + Buffer.identifierLength + Buffer.prefixSize sized : Nat) : Int))
            4 := by
        grind [tracks_prep, Extent.ofInt_int, Int.le_of_lt]
      refine .get_bind ?_
      rw [minAlign_eq]
      refine (?_ : Tracks 0 _ 0).agrees ample b like
      refine spaced.bind fun _ => (tracks_putIdentifier (Decidable.not_not.mp all)).bind ?_
      exact fun _ => tracks_refer root sized

theorem tracks_bytes : Tracks 0 (bytes : Build Int (List UInt8)) 0 where
  stays := preserves_bytes
  agrees := by
    intro ample b like
    have finished_eq : b.finished = ample.finished :=
      congrArg (fun view => view.setting.finished) like.view_eq
    refine .get_bind ?_
    rw [finished_eq, like.valid.content_eq, like.ampleValid.content_eq, like.written_eq]
    split
    · exact (Tracks.pure _).agrees ample b like
    · exact .throw (by simp) (by simp) like

end Build

end FlatSchema

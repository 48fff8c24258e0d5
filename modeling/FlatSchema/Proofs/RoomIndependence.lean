import FlatSchema.Proofs.EndedTables
import FlatSchema.Proofs.Likeness

/-!
# What a builder writes does not depend on its room

A run of calls is logged: each call with the offset at which it began and what
came of it, the calls that writers of elements make included.  As long as all
that is written or asked for fits into half a gibibyte, the log is the same
for every room that a builder may begin with up to that size, and so are the
bytes; no call is refused for want of room.

Two kinds of calls rely on earlier ones.  Bytes that are written without a
request of their own have to lie in the room that an earlier request asked
for, and what is looked up in a vtable has to belong to a table that was ended.
-/

namespace FlatSchema

open Builder Yields

namespace Build

variable {α β : Type}

/-- The builder that an operation leaves if it succeeds. -/
def reached (op : Build Int α) (pre : Builder Int) : Option (Builder Int) :=
  match op.run.run pre with
  | (.ok _, post) => some post
  | (.error _, _) => none

/-- A call, the offset at which it began and what came of it. -/
structure Entry where
  call : Call
  start : Int
  outcome : Except WireError Answer

namespace Call

def entry (call : Call) (pre : Builder Int) : Entry :=
  ⟨call, pre.offset, call.outcome pre⟩

/-- Writers of elements one after another, the last one first. -/
def writeAll (writers : List (List Call)) : Build Int Unit :=
  (runWriters writers).reverse.forM id

mutual

/-- The log of a call: the calls that it makes, then itself. -/
def journal : Call → Builder Int → List Entry
  | .createStructVector width align writers, pre =>
    ((Build.startVector (width : Int) writers.length align).reached pre).elim []
      (journalWriters writers) ++
      [entry (.createStructVector width align writers) pre]
  | .attempt call, pre => call.journal pre
  | call, pre => [call.entry pre]

def journalSteps : List Call → Builder Int → List Entry
  | [], _ => []
  | call :: rest, pre =>
    call.journal pre ++ (call.run.reached pre).elim [] (journalSteps rest)

def journalWriters : List (List Call) → Builder Int → List Entry
  | [], _ => []
  | writer :: rest, pre =>
    journalWriters rest pre ++
      ((writeAll rest).reached pre).elim [] (journalSteps writer)

end

/-- The log of calls that are made one after another, whatever comes of each. -/
def journalAll : List Call → Builder Int → List Entry
  | [], _ => []
  | call :: rest, pre => call.journal pre ++ journalAll rest (call.after pre)

/-- The number of bytes that a call writes without asking for room. -/
def unreserved : Call → Nat
  | .pad n => n
  | .writeScalar kind v => if (kind.encode? v).isSome then kind.size else 0
  | _ => 0

/-- The table whose vtable a call looks into. -/
def table? : Call → Option Int
  | .requiredField t _ _ => some t
  | _ => none

end Call

namespace Entry

/-- The offset up to which a call has asked for room. -/
def request (e : Entry) : Int :=
  match e.call, e.outcome with
  | .prep size extra, .ok _ =>
    e.start + (padding e.start (extra : Int) (size : Int) + size + extra)
  | _, _ => 0

/-- The table that a call has ended. -/
def ended? (e : Entry) : Option Int :=
  match e.call, e.outcome with
  | .endTable, .ok (.offset t) => some t
  | _, _ => none

/-- What a call relies on has been done: its bytes lie in room that was asked for, and its table
has been ended. -/
def Allowed (past : List Entry) (e : Entry) : Prop :=
  (0 < e.call.unreserved →
      ∃ prior ∈ past, e.start + e.call.unreserved ≤ prior.request) ∧
    (e.call.table?.isSome → ∃ prior ∈ past, prior.ended? = e.call.table?)

instance (past : List Entry) (e : Entry) : Decidable (e.Allowed past) :=
  inferInstanceAs (Decidable (_ ∧ _))

end Entry

/-- Every call of a log relies on what was done before it. -/
def Disciplined : List Entry → List Entry → Prop
  | _, [] => True
  | past, e :: later => e.Allowed past ∧ Disciplined (past ++ [e]) later

instance decidableDisciplined : (past journal : List Entry) → Decidable (Disciplined past journal)
  | _, [] => inferInstanceAs (Decidable True)
  | past, e :: later =>
    let _ := decidableDisciplined (past ++ [e]) later
    inferInstanceAs (Decidable (_ ∧ _))

theorem disciplined_append :
    Disciplined past (fst ++ snd) ↔ Disciplined past fst ∧ Disciplined (past ++ fst) snd := by
  induction fst generalizing past with
  | nil => simp [Disciplined]
  | cons e rest ih =>
    rw [List.cons_append, Disciplined, Disciplined, ih, and_assoc, List.append_assoc,
      List.singleton_append]

/-! ## Runs that repeat one another -/

variable {past : List Entry} {ample b : Builder Int}

/-- Builders that have followed the same log: they are alike, and what the log asked for or ended
is there. -/
structure Followed (past : List Entry) (ample b : Builder Int) : Prop where
  resembles : Resembles 0 ample b
  orderly : ample.Orderly
  backed : ample.Backed
  asked : ∀ prior ∈ past, prior.request ≤ ample.capacity ∧ prior.request ≤ b.capacity
  ended : ∀ prior ∈ past, ∀ t, prior.ended? = some t → Refers ample.written t

/-- An operation comes to the same on two builders, with the same log, and nothing in it was
refused for want of room. -/
structure Repeats (op : Build Int α) (journal : Builder Int → List Entry)
    (past : List Entry) (ample b : Builder Int) : Prop where
  outcome_eq : (op.run.run b).1 = (op.run.run ample).1
  journal_eq : journal b = journal ample
  roomy : ¬LacksRoom (op.run.run ample).1
  entries : ∀ e ∈ journal ample, ¬LacksRoom e.outcome
  followed : Followed (past ++ journal ample) (op.run.run ample).2 (op.run.run b).2

/-- An operation with a disciplined log repeats itself on builders that have followed the same
log, unless it outgrows the ample room. -/
structure Follows (op : Build Int α) (journal : Builder Int → List Entry) : Prop where
  stays : Preserves Outgrown op
  repeats :
    ∀ past ample b, Followed past ample b → Disciplined past (journal ample) →
      Upholds Outgrown op ample ∨ Repeats op journal past ample b

namespace Follows

variable {op : Build Int α} {tail : α → Build Int β}
  {journal later : Builder Int → List Entry}

theorem pure (v : α) : Follows (Pure.pure v) fun _ => [] where
  stays := .pure v
  repeats := by
    intro past ample b followed _
    refine .inr ⟨rfl, rfl, not_lacksRoom_ok v, ?_, ?_⟩
    · intro e mem
      cases mem
    · rw [List.append_nil]
      exact followed

/-- Operations one after another: the log of the second follows where the first succeeds. -/
theorem bind (first : Follows op journal) (next : ∀ v, Follows (tail v) later) :
    Follows (op >>= tail) fun pre => journal pre ++ (op.reached pre).elim [] later where
  stays := first.stays.bind fun v => (next v).stays
  repeats := by
    intro past ample b followed disciplined
    rw [disciplined_append] at disciplined
    rcases disciplined with ⟨disciplined, rest⟩
    rcases first.repeats past ample b followed disciplined with outgrown | repeats
    · exact .inl (Upholds.bind outgrown fun v mid _ left => (next v).stays mid left)
    rcases ampleRan : op.run.run ample with ⟨out, ampleNext⟩
    rcases ran : op.run.run b with ⟨other, builderNext⟩
    rcases repeats with ⟨same, logged, roomy, es, kept⟩
    rw [ampleRan, ran] at same kept
    rw [ampleRan] at roomy
    have equal : other = out := same
    subst equal
    cases other with
    | error err =>
      have ampleStops : op.reached ample = none := by rw [reached, ampleRan]
      have stops : op.reached b = none := by rw [reached, ran]
      refine .inr ⟨?_, ?_, ?_, ?_, ?_⟩
      · rw [run_bind, run_bind, ampleRan, ran]
      · rw [ampleStops, stops, logged]
      · rw [run_bind, ampleRan]
        refine not_lacksRoom_error ?_ ?_
        · rintro rfl
          exact roomy (.inl rfl)
        · rintro rfl
          exact roomy (.inr rfl)
      · grind
      grind [run_bind, Option.elim_none, List.append_nil]
    | ok v =>
      have ampleGoes : op.reached ample = some ampleNext := by rw [reached, ampleRan]
      have goes : op.reached b = some builderNext := by rw [reached, ran]
      rw [ampleGoes] at rest
      rcases (next v).repeats _ ampleNext builderNext kept rest with outgrown | again
      · grind [Upholds, run_bind]
      · refine .inr ⟨?_, ?_, ?_, ?_, ?_⟩
        · rw [run_bind, run_bind, ampleRan, ran]
          exact again.outcome_eq
        · rw [ampleGoes, goes, Option.elim_some, Option.elim_some, logged, again.journal_eq]
        · rw [run_bind, ampleRan]
          exact again.roomy
        · grind [Repeats.entries]
        grind [run_bind, Repeats.followed, List.append_assoc]

theorem bind_silent (first : Follows op journal) (next : ∀ v, Follows (tail v) fun _ => []) :
    Follows (op >>= tail) journal := by
  have all := first.bind next
  have same : (fun pre => journal pre ++ (op.reached pre).elim [] fun _ => []) = journal := by
    grind [reached]
  rwa [same] at all

/-- An operation without a log that is followed by another. -/
theorem silent_bind (first : Follows op fun _ => []) (next : ∀ v, Follows (tail v) later) :
    Follows (op >>= tail) fun pre => (op.reached pre).elim [] later :=
  first.bind next

end Follows

/-- Operations that change nothing that is logged. -/
theorem Followed.of_agree {op : Build Int α} (followed : Followed past ample b)
    (keeps : ∀ src, Preserves (Keeps src) op) (orderly : Preserves Orderly op)
    (backed : Preserves Backed op) (agree : Agree 0 (op.run.run ample) (op.run.run b)) :
    Followed past (op.run.run ample).2 (op.run.run b).2 := by
  have ampleKeeps : Keeps ample (op.run.run ample).2 := keeps ample ample (.refl ample)
  have builderKeeps : Keeps b (op.run.run b).2 := keeps b b (.refl b)
  refine ⟨agree.resembles, orderly ample followed.orderly, backed ample followed.backed, ?_, ?_⟩
  · intro prior mem
    rcases followed.asked prior mem with ⟨ampleAsked, asked⟩
    have ampleLarger := ampleKeeps.capacity_le
    have larger := builderKeeps.capacity_le
    omega
  · intro prior mem t isEnded
    have suffix := ampleKeeps.isSuffix followed.resembles.ampleValid
    exact (followed.ended prior mem t isEnded).mono suffix

/-- A further entry of the log. -/
theorem Followed.snoc {e : Entry} (followed : Followed past ample b)
    (asked : e.request ≤ ample.capacity ∧ e.request ≤ b.capacity)
    (ended : ∀ t, e.ended? = some t → Refers ample.written t) : Followed (past ++ [e]) ample b :=
  { followed with
    asked := by
      intro prior mem
      rcases List.mem_append.mp mem with old | new
      · exact followed.asked prior old
      · rwa [List.mem_singleton.mp new]
    ended := by
      grind [ended] }

/-- An operation that asks for the room it needs, without a log. -/
theorem Tracks.follows {op : Build Int α} (tracks : Tracks 0 op 0)
    (keeps : ∀ src, Preserves (Keeps src) op) (orderly : Preserves Orderly op)
    (backed : Preserves Backed op) : Follows op fun _ => [] where
  stays := tracks.stays
  repeats := by
    intro past ample b followed _
    rcases tracks.agrees ample b followed.resembles with outgrown | agree
    · exact .inl outgrown
    · refine .inr ⟨agree.outcome_eq, rfl, agree.roomy, ?_, ?_⟩
      · intro e mem
        cases mem
      grind [Followed.of_agree, List.append_nil]

/-! ## Calls -/

/-- Room that was asked for lies within the room that there is then. -/
theorem le_capacity_of_prep {size extra : Nat} (valid : pre.Valid)
    (ran : Yields (prep (size : Int) (extra : Int)) pre res post) :
    pre.offset + (padding pre.offset extra size + size + extra) ≤ post.capacity := by
  rcases (prep_ends valid.toBounded (.inr ⟨Int.natCast_nonneg _, valid.space_nonneg⟩)
    (Int.natCast_nonneg _)).yields ran with ⟨_, further, room, _⟩
  simp only [Builder.offset, Extent.ofInt_int] at further room ⊢
  omega

namespace Call

variable {call : Call}

theorem tracks_quiet (tracks : Tracks need op leave) : Tracks need (quiet op) leave :=
  tracks.bind fun _ => .pure _

theorem tracks_placing (tracks : Tracks need op leave) : Tracks need (placing op) leave :=
  tracks.bind fun _ => .pure _

/-- What a call writes without asking lies in room that was asked for. -/
theorem resembles_of_allowed (followed : Followed past ample b)
    (allowed : (call.entry ample).Allowed past) : Resembles call.unreserved ample b := by
  rcases Nat.eq_zero_or_pos call.unreserved with none | some
  · rw [none]
    exact followed.resembles
  · rcases allowed.1 some with ⟨prior, mem, covered⟩
    rcases followed.asked prior mem with ⟨ampleAsked, asked⟩
    have same := followed.resembles.offset_eq
    have started : ample.offset + call.unreserved ≤ prior.request := covered
    rw [Builder.offset, Extent.ofInt_int] at started
    rw [Builder.offset, Builder.offset, Extent.ofInt_int, Extent.ofInt_int] at same
    exact { followed.resembles with ampleFree := by omega, isFree := by omega }

theorem agrees_writeScalar (like : Resembles (Call.writeScalar kind v).unreserved ample b) :
    Agrees 0 (Build.writeScalar kind v) (Build.writeScalar kind v) ample b := by
  cases enc : kind.encode? v with
  | none =>
    rw [Build.writeScalar, enc]
    exact .throw (by simp) (by simp) (like.mono (Nat.zero_le _))
  | some bs =>
    rw [unreserved, enc, Option.isSome_some, if_pos rfl] at like
    exact (tracks_writeScalar kind v).agrees ample b like

/-- A look into the vtable of a table that has been ended. -/
theorem agrees_requiredField (like : Resembles 0 ample b)
    (refers : Refers ample.written t) (e : Nat) (name : Option Text) :
    Agrees 0 (Build.requiredField t (e : Int) name)
      (Build.requiredField t (e : Int) name) ample b := by
  have small := length_written_le ample
  have limit := like.ampleValid.capacity_lt
  rcases fieldOffset_of_refers refers (by omega) e with ⟨v, hit⟩
  have place : ∀ s : Builder Int, spot s.memory t = Extent.ofInt (s.capacity : Int) - t := by
    intro s
    rw [spot, length_memory, Extent.ofInt_int]
  have ampleFound := hit ample.memory (written_suffix_memory ample)
  have builderFound := hit b.memory (like.written_eq ▸ written_suffix_memory b)
  rw [place] at ampleFound builderFound
  refine .get_bind ?_
  simp only [ampleFound, builderFound]
  cases v with
  | zero => exact .throw (by simp) (by simp) like
  | succ v => exact (Tracks.pure ()).agrees ample b like

theorem agrees_plain (plain : call.isPlain = true) (followed : Followed past ample b)
    (allowed : (call.entry ample).Allowed past) : Agrees 0 call.run call.run ample b := by
  have like := followed.resembles
  have done : ∀ answer, Preserves Outgrown (Pure.pure answer : Build Int Answer) :=
    fun answer => .pure answer
  cases call with
  | createStructVector | attempt => cases plain
  | offset => exact (tracks_placing tracks_offset).agrees _ _ like
  | pad n =>
    have room := resembles_of_allowed followed allowed
    exact (tracks_quiet (tracks_pad n)).agrees _ _ room
  | prep size extra =>
    refine (tracks_quiet ?_).agrees _ _ like
    exact tracks_prep (Int.natCast_nonneg _) (Int.natCast_nonneg _) (.inl (Nat.le_refl _))
  | writeScalar kind v =>
    have room := resembles_of_allowed followed allowed
    refine (agrees_writeScalar room).bind (fun _ => done _) ?_
    exact fun _ _ _ _ _ later => (Tracks.pure _).agrees _ _ later
  | addScalar kind v => exact (tracks_quiet (tracks_addScalar _ _)).agrees _ _ like
  | addOffset target => exact (tracks_quiet (tracks_addOffset _)).agrees _ _ like
  | startTable n => exact (tracks_quiet (tracks_startTable _)).agrees _ _ like
  | slot i => exact (tracks_quiet (tracks_slot _)).agrees _ _ like
  | addFieldScalar =>
    exact (tracks_quiet (tracks_addFieldScalar _ _ _ _)).agrees _ _ like
  | addFieldOffset => exact (tracks_quiet (tracks_addFieldOffset _ _)).agrees _ _ like
  | addFieldStruct => exact (tracks_quiet (tracks_addFieldStruct _ _)).agrees _ _ like
  | endTable => exact (tracks_placing tracks_endTable).agrees _ _ like
  | requiredField t e name =>
    rcases allowed.2 rfl with ⟨prior, mem, isEnded⟩
    have refers := followed.ended prior mem t isEnded
    refine (agrees_requiredField like refers e name).bind (fun _ => done _) ?_
    exact fun _ _ _ _ _ later => (Tracks.pure _).agrees _ _ later
  | startVector width n align =>
    refine (tracks_quiet ?_).agrees _ _ like
    exact (tracks_startVector _ _ _).mono (Nat.le_refl _) (Nat.zero_le _)
  | endVector => exact (tracks_placing tracks_endVector).agrees _ _ like
  | createString content => exact (tracks_placing (tracks_createString _)).agrees _ _ like
  | createScalarVector =>
    exact (tracks_placing (tracks_createScalarVector _ _)).agrees _ _ like
  | createOffsetVector =>
    exact (tracks_placing (tracks_createOffsetVector _)).agrees _ _ like
  | finish => exact (tracks_quiet (tracks_finish _ _ _)).agrees _ _ like
  | bytes => exact (tracks_bytes.bind fun _ => .pure _).agrees _ _ like

/-- Room that was asked for by a call is there after it. -/
theorem request_le (call : Call) (valid : s.Valid) :
    (call.entry s).request ≤ (call.after s).capacity := by
  cases call with
  | prep size extra =>
    rcases ran : (Call.prep size extra).run.run.run s with ⟨res, post⟩
    rw [entry, outcome, Call.after, ran]
    cases res with
    | error err => exact Int.natCast_nonneg _
    | ok answer =>
      rcases bind_iff.mp ran with ⟨_, mid, prepared, done⟩
      rw [pure_iff] at done
      rw [← done.2]
      exact le_capacity_of_prep valid prepared
  | _ => exact Int.natCast_nonneg _

theorem refers_of_ended (orderly : s.Orderly) (backed : s.Backed)
    (ended : (call.entry s).ended? = some t) : Refers (call.after s).written t := by
  cases call with
  | endTable =>
    rcases ran : Call.endTable.run.run.run s with ⟨res, post⟩
    rw [entry, outcome, ran] at ended
    rw [Call.after, ran]
    cases res with
    | error err => cases ended
    | ok answer =>
      rcases bind_iff.mp ran with ⟨obj, mid, closed, done⟩
      rcases done with ⟨rfl, rfl⟩
      cases ended
      exact refers_of_endTable orderly backed closed
  | _ => cases ended

theorem follows_plain (plain : call.isPlain = true) :
    Follows call.run fun pre => [call.entry pre] where
  stays := call.preserves_run stableTables_outgrown fun _ _ => trivial
  repeats := by
    intro past ample b followed disciplined
    rcases agrees_plain plain followed disciplined.1 with outgrown | agree
    · exact .inl outgrown
    have entry_eq : call.entry b = call.entry ample := by
      rw [entry, entry, followed.resembles.offset_eq, outcome, agree.outcome_eq, outcome]
    have lasts {prop : Builder Int → Prop} (stable : StableTables prop) : Preserves prop call.run :=
      call.preserves_run stable fun _ _ => trivial
    have kept := followed.of_agree (fun src => lasts (stableTables_keeps src))
      (lasts stableTables_orderly) (lasts stableTables_backed) agree
    have ampleAsked := call.request_le followed.resembles.ampleValid
    have asked := call.request_le followed.resembles.valid
    rw [entry_eq] at asked
    refine .inr ⟨agree.outcome_eq, congrArg (fun e => [e]) entry_eq, agree.roomy, ?_, ?_⟩
    · intro e mem
      rw [List.mem_singleton.mp mem]
      exact agree.roomy
    · exact kept.snoc ⟨ampleAsked, asked⟩ fun t isEnded =>
        refers_of_ended followed.orderly followed.backed isEnded

theorem journal_of_isPlain (plain : call.isPlain = true) :
    call.journal = fun pre => [call.entry pre] := by
  cases call with
  | createStructVector | attempt => cases plain
  | _ => rfl

theorem follows_steps (each : ∀ call ∈ calls, Follows call.run call.journal) :
    Follows (runSteps calls) (journalSteps calls) := by
  induction calls with
  | nil => exact .pure ()
  | cons hd rest ih =>
    refine (each hd List.mem_cons_self).bind fun _ => ?_
    exact ih fun call mem => each call (List.mem_cons_of_mem _ mem)

theorem writeAll_cons (writer : List Call) (rest : List (List Call)) :
    writeAll (writer :: rest) = writeAll rest >>= fun _ => runSteps writer := by
  simp_all [writeAll, runWriters, runSteps]

theorem follows_writeAll
    (each : ∀ writer ∈ writers, ∀ call ∈ writer, Follows call.run call.journal) :
    Follows (writeAll writers) (journalWriters writers) := by
  induction writers with
  | nil => exact .pure ()
  | cons writer rest ih =>
    have others := ih fun other mem => each other (List.mem_cons_of_mem _ mem)
    rw [writeAll_cons]
    exact others.bind fun _ => follows_steps (each writer List.mem_cons_self)

theorem follows_vector (each : ∀ writer ∈ writers, ∀ call ∈ writer, Follows call.run call.journal) :
    Follows (Call.createStructVector width align writers).run
      (Call.createStructVector width align writers).journal := by
  have len : (runWriters writers).length = writers.length := by
    rw [runWriters_eq_map, List.length_map]
  have lead : Follows (Build.startVector (width : Int) writers.length align) fun _ => [] :=
    ((tracks_startVector _ _ _).mono (Nat.le_refl _) (Nat.zero_le _)).follows
      (fun src => (stableTables_keeps src).startVector trivial _ _)
      (stableTables_orderly.startVector trivial _ _)
      (stableTables_backed.startVector trivial _ _)
  have closing : Follows (Build.endVector >>= fun off => pure (Answer.offset off)) fun _ => [] :=
    (tracks_placing tracks_endVector).follows
      (fun src => preserves_placing (stableTables_keeps src).endVector)
      (preserves_placing stableTables_orderly.endVector)
      (preserves_placing stableTables_backed.endVector)
  have all :
      Follows (Call.createStructVector width align writers).run fun pre =>
        ((Build.startVector (width : Int) writers.length align).reached pre).elim []
          (journalWriters writers) := by
    have parts := lead.silent_bind fun _ => (follows_writeAll each).bind_silent fun _ => closing
    rw [run, placing, Build.createStructVector, len]
    simp only [bind_assoc]
    exact parts
  refine ⟨all.stays, fun past ample b followed disciplined => ?_⟩
  rw [journal, disciplined_append] at disciplined
  rcases all.repeats past ample b followed disciplined.1 with outgrown | repeats
  · exact .inl outgrown
  have entry_eq :
      (Call.createStructVector width align writers).entry b =
        (Call.createStructVector width align writers).entry ample := by
    rw [entry, entry, followed.resembles.offset_eq, outcome, repeats.outcome_eq, outcome]
  refine .inr ⟨repeats.outcome_eq, ?_, repeats.roomy, ?_, ?_⟩
  · rw [journal, journal, repeats.journal_eq, entry_eq]
  · intro e mem
    rcases List.mem_append.mp mem with inner | own
    · exact repeats.entries e inner
    · rw [List.mem_singleton.mp own]
      exact repeats.roomy
  · rw [journal, ← List.append_assoc]
    refine repeats.followed.snoc ⟨Int.natCast_nonneg _, Int.natCast_nonneg _⟩ ?_
    intro t isEnded
    cases isEnded

/-- An attempt leaves what the call leaves. -/
theorem follows_attempt (follows : Follows call.run call.journal) :
    Follows (Call.attempt call).run (Call.attempt call).journal where
  stays := (Call.attempt call).preserves_run stableTables_outgrown fun _ _ => trivial
  repeats := by
    intro past ample b followed disciplined
    rcases follows.repeats past ample b followed disciplined with outgrown | repeats
    · exact .inl outgrown
    · exact .inr ⟨rfl, repeats.journal_eq, not_lacksRoom_ok _, repeats.entries, repeats.followed⟩

theorem follows (call : Call) : Follows call.run call.journal := by
  induction call using Call.induction with
  | plain call isPlain =>
    rw [journal_of_isPlain isPlain]
    exact follows_plain isPlain
  | vector width align writers ih => exact follows_vector ih
  | attempt call ih => exact follows_attempt ih

/-- Calls that are made one after another, whatever comes of each. -/
theorem follows_all (followed : Followed past ample b)
    (disciplined : Disciplined past (journalAll calls ample)) :
    (afterAll calls ample).Outgrown ∨
      journalAll calls b = journalAll calls ample ∧
        (afterAll calls b).written = (afterAll calls ample).written ∧
        ∀ e ∈ journalAll calls ample, ¬LacksRoom e.outcome := by
  induction calls generalizing past ample b with
  | nil =>
    refine .inr ⟨rfl, followed.resembles.written_eq, ?_⟩
    intro e mem
    cases mem
  | cons call rest ih =>
    rw [journalAll, disciplined_append] at disciplined
    rcases call.follows.repeats past ample b followed disciplined.1 with
      outgrown | repeats
    · exact .inl ((keeps_afterAll rest (call.after ample)).outgrown outgrown)
    rcases ih repeats.followed disciplined.2 with outgrown | ⟨logged, raw, es⟩
    · exact .inl outgrown
    · refine .inr ⟨?_, raw, ?_⟩
      · rw [journalAll, repeats.journal_eq]
        exact congrArg _ logged
      · intro e mem
        rcases List.mem_append.mp mem with own | later
        · exact repeats.entries e own
        · exact es e later

/-- Builders that have just begun. -/
theorem followed_start (small : room ≤ ampleRoom) (force : Bool) :
    Followed [] (start (ampleRoom : Int) force) (start (room : Int) force) where
  resembles := by
    have limit : ampleRoom = 536870912 := rfl
    have nothing : ∀ size : Int, (start size force).written = [] := by
      intro size
      rw [written_eq, start, Extent.byteOrFirst_int, Nat.sub_self]
      rfl
    refine ⟨valid_start (by omega) _, valid_start (by omega) _, rfl, ?_,
      (valid_start (by omega) _).space_nonneg, (valid_start (by omega) _).space_nonneg⟩
    simp only [view, offset_start, nothing]
    rfl
  orderly := orderly_start (by decide) force
  backed := backed_start _ force
  asked := by
    intro prior mem
    cases mem
  ended := by
    intro prior mem
    cases mem

/-- Calls whose bytes and requests fit into half a gibibyte come to the same on builders of any two
rooms up to that size: the same answers and errors, the same offsets, the same bytes.  None of them
is refused for want of room. -/
theorem room_independent (calls : List Call) (forceDefaults : Bool)
    (fits : (afterAll calls (start (ampleRoom : Int) forceDefaults)).capacity = ampleRoom)
    (disciplined : Disciplined [] (journalAll calls (start (ampleRoom : Int) forceDefaults)))
    (room other : Nat) (roomSmall : room ≤ ampleRoom) (otherSmall : other ≤ ampleRoom) :
    journalAll calls (start (room : Int) forceDefaults) =
        journalAll calls (start (other : Int) forceDefaults) ∧
      (afterAll calls (start (room : Int) forceDefaults)).written =
        (afterAll calls (start (other : Int) forceDefaults)).written ∧
      ∀ entry ∈ journalAll calls (start (room : Int) forceDefaults), ¬LacksRoom entry.outcome := by
  have fitting : ¬(afterAll calls (start (ampleRoom : Int) forceDefaults)).Outgrown := by
    rw [Outgrown, fits]
    exact Nat.lt_irrefl _
  have ends {room} (small : room ≤ ampleRoom) :=
    (follows_all (followed_start small forceDefaults) disciplined).resolve_left fitting
  have one := ends roomSmall
  have two := ends otherSmall
  refine ⟨one.1.trans two.1.symm, one.2.1.trans two.2.1.symm, ?_⟩
  rw [one.1]
  exact one.2.2

/-- A table, a vector of structs whose writers make room for their bytes, and a look at the field
of the table. -/
def pairCalls : List Call :=
  [.startTable 1,
    .addFieldScalar 0 .int16 (.number (Double.ofInt 5)) (.number Double.zero),
    .endTable,
    .createStructVector 4 4
      [[.prep 4 4, .writeScalar .int32 (.number (Double.ofInt 7))],
        [.prep 4 4, .pad 2, .writeScalar .int16 (.number (Double.ofInt 3))]],
    .finish 8 none false,
    .bytes,
    .requiredField 8 4 none]

/-- A builder with room for one byte writes what one with room for four thousand does. -/
theorem room_independent_pairCalls :
    (afterAll pairCalls (start (ampleRoom : Int) false)).capacity = ampleRoom ∧
      Disciplined [] (journalAll pairCalls (start (ampleRoom : Int) false)) ∧
      journalAll pairCalls (start ((1 : Nat) : Int) false) =
        journalAll pairCalls (start ((4096 : Nat) : Int) false) ∧
      (afterAll pairCalls (start ((4096 : Nat) : Int) false)).written =
        [24, 0, 0, 0, 2, 0, 0, 0, 7, 0, 0, 0, 3, 0, 0, 0, 0, 0, 6, 0, 8, 0, 6, 0, 6, 0, 0, 0, 0, 0,
          5, 0] := by
  have look : ∀ state : Builder Int, (Call.requiredField 8 4 none).after state = state :=
    fun state => (preserves_quiet (preserves_requiredField _ _ _) :
      Preserves (· = state) (Call.requiredField 8 4 none).run) state rfl
  have fits : (afterAll pairCalls (start (ampleRoom : Int) false)).capacity = ampleRoom := by
    have split : pairCalls = pairCalls.take 6 ++ [.requiredField 8 4 none] := rfl
    rw [split, afterAll, List.foldl_append, List.foldl_cons, List.foldl_nil, look]
    decide +kernel
  have disciplined : Disciplined [] (journalAll pairCalls (start (ampleRoom : Int) false)) := by
    decide +kernel
  have same := room_independent pairCalls false fits disciplined 1 4096 (by decide) (by decide)
  refine ⟨fits, disciplined, same.1, ?_⟩
  rw [← same.2.1]
  decide +kernel

end Call

end Build

end FlatSchema

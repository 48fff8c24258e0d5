import FlatSchema.Proofs.EndedTables
import Mathlib.Data.List.Nodup

/-!
# Looking up the fields of a table

While a table is open, each call that stores a field notes in its slot where
the field begins; a later one for the same slot takes its place, and a call
that fails notes nothing.  After the table has been ended a reader finds, at
every slot, the distance to what was stored there last, and so it does after
any further calls, since these only append.

A vtable is written only if no earlier one has the same words.  As long as the
words take sixteen bits, no two vtables have the same bytes.
-/

namespace FlatSchema

open Builder

namespace Build

variable {pre post : Builder Int} {slots : List Int} {i n : Nat} {call : Call}
  {calls : List Call}

/-! ## Fields of an open table -/

/-- A table is open that began at an offset and has some slots. -/
def Opens (slots : List Int) (began : Int) (s : Builder Int) : Prop :=
  s.slots = some slots ∧ s.objectStart = began

theorem steady_opens (slots : List Int) (began : Int) :
    SteadyFor (fun _ => True) (Opens slots began) :=
  steady_setting (fun setting => setting.slots = some slots ∧ setting.objectStart = began)
    fun _ opens => opens

namespace Call

/-- The calls that fill a table of a number of slots: those that store a field in one of them, and
those that write a struct in place.  A struct has an offset other than zero. -/
def Fills (n : Nat) : Call → Prop
  | .addFieldScalar i .. | .addFieldOffset i _ => i < n
  | .addFieldStruct i target => i < n ∧ target ≠ 0
  | .pad _ | .prep .. | .writeScalar .. | .addScalar .. | .addOffset _ => True
  | _ => False

/-- The slot of the field that a call writes: none if its value is the default or if it refers to
nothing. -/
def field? (call : Call) (pre : Builder Int) : Option Nat :=
  match call with
  | .addFieldScalar i _ v fallback =>
    if !pre.forceDefaults && v.same fallback then none else some i
  | .addFieldOffset i target => if target = 0 then none else some i
  | .addFieldStruct i _ => some i
  | _ => none

/-- The slot in which a call stores a field.  A call that fails stores none. -/
def stored? (call : Call) (pre : Builder Int) : Option Nat :=
  if (call.outcome pre).isOk then call.field? pre else none

/-- Where the field begins that calls have stored last in a slot. -/
def lastStored? (i : Nat) : List Call → Builder Int → Option Int
  | [], _ => none
  | call :: rest, pre =>
    (lastStored? i rest (call.after pre)).or
      (if call.stored? pre = some i then some (call.after pre).offset else none)

end Call

/-- Writing a value moves the offset. -/
theorem offset_of_addScalar {kind : ScalarKind} {v : ScalarValue} {res : Unit}
    (ran : Yields (addScalar kind v) pre res post) : pre.offset < post.offset := by
  rw [addScalar, Yields.bind_iff] at ran
  rcases ran with ⟨_, mid, prepared, raw⟩
  have further :=
    (((stable_keeps pre).prep trivial _ pre (.refl pre)).of_yields prepared).offset_le
  rw [writeScalar] at raw
  split at raw
  · next bs enc =>
      have moved := offset_of_put raw
      have len := ScalarKind.length_of_encode enc
      have pos := kind.size_pos
      omega
  · exact (Yields.throw_iff.mp raw).elim

theorem offset_of_addOffset {target : Int} {res : Unit}
    (ran : Yields (addOffset target) pre res post) : pre.offset < post.offset := by
  rw [addOffset, Yields.bind_iff] at ran
  rcases ran with ⟨_, mid, prepared, raw⟩
  have further :=
    (((stable_keeps pre).prep trivial _ pre (.refl pre)).of_yields prepared).offset_le
  rw [Build.offset, bind_assoc, Yields.get_bind_iff, pure_bind] at raw
  split at raw
  · exact (Yields.throw_bind_iff.mp raw).elim
  · have moved := offset_of_put raw
    rw [length_littleEndian] at moved
    omega

/-- What a call has made of the slots of a table: if it has stored a field, then in a slot of the
table, which has the offset that is left. -/
structure Noted (slots : List Int) (began : Int) (stored : Option Nat) (post : Builder Int) :
    Prop where
  opens : Opens (stored.elim slots fun i => slots.set i post.offset) began post
  lt_length : ∀ i ∈ stored, i < slots.length
  offset_ne : stored.isSome → post.offset ≠ 0

theorem noted_none (opens : Opens slots began post) : Noted slots began none post :=
  ⟨opens, by simp, by simp⟩

/-- A slot of an open table can be noted. -/
theorem yields_slot (isOpen : pre.slots = some slots) (fits : i < slots.length) :
    Yields (slot (i : Int)) pre () { pre with slots := some (slots.set i pre.offset) } := by
  rw [slot, Yields.get_bind_iff, isOpen]
  have inside : isOutside (i : Int) slots.length = false := by
    simp [isOutside]
    omega
  simp [inside]

/-- An operation after which a slot is noted: it is, unless the operation fails. -/
theorem noted_of_slot {op : Build Int Unit} (opens : Opens slots began pre)
    (fits : i < slots.length) (keeps : Preserves (Opens slots began) op)
    (moves : ∀ mid, Yields op pre () mid → mid.offset ≠ 0)
    (ran : (op >>= fun _ => slot (i : Int)).run.run pre = (out, post)) :
    Noted slots began (if out.isOk then some i else none) post := by
  have kept := keeps pre opens
  rcases early : op.run.run pre with ⟨res, mid⟩
  rw [Upholds, early] at kept
  rw [Yields.run_bind, early] at ran
  cases res with
  | ok v =>
    cases ran.symm.trans (yields_slot kept.1 fits)
    exact ⟨⟨rfl, kept.2⟩, fun _ own => Option.some.inj own ▸ fits, fun _ => moves mid early⟩
  | error err =>
    cases ran
    exact noted_none kept

namespace Call

theorem after_quiet {op : Build Int Unit} (run_eq : call.run = quiet op) :
    call.after pre = (op.run.run pre).2 ∧
      (call.outcome pre).isOk = (op.run.run pre).1.isOk := by
  rw [after, outcome, run_eq, quiet, Yields.run_bind]
  rcases op.run.run pre with ⟨res, s⟩
  cases res <;> exact ⟨rfl, rfl⟩

/-- What a call that fills a table makes of its slots. -/
theorem noted_after (fills : call.Fills slots.length) (opens : Opens slots began pre)
    (nonneg : 0 ≤ pre.offset) :
    Noted slots began (call.stored? pre) (call.after pre) := by
  have steady := steady_opens slots began
  have noting : ∀ {op step : Build Int Unit} {i : Nat},
      call.run = quiet op → call.field? pre = some i → i < slots.length →
        op.run.run pre = (step >>= fun _ => Build.slot (i : Int)).run.run pre →
          Preserves (Opens slots began) step →
            (∀ mid, Yields step pre () mid → mid.offset ≠ 0) →
              Noted slots began (call.stored? pre) (call.after pre) := by
    intro op step i run_eq f fits ran keeps moves
    rw [stored?, f, (after_quiet run_eq).1, (after_quiet run_eq).2, ran]
    exact noted_of_slot opens fits keeps moves rfl
  have leaving : ∀ {op : Build Int Unit},
      call.run = quiet op → call.field? pre = none →
        Upholds (Opens slots began) op pre →
          Noted slots began (call.stored? pre) (call.after pre) := by
    intro op run_eq f kept
    rw [stored?, f, (after_quiet run_eq).1, ite_self]
    exact noted_none kept
  cases call with
  | pad => exact leaving (by rw [run]) rfl (steady.pad _ pre opens)
  | prep => exact leaving (by rw [run]) rfl (steady.prep trivial _ pre opens)
  | writeScalar => exact leaving (by rw [run]) rfl (steady.writeScalar _ _ pre opens)
  | addScalar => exact leaving (by rw [run]) rfl (steady.addScalar _ _ pre opens)
  | addOffset => exact leaving (by rw [run]) rfl (steady.addOffset _ pre opens)
  | addFieldScalar own kind v fallback =>
    by_cases same : (!pre.forceDefaults && v.same fallback) = true
    · refine leaving (by rw [run]) (if_pos same) ?_
      show Upholds _ (ite _ _ _ : Build Int Unit) pre
      rw [if_pos same]
      exact opens
    · refine noting (by rw [run]) (if_neg same) fills ?_ (steady.addScalar kind v) ?_
      · show (ite _ _ _ : Build Int Unit).run.run pre = _
        rw [if_neg same]
      · intro mid ran
        have moved := offset_of_addScalar ran
        omega
  | addFieldOffset own target =>
    by_cases nothing : target = 0
    · refine leaving (by rw [run]) (if_pos nothing) ?_
      rw [nothing]
      exact opens
    · refine noting (by rw [run]) (if_neg nothing) fills ?_ (steady.addOffset target) ?_
      · rw [Build.addFieldOffset, if_neg (by simpa using nothing)]
      · intro mid ran
        have moved := offset_of_addOffset ran
        omega
  | addFieldStruct own target =>
    rw [Fills] at fills
    by_cases here : (target : Int) = pre.offset
    · refine noting (by rw [run]) rfl fills.1 ?_ (.pure ()) ?_
      · show (ite _ _ _ : Build Int Unit).run.run pre = _
        rw [if_neg (by simpa using here)]
        rfl
      · rintro mid ⟨⟩
        omega
    · have ran : (Build.addFieldStruct (own : Int) target).run.run pre =
          (.error .structNotInline, pre) := by
        show (ite _ _ _ : Build Int Unit).run.run pre = _
        rw [if_pos (by simpa using here)]
        rfl
      rw [stored?, (after_quiet rfl).1, (after_quiet rfl).2, ran]
      exact noted_none opens
  | _ => cases fills

/-- What calls that fill a table make of its slots: each has the place of what was stored there
last. -/
theorem slots_afterAll (fills : ∀ call ∈ calls, call.Fills slots.length)
    (opens : Opens slots began pre) (nonneg : 0 ≤ pre.offset) :
    ∃ full : List Int,
      Opens full began (afterAll calls pre) ∧ full.length = slots.length ∧
        ∀ i, lastStored? i calls pre ≠ some 0 ∧
          full[i]?.getD 0 = (lastStored? i calls pre).getD (slots[i]?.getD 0) := by
  induction calls generalizing pre slots with
  | nil => exact ⟨slots, opens, rfl, fun i => ⟨by simp [lastStored?], rfl⟩⟩
  | cons call rest ih =>
    rcases call.noted_after (fills call List.mem_cons_self) opens nonneg with
      ⟨noted, fits, moved⟩
    have further : pre.offset ≤ (call.after pre).offset := (keeps_afterAll [call] pre).offset_le
    have len : ((call.stored? pre).elim slots fun i =>
        slots.set i (call.after pre).offset).length = slots.length := by
      cases call.stored? pre <;> simp
    rcases ih (by grind) noted (by omega) with ⟨full, filledOpens, same, hit⟩
    refine ⟨full, filledOpens, same.trans len, fun i => ?_⟩
    rcases hit i with ⟨nonzero, v⟩
    rw [v, lastStored?]
    cases stored : call.stored? pre with
    | none => simpa using nonzero
    | some own =>
      by_cases same : own = i
      · subst same
        cases later : lastStored? own rest (call.after pre) <;> simp_all
      · simpa [same] using nonzero

end Call

/-! ## The vtables of a builder -/

/-- The words of a vtable: its size, the size of the table, and distances within the table. -/
def Shaped (words : List Int) : Prop :=
  ∃ inline fs, words = (2 * (fs.length + 2) : Int) :: inline :: fs ∧ 0 ≤ inline ∧
    ∀ f ∈ fs, 0 ≤ f ∧ f ≤ inline

/-- The vtables that a builder remembers: no two have the same words. -/
structure Listed (vtables : List (List Int × Int)) : Prop where
  nodup : (vtables.map Prod.fst).Nodup
  shaped : ∀ e ∈ vtables, Shaped e.1

theorem listed_nil : Listed [] :=
  ⟨List.nodup_nil, by simp⟩

theorem Listed.snoc {vtables : List (List Int × Int)} (listed : Listed vtables)
    (new : vtables.lookup words = none) (shaped : Shaped words) (vt : Int) :
    Listed (vtables ++ [(words, vt)]) where
  nodup := by
    rw [List.map_append, List.nodup_append]
    exact ⟨listed.nodup, by simp, by grind⟩
  shaped := by
    intro e mem
    rcases List.mem_append.mp mem with old | own
    · exact listed.shaped e old
    · rwa [List.mem_singleton.mp own]

theorem shaped_vtableWords (orderly : pre.Orderly) (isOpen : pre.slots = some slots) :
    Shaped (vtableWords pre.offset pre.objectStart slots) := by
  have begun := orderly.start_le (by rw [isOpen]; rfl)
  refine ⟨_, _, by rw [vtableWords_eq, List.length_map], by omega, ?_⟩
  intro word mem
  rcases List.mem_map.mp mem with ⟨f, used, rfl⟩
  rcases exists_usedSlots slots with ⟨n, split⟩
  have listed : f ∈ slots := by
    rw [split]
    exact List.mem_append_left _ used
  have range := orderly.noted slots isOpen f listed
  rw [slotWord]
  split <;> omega

/-- A vtable is listed only if there is none of its words. -/
theorem listed_vtable (listed : Listed pre.vtables) (shaped : Shaped words) :
    Upholds (fun s => Listed s.vtables) (vtable words) pre := by
  have loop : Preserves (fun s : Builder Int => s.vtables = pre.vtables)
      (words.reverse.forM (addWord 2) : Build Int PUnit) :=
    .forM fun word _ => (stable_vtables (· = pre.vtables)).addWord trivial word
  refine .get_bind ?_
  split
  · exact listed
  · next new =>
      refine .bind (?_ : Upholds _ _ _) fun _ full ran _ => ?_
      · rw [Upholds, loop pre rfl]
        exact listed
      · have kept := (loop pre rfl).of_yields ran
        show Listed (full.vtables ++ [(words, full.offset)])
        rw [kept]
        exact listed.snoc new shaped _

theorem listed_endTable (orderly : pre.Orderly) (listed : Listed pre.vtables) :
    Upholds (fun s => Listed s.vtables) endTable pre := by
  refine .get_bind (.get_bind ?_)
  split
  · next slots _ isOpen =>
      refine .bind ((stable_vtables Listed).addWord trivial _ pre listed)
        fun _ begun worded kept => ?_
      have begunOrderly := (stable_orderly.addWord trivial _ pre orderly).of_yields worded
      have begunOpen :=
        ((steady_opens slots _).addWord trivial _ pre ⟨isOpen, rfl⟩).of_yields worded
      rw [Build.offset, bind_assoc]
      refine .get_bind ?_
      rw [pure_bind]
      refine .get_bind (.bind (listed_vtable kept (shaped_vtableWords begunOrderly begunOpen.1))
        fun vt full _ left => ?_)
      refine .bind (?_ : Upholds (fun s : Builder Int => Listed s.vtables) _ _)
        fun _ _ _ done => done
      refine .get_bind ?_
      split
      · exact left
      · exact left
  · exact listed

/-- A builder in use, with the vtables that it remembers. -/
structure Tidy (b : Builder Int) : Prop where
  orderly : b.Orderly
  listed : Listed b.vtables

theorem stable_tidy : Stable Tidy where
  put := fun bs s tidy =>
    ⟨stable_orderly.put bs s tidy.orderly, (stable_vtables Listed).put bs s tidy.listed⟩
  reserve := fun needed s tidy =>
    ⟨stable_orderly.reserve needed s tidy.orderly,
      (stable_vtables Listed).reserve needed s tidy.listed⟩
  scalar := fun _ => trivial
  raise := fun s size admitted tidy larger =>
    ⟨stable_orderly.raise s size admitted tidy.orderly larger, tidy.listed⟩
  count := fun s n tidy => ⟨stable_orderly.count s n tidy.orderly, tidy.listed⟩
  nest := fun s nested tidy => ⟨stable_orderly.nest s nested tidy.orderly, tidy.listed⟩
  mark := fun s tidy => ⟨stable_orderly.mark s tidy.orderly, tidy.listed⟩

theorem stableTables_tidy : StableTables Tidy where
  toStableVectorsFor := stable_tidy.vectors
  startTable := fun n s tidy =>
    ⟨orderly_startTable n s tidy.orderly,
      (preserves_startTable (fun _ _ listed => listed) n :
        Preserves (fun s : Builder Int => Listed s.vtables) _) s tidy.listed⟩
  slot := fun i s tidy =>
    ⟨orderly_slot i s tidy.orderly,
      (preserves_slot (fun _ _ _ listed _ => listed) i :
        Preserves (fun s : Builder Int => Listed s.vtables) _) s tidy.listed⟩
  endTable := fun s tidy =>
    ⟨orderly_endTable s tidy.orderly, listed_endTable tidy.orderly tidy.listed⟩

end Build

namespace Builder

/-- The bytes of the vtable at an offset, as many as its first word says. -/
def vtableBytes (b : Builder Int) (vt : Int) : Except WireError (List UInt8) := do
  let buf := Buffer.ofList b.memory
  let size ← buf.readNat 2 (b.capacity - vt : Int)
  buf.slice (b.capacity - vt : Int) size

/-- The words of a vtable that sixteen bits hold: it has at most 32765 slots, and the inline part
of its tables takes less than 65536 bytes. -/
def Narrow (words : List Int) : Prop :=
  words.length ≤ 32767 ∧ ∀ inline ∈ words[1]?, inline < 65536

instance (words : List Int) : Decidable (Narrow words) :=
  inferInstanceAs (Decidable (_ ∧ _))

theorem Narrow.range {words : List Int} (narrow : Narrow words) (shaped : Build.Shaped words) :
    ∀ word ∈ words, 0 ≤ word ∧ word < 65536 := by
  rcases shaped with ⟨inline, fs, rfl, nonneg, within⟩
  have short := narrow.2 inline rfl
  have few := narrow.1
  simp only [List.length_cons] at few
  intro word mem
  rcases List.mem_cons.mp mem with rfl | mem
  · omega
  rcases List.mem_cons.mp mem with rfl | mem
  · omega
  have := within word mem
  omega

/-- Different words of sixteen bits have different bytes. -/
theorem flatMap_vtableWord_inj {words others : List Int}
    (range : ∀ word ∈ words, 0 ≤ word ∧ word < 65536)
    (otherRange : ∀ word ∈ others, 0 ≤ word ∧ word < 65536)
    (same : words.flatMap vtableWord = others.flatMap vtableWord) : words = others := by
  have len : ∀ word, (vtableWord word).length = 2 := fun word => length_littleEndian ..
  induction words generalizing others with
  | nil =>
    cases others with
    | nil => rfl
    | cons other rest =>
      have := congrArg List.length same
      grind
  | cons word rest ih =>
    cases others with
    | nil =>
      have := congrArg List.length same
      grind
    | cons other others =>
      rcases List.append_inj same (by rw [len, len]) with ⟨sameWord, remaining⟩
      have read := congrArg ofLittleEndian sameWord
      rw [ofLittleEndian_vtableWord, ofLittleEndian_vtableWord] at read
      have own := range word List.mem_cons_self
      have others := otherRange other List.mem_cons_self
      rw [show word = other by omega, ih (by grind) (by grind) remaining]

/-- As long as sixteen bits hold their words, no two vtables of a builder have the same bytes. -/
theorem Reachable.nodup_vtableBytes {b : Builder Int} (reachable : b.Reachable)
    (narrow : ∀ e ∈ b.vtables, Narrow e.1) :
    (b.vtables.map fun e => b.vtableBytes e.2).Nodup := by
  have tidy : Build.Tidy b := by
    rcases reachable with ⟨room, force, α, program, small, uses, rfl⟩
    exact uses.preserves Build.stableTables_tidy
      (fun _ tidy => ⟨orderly_start tidy.orderly.initial_lt _, Build.listed_nil⟩) _
      ⟨orderly_start small force, Build.listed_nil⟩
  have range : ∀ e ∈ b.vtables, ∀ word ∈ e.1, 0 ≤ word ∧ word < 65536 :=
    fun e mem => (narrow e mem).range (tidy.listed.shaped e mem)
  have hit : ∀ e ∈ b.vtables,
      b.vtableBytes e.2 = .ok (e.1.flatMap vtableWord) := by
    intro e mem
    have stands := (tidy.orderly.stand _ _ mem).mono (written_suffix_memory b)
    have sliced := stands.slice
    have len : (e.1.flatMap vtableWord).length = 2 * e.1.length := by
      simp [vtableWord, Nat.mul_comm]
    rcases tidy.listed.shaped e mem with ⟨inline, fs, words_eq, _⟩
    have few := (narrow e mem).1
    rw [words_eq] at stands
    have size := readNat_of_vtableWord stands.left
    rw [spot, length_memory] at size sliced
    rw [vtableBytes]
    simp only [bind, Except.bind, size]
    rw [show ((2 * (fs.length + 2) : Int) % 65536).toNat = (e.1.flatMap vtableWord).length by
      rw [len]; grind]
    exact sliced
  rw [List.map_congr_left hit]
  refine List.Nodup.map_on (fun e mem other others same => ?_)
    (List.Nodup.of_map _ tidy.listed.nodup)
  exact List.inj_on_of_nodup_map tidy.listed.nodup mem others
    (flatMap_vtableWord_inj (range e mem) (range other others) (Except.ok.inj same))

end Builder

namespace Build

variable {pre opened closed : Builder Int} {n : Nat} {calls : List Call} {obj : Int}

/-- A reader finds at every slot of a table that has been ended the distance from the table to
what was stored there last, or nothing where nothing was stored, and further calls leave it so.
At any moment, no two vtables have the same bytes. -/
theorem fieldOffset_of_lastStored
    (reachable : pre.Reachable)
    (few : n ≤ 32765)
    (begun : Yields (startTable (n : Int)) pre () opened)
    (fills : ∀ call ∈ calls, call.Fills n)
    (ended : Yields endTable (Call.afterAll calls opened) obj closed)
    (short : obj - pre.offset < 65536) :
    (∀ (later : List Call) (i : Nat),
      ∃ gap : Nat,
        (Buffer.ofList (Call.afterAll later closed).memory).fieldOffset
            ((Call.afterAll later closed).capacity - obj : Int) (4 + 2 * i : Int) =
              .ok gap ∧
          (Call.lastStored? i calls opened).elim (gap = 0) fun place =>
            (gap : Int) = obj - place) ∧
      ∀ moment : Builder Int, moment.Reachable → (∀ e ∈ moment.vtables, Narrow e.1) →
        (moment.vtables.map fun e => moment.vtableBytes e.2).Nodup := by
  refine ⟨?_, fun moment => Reachable.nodup_vtableBytes⟩
  have orderly := reachable.orderly
  have openedOrderly := (orderly_startTable _ pre orderly).of_yields begun
  have began := (startTable_ends n pre).yields begun
  have nonneg : 0 ≤ pre.offset := by
    have := orderly.bounded.space_le
    show 0 ≤ (pre.capacity : Int) - pre.space
    omega
  have opens : Opens (List.replicate n 0) pre.offset opened := by
    rw [began]
    exact ⟨rfl, rfl⟩
  have openedNonneg : 0 ≤ opened.offset := by rwa [began]
  rcases Call.slots_afterAll (by simpa using fills) opens openedNonneg with
    ⟨full, filledOpens, len, hit⟩
  have filledOrderly := Call.preserves_afterAll stableTables_orderly calls
    (fun _ _ _ _ => trivial) openedOrderly
  have spec := (endTable_ends filledOrderly.bounded filledOrderly.stand filledOpens.1).yields ended
  rcases spec.refers with ⟨vt, mem, refers⟩
  have stands := spec.vtablesStand _ vt mem
  intro later i
  have suffix := ((Call.keeps_afterAll later closed).isSuffix spec.valid).trans
    (written_suffix_memory _)
  have room := length_written_le closed
  have limit := spec.valid.capacity_lt
  have object_le := spec.object_le
  have object_pos := spec.lt_object
  have vtable_le := stands.distance_le
  have vtable_ge := stands.le_distance
  have fits : ∀ f ∈ full, f ≠ 0 → 0 ≤ obj - f ∧ obj - f < 65536 := by
    intro f listed used
    have range := filledOrderly.noted full filledOpens.1 f listed used
    have began := filledOpens.2
    have ahead := spec.offset_lt
    omega
  have used : (usedSlots full).length ≤ 32765 := by
    rcases exists_usedSlots full with ⟨_, split⟩
    have := congrArg List.length split
    simp only [List.length_append, List.length_replicate] at this len
    omega
  rcases hit i with ⟨nonzero, noted⟩
  have looked := fieldOffset_eq (refers.mono suffix) (stands.mono suffix) (by omega) (by omega)
    used fits noted
  rw [spot, length_memory] at looked
  refine ⟨_, looked, ?_⟩
  cases last : Call.lastStored? i calls opened with
  | none => simp [List.getElem?_replicate]; grind
  | some place =>
    rw [last] at nonzero noted
    have away : place ≠ 0 := fun zero => nonzero (by rw [zero])
    have listed : place ∈ full := by
      rcases hit : full[i]? with _ | f
      · simp_all
      · have := List.mem_of_getElem? hit
        simp_all
    have near := fits place listed away
    rw [Option.getD_some, if_neg away]
    show ((obj - place).toNat : Int) = obj - place
    omega

/-- The second slot of a table is stored twice, the first has its default. -/
def pairFields : List Call :=
  [.addFieldScalar 1 .uint8 (.number (Double.ofInt 7)) (.number Double.zero),
    .addFieldScalar 1 .uint8 (.number (Double.ofInt 9)) (.number Double.zero),
    .addFieldScalar 0 .uint8 (.number Double.zero) (.number Double.zero)]

/-- Two tables of different shapes. -/
def twoTables : Build Int Int := do
  startTable 2
  addFieldScalar 1 .uint8 (.number (Double.ofInt 7)) (.number Double.zero)
  let _ ← endTable
  startTable 1
  endTable

/-- A table of two slots before its fields are stored. -/
def pairBegun : Builder Int :=
  ((startTable ((2 : Nat) : Int)).run.run (start standardRoom false)).2

/-- The table after it has been ended. -/
def pairEnded : Builder Int :=
  (endTable.run.run (Call.afterAll pairFields pairBegun)).2

theorem fieldOffset_of_lastStored_pair :
    Yields endTable (Call.afterAll pairFields pairBegun) 8 pairEnded ∧
      (∀ later : List Call,
        (Buffer.ofList (Call.afterAll later pairEnded).memory).fieldOffset
            ((Call.afterAll later pairEnded).capacity - 8 : Int) (6 : Int) = .ok 6 ∧
          (Buffer.ofList (Call.afterAll later pairEnded).memory).fieldOffset
            ((Call.afterAll later pairEnded).capacity - 8 : Int) (4 : Int) = .ok 0) ∧
      ∃ moment : Builder Int, moment.vtables.length = 2 ∧
        (moment.vtables.map fun e => moment.vtableBytes e.2).Nodup := by
  have reachable : (start standardRoom false : Builder Int).Reachable :=
    ⟨standardRoom, false, Unit, _, by decide, .pure (), rfl⟩
  have begun : Yields (startTable ((2 : Nat) : Int)) (start standardRoom false) () pairBegun :=
    Prod.ext (by decide +kernel) rfl
  have fills : ∀ call ∈ pairFields, call.Fills 2 := by simp [pairFields, Call.Fills]
  have ended : Yields endTable (Call.afterAll pairFields pairBegun) 8 pairEnded :=
    Prod.ext (by decide +kernel) rfl
  have snd : Call.lastStored? 1 pairFields pairBegun = some 2 := by decide +kernel
  have missing : Call.lastStored? 0 pairFields pairBegun = none := by decide +kernel
  have tables : Program twoTables :=
    .bind (.startTable 2) fun _ => .bind (.addFieldScalar 1 _ _ _) fun _ =>
      .bind .endTable fun _ => .bind (.startTable 1) fun _ => .endTable
  rcases fieldOffset_of_lastStored reachable (by decide) begun fills ended (by decide +kernel) with
    ⟨finds, distinct⟩
  refine ⟨ended, fun later => ⟨?_, ?_⟩, (twoTables.run.run (start standardRoom false)).2,
    by decide +kernel, distinct _ ⟨standardRoom, false, Int, twoTables, by decide, tables, rfl⟩
      (by decide +kernel)⟩
  · rcases finds later 1 with ⟨gap, hit, last⟩
    rw [snd] at last
    cases Int.ofNat.inj last
    exact hit
  · rcases finds later 0 with ⟨gap, hit, last⟩
    rw [missing] at last
    cases (last : gap = 0)
    exact hit

end Build

end FlatSchema

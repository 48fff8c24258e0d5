import FlatSchema.Proofs.StreamMoves
import FlatSchema.Rpc.Script

/-!
# The life of a stream

However calls, cancellations, aborts and answers follow each other, a stream
opens its transport at most once, and it never lets go of a source without a
word: when it is closed, the source has ended or was asked to release itself.
-/

namespace FlatSchema.Rpc

open ResponseStream

namespace Run

variable {σ : Type}

theorem moves_afterAnswer (input : Input) (s : ResponseStream Source) :
    Moves s input.events (afterAnswer input s) := by
  unfold afterAnswer
  split
  · exact .fail
  · exact .answer
  · exact .complete
  · next unfailed _ unfinished =>
      rw [Input.events]
      · exact .interrupt
      · exact unfailed
      · exact unfinished

theorem modify_modify (states : Array (ResponseStream Source)) (target : StreamId)
    (fst snd : ResponseStream Source → ResponseStream Source) :
    (states.modify target fst).modify target snd = states.modify target (snd ∘ fst) := by
  grind

/-- A routine of a stream moves that stream, if it is there. -/
theorem advance_moves [Behaviour σ] {routine : Routine σ} {machine : Machine σ} (input : Input)
    (own : routine.stream? = some target)
    (direct : ∀ call ∈ machine.streams, call.opening.transport.abort? = none)
    (releasable : machine.releasable = fun _ => true) :
    let moved := (advance routine input).run machine
    ∃ change, moved.2.states = machine.states.modify target change ∧
      ∀ s, machine.states[target]? = some s →
        Moves s (routine.events s moved.1 input) (change s) := by
  cases routine <;> cases own
  case next =>
    rcases of_spec (beginPull_spec target) ⟨rfl, direct⟩ with ⟨absent, here⟩
    cases hit : machine.states[target]? with
    | none => exact ⟨id, (absent hit).trans (modify_id _ _).symm, by simp⟩
    | some s =>
      -- The pull opens nothing, or its opening is refused, or there is a source now.
      rcases here s hit with
        ⟨closes, changed⟩ | ⟨opens, fault, next, changed⟩ | ⟨opens, src, next, changed⟩
      · refine ⟨_, changed, ?_⟩
        rintro _ ⟨⟩
        rcases pulls : s.pull with ⟨post, _ | _ | src⟩
        · simp only [Routine.events, pulls, pull_close pulls]
          exact .rest
        · grind
        · simp only [Routine.events, pulls]
          exact .ask pulls
      · refine ⟨_, changed.trans (modify_modify ..), ?_⟩
        rintro _ ⟨⟩
        rw [show ((advance (.next target) input).run machine).1 = _ from next]
        simp only [Routine.events, opens]
        exact .refuse (Prod.ext rfl opens)
      · refine ⟨_, changed.trans (modify_modify ..), ?_⟩
        rintro _ ⟨⟩
        rw [show ((advance (.next target) input).run machine).1 = _ from next]
        simp only [Routine.events, opens]
        exact .start (Prod.ext rfl opens)
  case asked =>
    exact ⟨_, of_spec (endPull_spec target input) rfl, fun s _ => moves_afterAnswer input s⟩
  case cancel =>
    rcases of_spec (abortStream_spec target) (rfl : machine.states = _) with kept | aborted
    · exact ⟨id, kept.trans (modify_id _ _).symm, fun _ _ => .rest⟩
    · exact ⟨_, aborted, fun _ _ => .abort⟩
  case close =>
    rcases of_spec (closeStream_spec target) ⟨rfl, releasable⟩ with ⟨absent, here⟩
    cases hit : machine.states[target]? with
    | none => exact ⟨id, (absent hit).trans (modify_id _ _).symm, by simp⟩
    | some s =>
      rcases here s hit with ⟨closed, told⟩
      refine ⟨_, closed, ?_⟩
      rintro _ ⟨⟩
      show Moves s ((closeStream target).run machine).1.releases _
      rw [told]
      exact .close
  case iterate consumer =>
    rcases of_spec (advance_iterate_spec target consumer input) (rfl : machine.states = _) with
      kept | begun
    · exact ⟨id, kept.trans (modify_id _ _).symm, fun _ _ => .rest⟩
    · exact ⟨_, begun, fun _ _ => .consume⟩

section Closed

variable {m : Machine σ} {id : StreamId} {call : Call σ} (found : m.streams[id]? = some call)

include found

theorem updateStream_self : (updateStream id fun _ => call.state).run m = ((), m) := by
  have same : m.streams.modify id (fun own => { own with state := call.state }) = m.streams := by
    refine Array.ext_getElem? fun place => ?_
    rw [Array.getElem?_modify]
    split
    · next equal =>
      subst equal
      rw [found]
      rfl
    · rfl
  exact Prod.ext rfl (congrArg (fun streams => { m with streams }) same)

/-- A pull of a closed stream changes nothing and closes the stream again before it answers. -/
theorem beginPull_closed (closed : call.state.closed = true) :
    (beginPull id).run m = (.call (.close id) (.afterwards (.ok .finished)), m) := by
  have kept := updateStream_self found
  simp only [beginPull, StateT.run_bind, StateT.run_get, pure_bind, found, pull_closed closed, kept]
  rfl

theorem closeStream_closed (closed : call.state.closed = true) :
    (closeStream id).run m = (.finish (.ok .void), ((detach id).run m).2) := by
  have kept := updateStream_self found
  simp only [closeStream, StateT.run_bind, StateT.run_get, pure_bind, found, close_closed _ closed,
    kept]
  rfl

end Closed

theorem exists_detach (m : Machine σ) (id : StreamId) :
    ∃ signals, ((detach id).run m).2 = { m with signals } := by
  unfold detach
  simp only [StateT.run_bind, StateT.run_get, pure_bind]
  split
  · exact ⟨_, rfl⟩
  · exact ⟨_, rfl⟩

end Run

namespace Machine

/-- What is done in a run, step by step, to the transport of a stream.  Between the steps anything
may be asked of the machine, and any future may be settled. -/
inductive Leads {σ : Type} [Behaviour σ] (id : StreamId) (origin : Machine σ) :
    List (StreamEvent Source) → Machine σ → Prop where
  | rest : Leads id origin [] origin
  | step (pre : Leads id origin told machine) (plain : machine.Plain)
      (stepped : machine.step? = some next) : Leads id origin (told ++ machine.events id) next
  | operate (pre : Leads id origin told machine) (streamOf iteratorOf : String → StreamId)
      (op : Operation σ) : Leads id origin told ((Run.operate streamOf iteratorOf op).run machine).2
  | settle (pre : Leads id origin told machine) (future : FutureId) (out : Outcome) :
      Leads id origin told ((Run.settle future out).run machine).2

variable {σ : Type} {machine next : Machine σ} {id : StreamId}

theorem evolves_operate (streamOf iteratorOf : String → StreamId) (op : Operation σ) :
    Evolves machine.states[id]? []
      ((Run.operate streamOf iteratorOf op).run machine).2.states[id]? := by
  rcases Run.of_spec (Run.operate_spec streamOf iteratorOf op) rfl with
    kept | ⟨aborted, pushed⟩ | ⟨target, begun⟩
  · rw [kept]
    exact .refl _
  · rw [pushed, Array.getElem?_push]
    split
    · next last =>
        subst last
        rw [Array.getElem?_size]
        exact .create aborted
    · exact .refl _
  · rw [begun, Array.getElem?_modify]
    split
    · cases machine.states[id]? with
      | none => exact .absent
      | some s => exact .move .consume
    · exact .refl _

variable [Behaviour σ]

theorem evolves_step (plain : machine.Plain) (stepped : machine.step? = some next) :
    Evolves machine.states[id]? (machine.events id) next.states[id]? := by
  unfold step? at stepped
  unfold events
  split at stepped
  · next owner routine input stack onStack =>
      cases stepped
      -- Only the move of the routine itself can touch a stream, not what is carried out after it.
      rw [Run.of_spec (Run.carryOut_spares owner _) rfl, onStack]
      cases own : routine.stream? with
      | none =>
        have running := plain.running ⟨owner, routine, input⟩ (by simp [onStack])
        rw [Run.of_spec (Run.advance_spares input own running) rfl]
        show Evolves machine.states[id]? _ machine.states[id]?
        cases machine.states[id]? with
        | none => exact .absent
        | some s =>
          simp only [own, reduceCtorEq, if_false]
          exact .move .rest
      | some target =>
        have moved := @Run.advance_moves σ target _ routine { machine with stack } input own
          plain.direct plain.releasable_eq
        rcases moved with ⟨change, changed, moves⟩
        rw [changed, Array.getElem?_modify]
        show Evolves machine.states[id]? _
          (if _ then machine.states[id]?.map change else machine.states[id]?)
        cases hit : machine.states[id]? with
        | none =>
          rw [Option.map_none, ite_self]
          exact .absent
        | some s =>
          by_cases same : target = id
          · subst same
            simp only [own, if_true, Option.map_some]
            exact .move (moves s hit)
          · simp only [own, Option.some.injEq, same, if_false]
            exact .move .rest
  · next waiter out queue onStack _ =>
      cases stepped
      rw [Run.of_spec (Run.turn_spares waiter out) rfl, onStack]
      exact .refl machine.states[id]?
  · cases stepped

/-- What was told of a stream fits its state, if it is there. -/
def Lawful : Option (ResponseStream Source) → List (StreamEvent Source) → Prop
  | none, told => told = []
  | some s, told => History s told

theorem Lawful.evolves (lawful : Lawful pre told)
    (evolves : Evolves pre done post) : Lawful post (told ++ done) := by
  cases evolves with
  | absent => exact (List.append_nil told).trans lawful
  | create aborted =>
    cases (lawful : told = [])
    exact .fresh aborted
  | move moves => exact History.moves lawful moves

theorem Leads.lawful (leads : Leads id (start σ) told machine) :
    Lawful (machine.states[id]?) told := by
  induction leads with
  | rest => simp [states, start, Lawful]
  | step pre plain stepped ih => exact ih.evolves (evolves_step plain stepped)
  | operate pre streamOf iteratorOf op ih =>
    have lawful := ih.evolves (evolves_operate streamOf iteratorOf op)
    grind
  | settle pre future out ih =>
    rw [Run.of_spec (Run.settle_spares future out) rfl]
    exact ih

theorem Leads.ends (hit : machine.states[id]? = some s) (leads : Leads id machine later next) :
    ∃ post, next.states[id]? = some post ∧ Ends s later post := by
  induction leads with
  | rest => exact ⟨s, hit, fun closed => ⟨closed, by simp⟩, fun aborted => ⟨aborted, by simp⟩⟩
  | step pre plain stepped ih =>
    rcases ih with ⟨post, there, ends⟩
    exact ends.evolves (there ▸ evolves_step plain stepped)
  | @operate so _ pre streamOf iteratorOf op ih =>
    rcases ih with ⟨post, there, ends⟩
    rw [← List.append_nil so]
    exact ends.evolves (there ▸ evolves_operate streamOf iteratorOf op)
  | settle pre future out ih =>
    rw [Run.of_spec (Run.settle_spares future out) rfl]
    exact ih

/-- What is told of a stream while the machine comes to rest in at most so many steps. -/
def toldTo (id : StreamId) : Nat → Machine σ → List (StreamEvent Source)
  | 0, _ => []
  | fuel + 1, machine =>
    match machine.step? with
    | some next => machine.events id ++ next.toldTo id fuel
    | none => []

def staysPlain : Nat → Machine σ → Bool
  | 0, _ => true
  | fuel + 1, machine =>
    decide machine.Plain &&
      match machine.step? with
      | some next => next.staysPlain fuel
      | none => true

/-- A machine that comes to rest is a run. -/
theorem Leads.toRest (pre : Leads id origin told machine) (fuel : Nat)
    (plain : machine.staysPlain fuel = true) :
    Leads id origin (told ++ machine.toldTo id fuel) (machine.settle fuel) := by
  induction fuel generalizing machine told with
  | zero =>
    rw [toldTo, List.append_nil]
    exact pre
  | succ fuel ih =>
    rw [staysPlain, Bool.and_eq_true, decide_eq_true_iff] at plain
    rw [toldTo, Machine.settle]
    cases stepped : machine.step? with
    | none =>
      rw [List.append_nil]
      exact pre
    | some next =>
      rw [stepped] at plain
      rw [← List.append_assoc]
      exact ih (pre.step plain.1 stepped) plain.2

theorem next_of_started (started : .started ∈ machine.events id) :
    ∃ owner input stack, machine.stack = ⟨owner, .next id, input⟩ :: stack := by
  unfold events at started
  split at started
  · next owner routine input stack s onStack _ =>
      split at started
      · next own =>
          cases routine with
          | next target =>
            cases own
            exact ⟨owner, input, stack, onStack⟩
          | asked =>
            simp only [Routine.events, Input.events] at started
            split at started <;> simp at started
          | close =>
            simp only [Routine.events, Next.releases] at started
            split at started <;> simp at started
          | _ => exact absurd started List.not_mem_nil
      · exact absurd started List.not_mem_nil
  · exact absurd started List.not_mem_nil

/-- What a stream is told to call has been reached after the step, by a call of its own. -/
theorem step?_reaches (stepped : machine.step? = some next) (told : event ∈ machine.events id)
    (calls : event.call? = some (src, stop)) :
    ∃ ans, machine.futures.size ≤ ans ∧ next.Reached ans stop src := by
  unfold events at told
  split at told
  · next owner routine input stack s onStack found =>
    rw [step?, onStack] at stepped
    cases stepped
    split at told
    · next own =>
      have reaches {moved : Next σ × Machine σ} (calls : moved.1.call? = some (src, stop))
          (kept : moved.2.futures = machine.futures) :=
        Run.of_spec (Run.carryOut_reaches owner _ calls) (congrArg Array.size kept)
      -- Only pulling and closing call a source.
      cases routine with
      | next =>
        cases own
        rcases Run.of_spec (Run.beginPull_asks id) (m := { machine with stack }) ⟨found, rfl⟩ with
          ⟨asks, kept⟩
        exact reaches (Routine.call?_of_events asks told calls) kept
      | close =>
        cases own
        have kept := Run.of_spec (Run.closeStream_futures id) (m := { machine with stack }) rfl
        exact reaches ((Next.call?_of_releases told).trans calls) kept
      | asked =>
        simp only [Routine.events, Input.events] at told
        split at told
        · cases List.mem_singleton.mp told
          cases calls
        · cases List.mem_singleton.mp told
          cases calls
        · cases told
      | _ => cases told
    · cases told
  · cases told

/-- A pull that waits for its turn to answer that there is no more. -/
def finishedPull (ans : FutureId) : Waiter σ × Outcome :=
  (.resume (.task ans) (.afterwards (.ok .finished)), .ok .void)

/-- A pull of a closed stream waits for its turn to answer after two steps, which touch no
source. -/
theorem step?_closed_pull {stack : List (Activation σ)} (found : machine.streams[id]? = some call)
    (closed : call.state.closed = true)
    (top : machine.stack = ⟨.task ans, .next id, input⟩ :: stack) :
    ∃ closing waiting, machine.step? = some closing ∧ closing.step? = some waiting ∧
      waiting.stack = stack ∧ waiting.queue = machine.queue ++ [finishedPull ans] ∧
      waiting.producers = machine.producers ∧ waiting.playbacks = machine.playbacks := by
  have pulled : (Run.advance (.next id) input).run { machine with stack } = _ :=
    Run.beginPull_closed (m := { machine with stack }) found closed
  let own : FutureId := machine.futures.size
  let closing : Machine σ := { machine with
    stack := ⟨.task own, .close id, .value .void⟩ :: stack
    futures := (machine.futures.push (.pending [])).setIfInBounds own
      (.pending [(finishedPull ans).1]) }
  have first : machine.step? = some closing := by
    unfold step?
    rw [top]
    simp only [pulled]
    simp [Run.carryOut, Run.startTask, Run.newFuture, Run.push, Run.await, closing, own]
    rfl
  have closes : (Run.advance (.close id) (.value .void)).run { closing with stack } = _ :=
    Run.closeStream_closed (m := { closing with stack }) found closed
  rcases Run.exists_detach { closing with stack } id with ⟨signals, detached⟩
  rw [detached] at closes
  have second : closing.step? =
      some ((Run.settle own (.ok .void)).run { closing with stack, signals }).2 := by
    unfold step?
    simp only [closing] at closes ⊢
    simp only [closes]
    rfl
  refine ⟨closing, _, first, second, ?_⟩
  simp [Run.settle, closing, own]
  trivial

/-- A pull whose turn it is to answer that there is no more does so. -/
theorem step?_finishedPull {queue : List (Waiter σ × Outcome)} (idle : machine.stack = [])
    (turn : machine.queue = finishedPull ans :: queue)
    (pending : machine.futures[ans]? = some (.pending waiters)) :
    ∃ resumed answered, machine.step? = some resumed ∧ resumed.step? = some answered ∧
      answered.futures[ans]? = some (.settled (.ok .finished)) := by
  let resumed : Machine σ := { machine with
    queue, stack := [⟨.task ans, .afterwards (.ok .finished), .value .void⟩] }
  refine ⟨resumed, _, ?_, rfl, ?_⟩
  · unfold step?
    rw [idle, turn]
    rfl
  · exact Run.of_spec (Run.settle_settles ans (.ok .finished)) (m := { resumed with stack := [] })
      ⟨waiters, pending⟩

theorem Lawful.counts (lawful : Lawful s told) :
    told.countP StreamEvent.isStart ≤ 1 ∧ told.countP StreamEvent.isRelease ≤ 1 := by
  cases s with
  | none =>
    cases (lawful : told = [])
    exact ⟨Nat.zero_le 1, Nat.zero_le 1⟩
  | some s => exact ⟨History.starts lawful, History.releases lawful⟩

/-- A stream opens its transport at most once, on a pull, and not after it was aborted or closed.
It releases its source at most once.  Once it is closed, a source that was opened has ended or was
released.  Whatever a stream is told to ask or to release has been called after that step.  A pull
of a closed stream touches no source: it waits for its turn, and is answered then that there is no
more. -/
theorem stream_opens_once (leads : Leads id (start σ) told machine) :
    told.countP StreamEvent.isStart ≤ 1 ∧ told.countP StreamEvent.isRelease ≤ 1 ∧
      (∀ before : Machine σ, .started ∈ before.events id →
        ∃ owner input stack, before.stack = ⟨owner, .next id, input⟩ :: stack) ∧
      (∀ before after : Machine σ, before.step? = some after → ∀ event ∈ before.events id,
        ∀ source stop, event.call? = some (source, stop) →
          ∃ ans, before.futures.size ≤ ans ∧ after.Reached ans stop source) ∧
      (∀ call, machine.streams[id]? = some call →
        (call.state.closed = true → ∀ source, .opened source ∈ told →
          .completed ∈ told ∨ .failed ∈ told ∨ .released source ∈ told) ∧
        ∀ later next, Leads id machine later next → (call.state.aborted = true → .started ∉ later) ∧
          (call.state.closed = true →
            (.started ∉ later ∧ ∀ source, .asked source ∉ later ∧ .released source ∉ later) ∧
              ∀ ans input stack, next.stack = ⟨.task ans, .next id, input⟩ :: stack →
                ∃ closing waiting, next.step? = some closing ∧ closing.step? = some waiting ∧
                  waiting.stack = stack ∧ waiting.queue = next.queue ++ [finishedPull ans] ∧
                  waiting.producers = next.producers ∧ waiting.playbacks = next.playbacks)) ∧
      ∀ (waiting : Machine σ) ans queue waiters, waiting.stack = [] →
        waiting.queue = finishedPull ans :: queue →
        waiting.futures[ans]? = some (.pending waiters) →
          ∃ resumed answered, waiting.step? = some resumed ∧ resumed.step? = some answered ∧
            answered.futures[ans]? = some (.settled (.ok .finished)) := by
  refine ⟨leads.lawful.counts.1, leads.lawful.counts.2, fun _ => next_of_started, ?_, ?_, ?_⟩
  · exact fun _ _ stepped _ told _ _ calls => step?_reaches stepped told calls
  · intro call found
    have present : machine.states[id]? = some call.state := by simp [states, found]
    have history : History call.state told := by
      have lawful := leads.lawful
      rw [present] at lawful
      exact lawful
    refine ⟨history.settled, fun later next leads => ?_⟩
    rcases leads.ends present with ⟨after, there, ends⟩
    rw [states, Array.getElem?_map] at there
    rcases Option.map_eq_some_iff.mp there with ⟨last, lastFound, rfl⟩
    refine ⟨fun aborted => (ends.aborted aborted).2, fun closed => ?_⟩
    rcases ends.closed closed with ⟨lastClosed, only⟩
    have untold : ∀ event, event ≠ .completed → event ≠ .failed → event ∉ later :=
      fun event uncompleted unfailed member => (only event member).elim uncompleted unfailed
    refine ⟨⟨untold _ (by simp) (by simp), fun source => ⟨?_, ?_⟩⟩, ?_⟩
    · exact untold _ (by simp) (by simp)
    · exact untold _ (by simp) (by simp)
    · exact fun ans input stack top => step?_closed_pull lastFound lastClosed top
  · exact fun waiting ans queue waiters idle turn pending => step?_finishedPull idle turn pending

/-- A stream over a transport that makes its first response wait, and a first pull. -/
def waitingPull : Machine Performance :=
  let playback : Playback := ⟨[.wait "gate" "response"], none, none, true, none⟩
  let lead : Opening Performance :=
    ⟨.playback playback, ⟨"Service", "method", .server, .plain, .plain⟩, .encoded []⟩
  let created := (Run.operate (fun _ => 0) (fun _ => 0) (.stream "s" lead none)).run (start _)
  ((Run.operate (fun _ => 0) (fun _ => 0) (.next "s")).run created.2).2

/-- The stream is cancelled while the pull waits. -/
def cancelledPull : Machine Performance :=
  ((Run.operate (fun _ => 0) (fun _ => 0) (.cancel "s")).run (waitingPull.settle 9)).2

/-- A pull after that. -/
def latePull : Machine Performance :=
  ((Run.operate (fun _ => 0) (fun _ => 0) (.next "s")).run (cancelledPull.settle 9)).2

theorem stream_opens_once_cancelledPull :
    waitingPull.toldTo 0 9 ++ cancelledPull.toldTo 0 9 =
        [.started, .opened (.playback 0), .asked (.playback 0), .released (.playback 0)] ∧
      (waitingPull.toldTo 0 9 ++ cancelledPull.toldTo 0 9).countP StreamEvent.isStart ≤ 1 ∧
      (∃ closing waiting, latePull.step? = some closing ∧ closing.step? = some waiting ∧
        waiting.queue = latePull.queue ++ [finishedPull (cancelledPull.settle 9).futures.size]) ∧
      Session.outcome? (latePull.settle 9) (cancelledPull.settle 9).futures.size =
        some (.ok .finished) := by
  have asked : Leads 0 (start _) [] waitingPull := (Leads.rest.operate _ _ _).operate _ _ _
  have waits := asked.toRest 9 (by decide +kernel)
  have leads := (waits.operate (fun _ => 0) (fun _ => 0) (.cancel "s")).toRest 9 (by decide +kernel)
  have isClosed : (cancelledPull.settle 9).streams[0]?.any (·.state.closed) = true := by
    decide +kernel
  rcases stream_opens_once leads with ⟨starts, _, _, _, here, _⟩
  refine ⟨by decide +kernel, starts, ?_, by decide +kernel⟩
  cases found : (cancelledPull.settle 9).streams[0]? with
  | none => simp [found] at isClosed
  | some call =>
    rw [found] at isClosed
    rcases ((here call found).2 [] latePull (Leads.rest.operate _ _ _)).2 isClosed with ⟨_, pulls⟩
    rcases pulls _ _ _ rfl with ⟨closing, waiting, first, second, _, queued, _⟩
    exact ⟨closing, waiting, first, second, queued⟩

end Machine

end FlatSchema.Rpc

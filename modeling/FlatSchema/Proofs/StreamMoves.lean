import FlatSchema.Rpc.Session
import Mathlib

/-!
# The moves of a stream

What each function of the machine does to the streams: the state of a stream
changes by the moves of the stream alone, and each step tells what it does to
the transport of that stream.
-/

namespace FlatSchema.Rpc

/-- What a stream does to its transport or hears of it. -/
inductive StreamEvent (ι : Type) where
  | started
  | opened (src : ι)
  | asked (src : ι)
  | released (src : ι)
  | completed
  | failed
deriving DecidableEq, Repr

namespace StreamEvent

variable {ι : Type}

def isStart : StreamEvent ι → Bool
  | .started => true
  | _ => false

def isRelease : StreamEvent ι → Bool
  | .released _ => true
  | _ => false

/-- The source that is called, and whether it is told to stop. -/
def call? : StreamEvent ι → Option (ι × Bool)
  | .asked src => some (src, false)
  | .released src => some (src, true)
  | _ => none

end StreamEvent

/-! ## The moves of a stream -/

namespace ResponseStream

variable {ι : Type}

def Closing.events : Closing ι → List (StreamEvent ι)
  | .nothing => []
  | .await src | .dismiss src => [.released src]

/-- One uninterrupted move of a stream, with what it does to the transport. -/
inductive Moves (stream : ResponseStream ι) : List (StreamEvent ι) → ResponseStream ι → Prop where
  | rest : Moves stream [] stream
  | consume : Moves stream [] { stream with consumed := true }
  | abort : Moves stream [] stream.abort
  | ask {src : ι} (asks : stream.pull = (next, .ask src)) : Moves stream [.asked src] next
  | refuse (starts : stream.pull = (next, .open)) : Moves stream [.started] next.failed
  | start {src : ι} (starts : stream.pull = (next, .open)) :
      Moves stream [.started, .opened src, .asked src] (next.opened src)
  | fail : Moves stream [.failed] stream.failed
  | complete : Moves stream [.completed] stream.exhausted
  | answer : Moves stream [] stream.answered
  | interrupt : Moves stream [] stream.interrupted
  | close : Moves stream (stream.close fun _ => true).2.events (stream.close fun _ => true).1

/-- A stream comes into being, moves, or is not there. -/
inductive Evolves :
    Option (ResponseStream ι) → List (StreamEvent ι) → Option (ResponseStream ι) → Prop where
  | absent : Evolves none [] none
  | create (aborted : Bool) : Evolves none [] (some (fresh aborted))
  | move (moves : Moves before events after) : Evolves (some before) events (some after)

theorem Evolves.refl (s : Option (ResponseStream ι)) : Evolves s [] s := by
  cases s with
  | none => exact .absent
  | some s => exact .move .rest

/-- What the events so far say of a stream in its present state. -/
structure History (s : ResponseStream ι) (events : List (StreamEvent ι)) : Prop where
  starts : events.countP StreamEvent.isStart ≤ 1
  releases : events.countP StreamEvent.isRelease ≤ 1
  unclosed : ∀ src, s.source = some src → s.closed = false
  unreleased : s.closed = false → events.countP StreamEvent.isRelease = 0
  unstarted : s.source = none → s.closed = false → events.countP StreamEvent.isStart = 0
  holds : s.closed = false → ∀ src, .opened src ∈ events → s.source = some src
  settled :
    s.closed = true → ∀ src, .opened src ∈ events →
      .completed ∈ events ∨ .failed ∈ events ∨ .released src ∈ events

theorem History.fresh (aborted : Bool) : History (.fresh aborted : ResponseStream ι) [] := by
  constructor <;> simp [ResponseStream.fresh]

variable {s next : ResponseStream ι}

theorem pull_ask {src : ι} (asks : s.pull = (next, .ask src)) :
    s.closed = false ∧ s.aborted = false ∧ s.source = some src ∧
      next = { s with inFlight := true } := by
  unfold pull at asks
  grind

theorem pull_close (closes : s.pull = (next, .close)) : next = s := by
  unfold pull at closes
  grind

theorem pull_open (starts : s.pull = (next, .open)) :
    s.closed = false ∧ s.aborted = false ∧ s.source = none ∧
      next = { s with inFlight := true } := by
  unfold pull at starts
  grind

theorem History.moves (history : History s events) (moves : Moves s done next) :
    History next (events ++ done) := by
  rcases history with ⟨starts, releases, unclosed, unreleased, unstarted, holds, settled⟩
  cases moves with
  | ask asks =>
    rcases pull_ask asks with ⟨running, _, opened, rfl⟩
    constructor <;> simp_all [StreamEvent.isStart, StreamEvent.isRelease, -List.countP_eq_zero]
    exact holds
  | refuse opens =>
    rcases pull_open opens with ⟨running, _, opened, rfl⟩
    constructor <;>
      simp_all [failed, StreamEvent.isStart, StreamEvent.isRelease, -List.countP_eq_zero]
  | start opens =>
    rcases pull_open opens with ⟨running, _, opened, rfl⟩
    constructor <;>
      simp_all [ResponseStream.opened, List.countP_cons, StreamEvent.isStart,
        StreamEvent.isRelease, -List.countP_eq_zero]
  | fail =>
    constructor <;>
      simp_all [failed, StreamEvent.isStart, StreamEvent.isRelease, -List.countP_eq_zero]
  | complete =>
    constructor <;>
      simp_all [exhausted, StreamEvent.isStart, StreamEvent.isRelease, -List.countP_eq_zero]
  | close =>
    rcases s with ⟨src, consumed, closed, inFlight, aborted⟩
    -- Only the source of a stream that was not closed is let go, and it is told so.
    cases closed <;> cases src <;> cases inFlight <;> constructor <;>
      simp_all [close, Closing.events, StreamEvent.isStart, StreamEvent.isRelease,
        -List.countP_eq_zero]
    all_goals exact fun src mem => .inr (.inr (.inr (holds src mem).symm))
  | _ =>
    rw [List.append_nil]
    exact ⟨starts, releases, unclosed, unreleased, unstarted, holds, settled⟩

/-- Once a stream is aborted, it does not open its transport; once it is closed, it does not touch
it. -/
structure Ends (s : ResponseStream ι) (told : List (StreamEvent ι)) (next : ResponseStream ι) :
    Prop where
  closed :
    s.closed = true → next.closed = true ∧ ∀ event ∈ told, event = .completed ∨ event = .failed
  aborted : s.aborted = true → next.aborted = true ∧ .started ∉ told

theorem Ends.trans (fst : Ends before told s) (snd : Ends s later next) :
    Ends before (told ++ later) next where
  closed := by
    intro closed
    rcases fst.closed closed with ⟨closed, toldOnly⟩
    rcases snd.closed closed with ⟨closed, laterOnly⟩
    exact ⟨closed, fun event mem =>
      (List.mem_append.mp mem).elim (toldOnly event) (laterOnly event)⟩
  aborted := by
    intro aborted
    rcases fst.aborted aborted with ⟨aborted, untold⟩
    rcases snd.aborted aborted with ⟨aborted, unheard⟩
    exact ⟨aborted, fun mem => (List.mem_append.mp mem).elim untold unheard⟩

theorem Moves.ends (moves : Moves s done next) : Ends s done next := by
  cases moves with
  | ask asks =>
    rcases pull_ask asks with ⟨running, unaborted, _, rfl⟩
    constructor <;> simp [running, unaborted]
  | refuse opens =>
    rcases pull_open opens with ⟨running, unaborted, _, rfl⟩
    constructor <;> simp [running, unaborted]
  | start opens =>
    rcases pull_open opens with ⟨running, unaborted, _, rfl⟩
    constructor <;> simp [running, unaborted]
  | close =>
    rcases s with ⟨src, consumed, closed, inFlight, aborted⟩
    cases closed <;> cases src <;> cases inFlight <;>
      constructor <;> simp [ResponseStream.close, Closing.events]
  | _ => constructor <;> simp [ResponseStream.abort, answered, interrupted, failed, exhausted]

theorem Ends.evolves {after : Option (ResponseStream ι)} (ends : Ends before told s)
    (evolves : Evolves (some s) done after) :
    ∃ next, after = some next ∧ Ends before (told ++ done) next := by
  cases evolves with
  | move moves => exact ⟨_, rfl, ends.trans moves.ends⟩

end ResponseStream

/-! ## What a step tells -/

/-- What a pull hears of the transport. -/
def Input.events : Input → List (StreamEvent Source)
  | .fault _ => [.failed]
  | .value .finished => [.completed]
  | _ => []

def Next.releases {σ : Type} : Next σ → List (StreamEvent Source)
  | .release src _ | .dismiss src _ => [.released src]
  | _ => []

/-- The source that is called for a stream, and whether it is told to stop. -/
def Next.call? {σ : Type} : Next σ → Option (Source × Bool)
  | .askUnlessAborted src .. => some (src, false)
  | .release src _ | .dismiss src _ => some (src, true)
  | _ => none

theorem Next.call?_of_releases {σ : Type} {next : Next σ} {event : StreamEvent Source}
    (told : event ∈ next.releases) : next.call? = event.call? := by
  cases next with
  | release | dismiss =>
    cases List.mem_singleton.mp told
    rfl
  | _ => cases told

namespace Routine

variable {σ : Type}

/-- The stream that a routine acts on. -/
def stream? : Routine σ → Option StreamId
  | .next id | .asked id | .close id | .cancel id | .iterate id _ => some id
  | _ => none

/-- What a routine does to the transport of its stream, which is in some state, as `next` says. -/
def events (s : ResponseStream Source) (next : Next σ) :
    Routine σ → Input → List (StreamEvent Source)
  | .next _, _ =>
    match s.pull.2, next with
    | .close, _ => []
    | .ask src, _ => [.asked src]
    | .open, .askUnlessAborted src .. => [.started, .opened src, .asked src]
    | .open, _ => [.started]
  | .asked _, input => input.events
  | .close _, _ => next.releases
  | _, _ => []

/-- A pull that is told to call a source does so, if it asks the source that its stream has. -/
theorem call?_of_events {next : Next σ} {event : StreamEvent Source}
    (asks : ∀ src, s.pull.2 = .ask src → next = .askUnlessAborted src target (.asked target))
    (told : event ∈ events s next (.next target) input) (calls : event.call? = some call) :
    next.call? = some call := by
  simp only [events] at told
  split at told
  · cases told
  · next pulls =>
    cases List.mem_singleton.mp told
    rw [asks _ pulls]
    exact calls
  · simp only [List.mem_cons, List.not_mem_nil, or_false] at told
    rcases told with rfl | rfl | rfl
    · cases calls
    · cases calls
    · exact calls
  · cases List.mem_singleton.mp told
    cases calls

/-- The routine goes on after opening a transport has aborted a signal. -/
def resumes : Routine σ → Bool
  | .opened .. => true
  | _ => false

end Routine

/-- The signal that opening a transport aborts. -/
def Transport.abort? : Transport → Option String
  | .playback played => played.abortOnOpen
  | .loopback => none

namespace Machine

variable {σ : Type}

@[grind =]
def states (m : Machine σ) : Array (ResponseStream Source) :=
  m.streams.map Call.state

/-- What the next step of a machine does to the transport of a stream. -/
def events [Behaviour σ] (m : Machine σ) (id : StreamId) : List (StreamEvent Source) :=
  match m.stack, m.states[id]? with
  | ⟨_, routine, input⟩ :: stack, some s =>
    if routine.stream? = some id then
      routine.events s ((Run.advance routine input).run { m with stack }).1 input
    else []
  | _, _ => []

/-- A call of a source has reached it: it waits at a producer, or was answered at once since the
producer is over, or the routine that answers it comes next. -/
def Reached (m : Machine σ) (ans : FutureId) (stop : Bool) : Source → Prop
  | .producer id =>
    ∀ producer, m.producers[id]? = some producer →
      ⟨stop, ans⟩ ∈ producer.requests ∨
        stop = false ∧ m.futures[ans]? = some (.settled (.ok .finished))
  | .stream id =>
    m.stack.head? = some ⟨.task ans, if stop then .release id else .next id, .value .void⟩
  | .playback id =>
    m.stack.head? =
      some ⟨.task ans, if stop then .releasePlayback id else .respond id, .value .void⟩

/-- Opening a transport aborts no signal and is not resumed after such an abort, and all sources
can be asked to release themselves. -/
structure Plain (m : Machine σ) : Prop where
  direct : ∀ call ∈ m.streams, call.opening.transport.abort? = none
  running : ∀ activation ∈ m.stack, activation.routine.resumes = false
  releasable : ∀ playback ∈ m.playbacks, playback.releasable = true

instance (m : Machine σ) : Decidable m.Plain :=
  decidable_of_iff
    ((∀ call ∈ m.streams, call.opening.transport.abort? = none) ∧
      (∀ activation ∈ m.stack, activation.routine.resumes = false) ∧
        ∀ playback ∈ m.playbacks, playback.releasable = true)
    ⟨fun plain => ⟨plain.1, plain.2.1, plain.2.2⟩,
      fun plain => ⟨plain.direct, plain.running, plain.releasable⟩⟩

theorem Plain.releasable_eq {m : Machine σ} (plain : m.Plain) : m.releasable = fun _ => true := by
  funext src
  cases src with
  | playback id =>
    exact Option.all_eq_true .. |>.mpr fun playback hit =>
      plain.releasable playback (Array.mem_of_getElem? hit)
  | _ => rfl

end Machine

/-! ## What the machine leaves alone -/

open Std.Do ResponseStream

set_option mvcgen.warning false

namespace Run

variable {σ : Type} {states : Array (ResponseStream Source)}

/-- An action leaves the states of all streams alone. -/
abbrev Spares {α : Type} (states : Array (ResponseStream Source)) (action : Run σ α) : Prop :=
  ⦃fun m => ⌜m.states = states⌝⦄ action
    ⦃⇓ _ m => ⌜m.states = states⌝⦄

@[spec]
theorem newFuture_spares : Spares states (newFuture : Run σ FutureId) := by
  mvcgen [newFuture]

@[spec]
theorem settle_spares (future : FutureId) (out : Outcome) :
    Spares states (settle future out : Run σ Unit) := by
  mvcgen [settle] with grind

@[spec]
theorem await_spares (future : FutureId) (waiter : Waiter σ) :
    Spares states (await future waiter) := by
  mvcgen [await] with grind

@[spec]
theorem drain_spares (producer : ProducerId) (requests : List ProducerRequest) :
    Spares states (drain producer requests : Run σ Unit) := by
  induction requests with
  | nil => mvcgen [drain, setProducer]
  | cons request rest ih => mvcgen [drain, setProducer, enqueue, ih] with grind

section

variable (target : StreamId)

@[spec]
theorem updateStream_spec (change : ResponseStream Source → ResponseStream Source) :
    ⦃fun m => ⌜m.states = states⌝⦄ (updateStream target change : Run σ Unit)
    ⦃⇓ _ m => ⌜m.states = states.modify target change⌝⦄ := by
  mvcgen [updateStream, updateCall]
  grind

theorem modify_id (states : Array (ResponseStream Source)) (target : StreamId) :
    states.modify target id = states :=
  Array.ext_getElem? fun place => by simp [Array.getElem?_modify]

theorem updateCall_spares {change : Call σ → Call σ}
    (kept : ∀ call, (change call).state = call.state) :
    Spares states (updateCall target change) := by
  mvcgen [updateCall]
  grind

@[spec]
theorem cancels_spares (ids : List StreamId) : Spares states (ids.mapM fun id => do
      return (⟨.task (← newFuture), .cancel id, .value .void⟩ : Activation σ) : Run σ _) := by
  induction ids with
  | nil => mvcgen [List.mapM_nil]
  | cons id rest ih => mvcgen [List.mapM_cons, ih] with grind

@[spec]
theorem abortSignal_spares (name : String) (continuation : List (Activation σ)) :
    Spares states (abortSignal name continuation) := by
  mvcgen [abortSignal, signal, push, setSignal] with grind

/-! ## What is done to a stream -/

@[spec]
theorem detach_spares : Spares states (detach target : Run σ Unit) := by
  mvcgen [detach, signal, setSignal]

/-- Opening a transport that aborts no signal gives a source, or is refused. -/
@[spec]
theorem openCall_spec {lead : Opening σ} (direct : lead.transport.abort? = none) :
    ⦃fun m => ⌜m.states = states⌝⦄ openCall target lead
    ⦃⇓ next m =>
      ⌜(∃ fault, next = .finish (.error fault) ∧ m.states = states.modify target failed) ∨
        ∃ src, next = .askUnlessAborted src target (.asked target) ∧
          m.states = states.modify target (·.opened src)⌝⦄ := by
  mvcgen [openCall, requestSource, openLoopback, newProducer, newCast, openPlayback, failPull,
    askOpened, log, newPlayback] with grind [Transport.abort?]

theorem beginPull_spec :
    ⦃fun m => ⌜m.states = states ∧ ∀ call ∈ m.streams, call.opening.transport.abort? = none⌝⦄
    (beginPull target : Run σ _)
    ⦃⇓ next m =>
      ⌜(states[target]? = none → m.states = states) ∧ ∀ s, states[target]? = some s →
        (s.pull.2 ≠ .open ∧ m.states = states.modify target fun _ => s.pull.1) ∨
          (s.pull.2 = .open ∧ ∃ fault, next = .finish (.error fault) ∧
            m.states = (states.modify target fun _ => s.pull.1).modify target failed) ∨
          (s.pull.2 = .open ∧ ∃ src, next = .askUnlessAborted src target (.asked target) ∧
            m.states =
              (states.modify target fun _ => s.pull.1).modify target (·.opened src))⌝⦄ := by
  mvcgen [beginPull] with grind [Array.mem_of_getElem?]

/-- How a pull leaves its stream when it has heard an answer. -/
def afterAnswer : Input → ResponseStream Source → ResponseStream Source
  | .fault _ => failed
  | .value (.item (.encoded _)) => answered
  | .value .finished => exhausted
  | _ => interrupted

theorem endPull_spec (input : Input) :
    ⦃fun m => ⌜m.states = states⌝⦄ (endPull target input : Run σ _)
    ⦃⇓ _ m => ⌜m.states = states.modify target (afterAnswer input)⌝⦄ := by
  mvcgen [endPull, failPull] with grind [afterAnswer]

theorem closeStream_spec :
    ⦃fun m => ⌜m.states = states ∧ m.releasable = fun _ => true⌝⦄ (closeStream target : Run σ _)
    ⦃⇓ next m =>
      ⌜(states[target]? = none → m.states = states) ∧ ∀ s, states[target]? = some s →
        m.states = states.modify target (fun _ => (s.close fun _ => true).1) ∧
          next.releases = (s.close fun _ => true).2.events⌝⦄ := by
  mvcgen [closeStream] with grind [Next.releases, Closing.events]

@[spec]
theorem settleAll_spares (pulls : List FutureId) (out : Outcome) :
    Spares states (pulls.forM (settle · out) : Run σ Unit) := by
  induction pulls with
  | nil => mvcgen [List.forM]
  | cons pull rest ih => mvcgen [List.forM, ih] with grind

theorem abortStream_spec : ⦃fun m => ⌜m.states = states⌝⦄ (abortStream target : Run σ _)
    ⦃⇓ _ m => ⌜m.states = states ∨ m.states = states.modify target ResponseStream.abort⌝⦄ := by
  mvcgen [abortStream, updateCall] with grind

theorem iterate_spec : ⦃fun m => ⌜m.states = states⌝⦄ (iterate target : Run σ _)
    ⦃⇓ _ m => ⌜m.states = states ∨
      m.states = states.modify target fun s => { s with consumed := true }⌝⦄ := by
  mvcgen [iterate] with grind

end

theorem newStream_spec (lead : Opening σ) (name : Option String) :
    ⦃fun m => ⌜m.states = states⌝⦄ newStream lead name
    ⦃⇓ _ m => ⌜∃ aborted, m.states = states.push (fresh aborted)⌝⦄ := by
  mvcgen [newStream, signal, setSignal] with grind

/-- An operation creates a stream, begins to iterate one, or leaves streams alone. -/
theorem operate_spec (streamOf iteratorOf : String → StreamId) (op : Operation σ) :
    ⦃fun m => ⌜m.states = states⌝⦄ operate streamOf iteratorOf op
    ⦃⇓ _ m =>
      ⌜m.states = states ∨ (∃ aborted, m.states = states.push (fresh aborted)) ∨
        ∃ target, m.states = states.modify target fun s => { s with consumed := true }⌝⦄ := by
  mvcgen [operate, register, beginCall, newStream_spec, iterate_spec, startTask, push,
    resolved, beginExchange, requestSource, openLoopback, newProducer, newCast, gate] with grind

/-! ## Calls and answers -/

section Calls

variable {futures : Array (Future σ)}

theorem settle_settles (ans : FutureId) (out : Outcome) :
    ⦃fun m => ⌜∃ waiters, m.futures[ans]? = some (.pending waiters)⌝⦄ (settle ans out : Run σ Unit)
    ⦃⇓ _ m => ⌜m.futures[ans]? = some (.settled out)⌝⦄ := by
  mvcgen [settle, -settle_spares] with grind

theorem request_reaches (src : Source) (stop : Bool) (ans : FutureId) :
    ⦃fun m => ⌜∃ waiters, m.futures[ans]? = some (.pending waiters)⌝⦄
    (request src stop ans : Run σ Unit)
    ⦃⇓ _ m => ⌜m.Reached ans stop src⌝⦄ := by
  mvcgen [request, requestProducer, settle, setProducer, enqueue, push] with grind [Machine.Reached]

/-- A call reaches its source, and a future of its own stands for the answer. -/
theorem carryOut_reaches (owner : Owner) {next : Next σ} (size : Nat)
    (calls : next.call? = some (src, stop)) :
    ⦃fun m => ⌜m.futures.size = size⌝⦄ carryOut owner next
    ⦃⇓ _ m => ⌜∃ ans, size ≤ ans ∧ m.Reached ans stop src⌝⦄ := by
  mvcgen [carryOut, newFuture, await, push, enqueue, updateCall, request_reaches]
    with grind [Next.call?]

theorem beginPull_asks {s : ResponseStream Source} (target : StreamId) :
    ⦃fun m => ⌜m.states[target]? = some s ∧ m.futures = futures⌝⦄ (beginPull target : Run σ _)
    ⦃⇓ next m =>
      ⌜(∀ src, s.pull.2 = .ask src → next = .askUnlessAborted src target (.asked target)) ∧
        m.futures = futures⌝⦄ := by
  mvcgen [beginPull, openCall, requestSource, openLoopback, newProducer, newCast, openPlayback,
    failPull, askOpened, log, newPlayback, updateStream, updateCall, detach, signal, setSignal]
    with grind

theorem closeStream_futures (target : StreamId) :
    ⦃fun m => ⌜m.futures = futures⌝⦄ (closeStream target : Run σ _)
    ⦃⇓ _ m => ⌜m.futures = futures⌝⦄ := by
  mvcgen [closeStream, updateStream, updateCall, detach, signal, setSignal]

end Calls

/-! ## Steps -/

/-- What a specification says of a run. -/
theorem of_spec {action : Run σ α} {pre : Machine σ → Prop} {post : α → Machine σ → Prop}
    {m : Machine σ} (spec : ⦃fun m => ⌜pre m⌝⦄ action ⦃⇓ v m => ⌜post v m⌝⦄) (holds : pre m) :
    post (action.run m).1 (action.run m).2 :=
  spec m holds

theorem carryOut_spares (owner : Owner) (next : Next σ) : Spares states (carryOut owner next) := by
  mvcgen [carryOut, push, enqueue, request, requestProducer, setProducer, startTask, gate, deliver,
    completeProducer, updateCall_spares] with grind

theorem turn_spares (waiter : Waiter σ) (out : Outcome) : Spares states (turn waiter out) := by
  mvcgen [turn, push, deliver, completeProducer, enqueue, setProducer, updateCall_spares] with grind

theorem advance_iterate_spec [Behaviour σ] (target : StreamId) (consumer : Consumer)
    (input : Input) :
    ⦃fun m => ⌜m.states = states⌝⦄ (advance (.iterate target consumer) input : Run σ _)
    ⦃⇓ _ m => ⌜m.states = states ∨
      m.states = states.modify target fun s => { s with consumed := true }⌝⦄ := by
  mvcgen [advance, iterate_spec] with grind

/-- All routines but those of streams leave streams alone. -/
theorem advance_spares [Behaviour σ] {routine : Routine σ} (input : Input)
    (free : routine.stream? = none) (running : routine.resumes = false) :
    Spares states (advance routine input) := by
  cases routine <;> cases free
  case opened => cases running
  all_goals
    mvcgen [advance, turnLoop, leaveSource, endDelegation, serveStreamed, serveRequest,
      delegateResponses, newProducer, newCast, perform, performAct, tell, log, playNext,
      releasePlayed]

end Run

end FlatSchema.Rpc

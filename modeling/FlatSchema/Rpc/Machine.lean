import FlatSchema.Rpc.Routine

/-!
# The machine of calls

All calls of one program run in one machine, one move at a time.  Tasks and
producers that can go on at once stand on a stack; those whose wait is over
stand in a queue and have their turn in the order in which their waits ended.

A future is settled once.  Who waits for it is put in the queue then, in the
order of arrival; who comes later is put in the queue at once.
-/

namespace FlatSchema.Rpc

inductive Owner where
  | task (ans : FutureId)
  | producer (id : ProducerId)
deriving DecidableEq, Inhabited, Repr

inductive Waiter (σ : Type) where
  | resume (owner : Owner) (routine : Routine σ)
  /-- The source of a stream answered, which settles a future unless an abort did. -/
  | settle (ans : FutureId) (stream : StreamId)
  | deliver (producer : ProducerId) (payload : Payload) (resume : Routine σ)
  | stop (producer : ProducerId) (routine : Routine σ)
  /-- A producer whose body is over answers a request to stop. -/
  | drain (producer : ProducerId)

inductive Future (σ : Type) where
  | pending (waiters : List (Waiter σ))
  | settled (out : Outcome)

inductive Phase (σ : Type) where
  | fresh (routine : Routine σ)
  /-- Its body has handed out a payload and waits for the next request. -/
  | parked (routine : Routine σ)
  | busy
  /-- Its body is over, but a request to stop is still being answered. -/
  | draining
  | over

structure ProducerRequest where
  stop : Bool
  answer : FutureId
deriving DecidableEq, Inhabited, Repr

structure Producer (σ : Type) where
  phase : Phase σ
  requests : List ProducerRequest

structure Call (σ : Type) where
  opening : Opening σ
  state : ResponseStream Source
  /-- The pulls that an abort lets go, the oldest first. -/
  pulls : List FutureId
  signal : Option String

structure Signal where
  aborted : Bool
  streams : List StreamId
deriving DecidableEq, Inhabited, Repr

structure Activation (σ : Type) where
  owner : Owner
  routine : Routine σ
  input : Input

structure Machine (σ : Type) where
  futures : Array (Future σ)
  producers : Array (Producer σ)
  streams : Array (Call σ)
  playbacks : Array Playback
  participants : Array σ
  signals : List (String × Signal)
  gates : List (String × FutureId)
  handlers : List (String × Handler σ)
  active : Nat
  log : List String
  stack : List (Activation σ)
  queue : List (Waiter σ × Outcome)

def Machine.start (σ : Type) : Machine σ :=
  ⟨#[], #[], #[], #[], #[], [], [], [], 0, [], [], []⟩

abbrev Run (σ : Type) := StateM (Machine σ)

namespace Run

variable {σ : Type}

/-! ## Stack, queue and futures -/

/-- Let routines go on at once, in order, before all others. -/
def push (activations : List (Activation σ)) : Run σ Unit :=
  modify fun m => { m with stack := activations ++ m.stack }

def enqueue (waiter : Waiter σ) (out : Outcome) : Run σ Unit :=
  modify fun m => { m with queue := m.queue ++ [(waiter, out)] }

def newFuture : Run σ FutureId :=
  modifyGet fun m =>
    (m.futures.size, { m with futures := m.futures.push (.pending []) })

def settle (id : FutureId) (out : Outcome) : Run σ Unit :=
  modify fun m =>
    match m.futures[id]? with
    | some (.pending waiters) =>
      { m with
        futures := m.futures.setIfInBounds id (.settled out)
        queue := m.queue ++ waiters.map fun waiter => (waiter, out) }
    | _ => m

def await (id : FutureId) (waiter : Waiter σ) : Run σ Unit :=
  modify fun m =>
    match m.futures[id]? with
    | some (.pending waiters) =>
      { m with
        futures := m.futures.setIfInBounds id (.pending (waiters ++ [waiter])) }
    | some (.settled out) => { m with queue := m.queue ++ [(waiter, out)] }
    | none => m

def startTask (routine : Routine σ) : Run σ FutureId := do
  let ans ← newFuture
  push [⟨.task ans, routine, .value .void⟩]
  return ans

def log (line : String) : Run σ Unit :=
  modify fun m => { m with log := m.log ++ [line] }

def gate (name : String) : Run σ FutureId := do
  match (← get).gates.lookup name with
  | some id => return id
  | none =>
    let id ← newFuture
    modify fun m => { m with gates := m.gates ++ [(name, id)] }
    return id

/-! ## Producers -/

def newProducer (routine : Routine σ) : Run σ Source :=
  modifyGet fun m =>
    (.producer m.producers.size,
      { m with producers := m.producers.push ⟨.fresh routine, []⟩ })

def newCast (s : σ) (input : Option Source) (stream : Option StreamId) : Run σ Cast :=
  modifyGet fun m =>
    (⟨m.participants.size, input, stream⟩,
      { m with participants := m.participants.push s })

def setProducer (id : ProducerId) (phase : Phase σ) (reqs : List ProducerRequest) : Run σ Unit :=
  modify fun m =>
    { m with producers := m.producers.setIfInBounds id ⟨phase, reqs⟩ }

/--
Answer the requests of a producer whose body is over.  Requests for payloads
are answered at once, a request to stop when its turn comes.
-/
def drain (id : ProducerId) : List ProducerRequest → Run σ Unit
  | [] => setProducer id .over []
  | request :: rest =>
    if request.stop then do
      setProducer id .draining (request :: rest)
      enqueue (.drain id) (.ok .void)
    else do
      settle request.answer (.ok .finished)
      drain id rest

def completeProducer (id : ProducerId) (out : Outcome) : Run σ Unit := do
  match (← get).producers[id]? with
  | some ⟨_, request :: rest⟩ =>
    settle request.answer out
    drain id rest
  | _ => return

def deliver (id : ProducerId) (payload : Payload) (resume : Routine σ) : Run σ Unit := do
  match (← get).producers[id]? with
  | some ⟨_, request :: rest⟩ =>
    settle request.answer (.ok (.item payload))
    match rest with
    | [] => setProducer id (.parked resume) []
    | tail :: _ =>
      setProducer id .busy rest
      if tail.stop then enqueue (.stop id resume) (.ok .void)
      else push [⟨.producer id, resume, .value .void⟩]
  | _ => return

def requestProducer (id : ProducerId) (request : ProducerRequest) : Run σ Unit := do
  match (← get).producers[id]? with
  | none => return
  | some ⟨phase, reqs⟩ =>
    let reqs := reqs ++ [request]
    match phase, request.stop with
    | .over, false => settle request.answer (.ok .finished)
    | .over, true | .fresh _, true =>
      setProducer id .draining reqs
      enqueue (.drain id) (.ok .void)
    | .fresh routine, false | .parked routine, false =>
      setProducer id .busy reqs
      push [⟨.producer id, routine, .value .void⟩]
    | .parked routine, true =>
      setProducer id .busy reqs
      enqueue (.stop id routine) (.ok .void)
    | .busy, _ | .draining, _ => setProducer id phase reqs

def request (src : Source) (stop : Bool) (ans : FutureId) : Run σ Unit :=
  match src with
  | .producer id => requestProducer id ⟨stop, ans⟩
  | .stream id =>
    push [⟨.task ans, if stop then .release id else .next id, .value .void⟩]
  | .playback id =>
    push [⟨.task ans, if stop then .releasePlayback id else .respond id, .value .void⟩]

/-! ## Streams and signals -/

def signal (name : String) : Run σ Signal := do
  return ((← get).signals.lookup name).getD ⟨false, []⟩

def setSignal (name : String) (signal : Signal) : Run σ Unit :=
  modify fun m =>
    { m with
      signals := (name, signal) :: m.signals.filter fun e => e.1 != name }

def updateCall (id : StreamId) (change : Call σ → Call σ) : Run σ Unit :=
  modify fun m => { m with streams := m.streams.modify id change }

def updateStream (id : StreamId)
    (change : ResponseStream Source → ResponseStream Source) : Run σ Unit :=
  updateCall id fun call => { call with state := change call.state }

/-- Let the caller's signal cancel a stream no more. -/
def detach (id : StreamId) : Run σ Unit := do
  match (← get).streams[id]? with
  | some ⟨_, _, _, some name⟩ =>
    let hit ← signal name
    setSignal name { hit with streams := hit.streams.filter (· != id) }
  | _ => return

/-- Abort the call of a stream, which lets go all pulls that are waiting. -/
def abortStream (id : StreamId) : Run σ Unit := do
  match (← get).streams[id]? with
  | some call =>
    unless call.state.aborted do
      updateCall id fun call => { call with state := call.state.abort, pulls := [] }
      call.pulls.forM fun pull => settle pull (.ok .void)
  | none => return

/-- Abort a signal: the streams that it cancels begin to close, in order, before all else. -/
def abortSignal (name : String) (continuation : List (Activation σ)) : Run σ Unit := do
  let hit ← signal name
  push continuation
  unless hit.aborted do
    setSignal name ⟨true, []⟩
    let cancels ← hit.streams.mapM fun id => do
      return (⟨.task (← newFuture), .cancel id, .value .void⟩ : Activation σ)
    push cancels

def newStream (opening : Opening σ) (signalName : Option String) : Run σ StreamId := do
  let id := (← get).streams.size
  let aborted ← match signalName with
    | none => pure false
    | some name => do
        let hit ← signal name
        unless hit.aborted do
          setSignal name { hit with streams := hit.streams ++ [id] }
        pure hit.aborted
  let attached := if aborted then none else signalName
  modify fun m =>
    { m with
      streams := m.streams.push ⟨opening, .fresh aborted, [], attached⟩ }
  return id

def iterate (id : StreamId) : Run σ (Except Fault Unit) := do
  match (← get).streams[id]? with
  | some call =>
    if call.state.consumed then
      return .error .alreadyConsumed
    updateStream id fun s => { s with consumed := true }
    return .ok ()
  | none => return .ok ()

def register (handler : Handler σ) : Run σ (Except Fault Unit) := do
  let path := handler.method.path
  if ((← get).handlers.lookup path).isSome then
    return .error (.alreadyRegistered path)
  modify fun m => { m with handlers := m.handlers ++ [(path, handler)] }
  return .ok ()

end Run

def Machine.releasable {σ : Type} (m : Machine σ) : Source → Bool
  | .playback id => (m.playbacks[id]?).all (·.releasable)
  | _ => true

end FlatSchema.Rpc

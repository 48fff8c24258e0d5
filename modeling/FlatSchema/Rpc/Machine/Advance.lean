import FlatSchema.Rpc.Machine

/-!
# What routines do

One move of a routine: from the point at which it stands and what it is taken
up with, to what it does next.  Everything between two waits is one move.
-/

namespace FlatSchema.Rpc

namespace Run

variable {σ : Type}

/-! ## Opening calls -/

def requestSource (method : Method) : Requests σ → Run σ (Except Fault Source)
  | .encoded bs => return .ok (← newProducer (.once (.encoded bs)))
  | .message msg =>
    match method.request.encode msg with
    | .ok bs => return .ok (← newProducer (.once (.encoded bs)))
    | .error fault => return .error fault
  | .feed s => do
      let messages ← newProducer (.perform (← newCast s none none))
      return .ok (← newProducer (.transcode messages (.encode method.request)))

def openLoopback (path : String) (reqs : Source) (stream : Option StreamId) :
    Run σ (Except Fault Source) := do
  match (← get).handlers.lookup path with
  | none => return .error (.unimplemented path)
  | some handler =>
    let responses ← newProducer (.serve handler reqs stream)
    return .ok (← newProducer (.track responses))

def newPlayback (playback : Playback) : Run σ Source :=
  modifyGet fun m =>
    (.playback m.playbacks.size,
      { m with playbacks := m.playbacks.push playback })

/-! ## Streams -/

def failPull (id : StreamId) (fault : Fault) : Run σ (Next σ) := do
  updateStream id ResponseStream.failed
  detach id
  return .finish (.error fault)

def askOpened (id : StreamId) (src : Source) : Run σ (Next σ) := do
  updateStream id fun stream => stream.opened src
  return .askUnlessAborted src id (.asked id)

def openPlayback (id : StreamId) (playback : Playback) : Run σ (Next σ) := do
  match playback.refusal with
  | some msg => failPull id (.raised msg)
  | none => askOpened id (← newPlayback playback)

def openCall (id : StreamId) (opening : Opening σ) : Run σ (Next σ) := do
  match ← requestSource opening.method opening.requests with
  | .error fault => failPull id fault
  | .ok reqs =>
    match opening.transport with
    | .loopback =>
      match ← openLoopback opening.method.path reqs (some id) with
      | .error fault => failPull id fault
      | .ok src => askOpened id src
    | .playback playback =>
      log ("open " ++ opening.method.path)
      match playback.abortOnOpen with
      | some name => return .abort name (.opened id playback)
      | none => openPlayback id playback

def beginPull (id : StreamId) : Run σ (Next σ) := do
  match (← get).streams[id]? with
  | none => return .finish (.ok .finished)
  | some call =>
    let (s, pull) := call.state.pull
    updateStream id fun _ => s
    match pull with
    | .close => return .call (.close id) (.afterwards (.ok .finished))
    | .ask src => return .askUnlessAborted src id (.asked id)
    | .open => openCall id call.opening

def endPull (id : StreamId) (input : Input) : Run σ (Next σ) := do
  match input with
  | .fault fault => failPull id fault
  | .value (.item (.encoded bs)) =>
    updateStream id ResponseStream.answered
    match (← get).streams[id]? with
    | none => return .finish (.ok .finished)
    | some call =>
      match call.opening.method.response.decode bs with
      | .error fault => return .call (.cancel id) (.afterwards (.error fault))
      | .ok msg => return .finish (.ok (.item (.message msg)))
  | .value .finished =>
    updateStream id ResponseStream.exhausted
    detach id
    return .finish (.ok .finished)
  | _ =>
    updateStream id ResponseStream.interrupted
    return .call (.close id) (.afterwards (.ok .finished))

def closeStream (id : StreamId) : Run σ (Next σ) := do
  let m ← get
  match m.streams[id]? with
  | none => return .finish (.ok .void)
  | some call =>
    let (s, closing) := call.state.close m.releasable
    updateStream id fun _ => s
    detach id
    match closing with
    | .nothing => return .finish (.ok .void)
    | .await src => return .release src (.afterwards (.ok .void))
    | .dismiss src => return .dismiss src (.afterwards (.ok .void))

/-! ## Loops and producers -/

def leaveSource (src : Source) (out : Outcome) : Run σ (Next σ) := do
  if (← get).releasable src then
    return .release src (.unwound out)
  else
    return .finish out

def turnLoop (src : Source) (consumer : Consumer) (input : Input) : Run σ (Next σ) := do
  match input with
  | .fault fault => return .finish (.error fault)
  | .value (.item payload) =>
    match consumer.item payload with
    | .more consumer => return .again (.consume src consumer)
    | .abortThen name consumer => return .abort name (.consume src consumer)
    | .leave out => leaveSource src out
  | _ =>
    let m ← get
    return .finish (consumer.outcome fun name =>
      (m.signals.lookup name).any (·.aborted))

def endDelegation (tracked : Bool) (out : Outcome) : Run σ (Next σ) := do
  if tracked then
    modify fun m => { m with active := m.active - 1 }
  return .finish out

def delegateResponses (method : Method) (participant : Source) : Run σ (Next σ) := do
  return .again (.delegate (← newProducer (.transcode participant (.encode method.response))) false)

def serveStreamed (handler : Handler σ) (reqs : Source) (stream : Option StreamId) :
    Run σ (Next σ) := do
  let method := handler.method
  let input ← newProducer (.transcode reqs (.decode method.request))
  let participant ← newProducer (.perform (← newCast (handler.start "") (some input) stream))
  match method.streaming with
  | .bidi => delegateResponses method participant
  | _ => return .call (.consume participant (.lastMessage "")) (.replied method)

def serveRequest (handler : Handler σ) (msg : String) (stream : Option StreamId) :
    Run σ (Next σ) := do
  let method := handler.method
  let participant ← newProducer (.perform (← newCast (handler.start msg) none stream))
  match method.streaming with
  | .server => delegateResponses method participant
  | _ => return .call (.consume participant (.lastMessage "")) (.replied method)

/-! ## Participants and playbacks -/

def tell [Behaviour σ] (cast : Cast) (heard : Heard) : Run σ (Next σ) := do
  modify fun m =>
    { m with
      participants := m.participants.modify cast.participant
        fun s => Behaviour.hear s heard }
  return .again (.perform cast)

def performAct [Behaviour σ] (cast : Cast) : Act → Run σ (Next σ)
  | .skip => tell cast .proceed
  | .log line => do
      log line
      tell cast .proceed
  | .checkAborted => do
      let m ← get
      tell cast (.aborted (cast.stream.any fun id =>
        m.streams[id]?.any fun call => call.state.aborted))
  | .wait name => return .wait name (.tell cast)
  | .produce msg => return .produce (.message msg) (.tell cast)
  | .read =>
    match cast.input with
    | some src => return .ask src (.tell cast)
    | none => tell cast (.request none)
  | .releaseInput =>
    match cast.input with
    | some src => return .release src (.tell cast)
    | none => tell cast .proceed
  | .delegate => do
      let _ ← tell cast .proceed
      let part ← newProducer (.perform cast)
      return .ask part (.parted cast part)
  | .finish => return .finish (.ok .finished)
  | .fail fault => return .finish (.error fault)

def perform [Behaviour σ] (cast : Cast) : Run σ (Next σ) := do
  match (← get).participants[cast.participant]? with
  | some s => performAct cast (Behaviour.act s)
  | none => return .finish (.ok .finished)

def heardOf : Input → Heard
  | .value (.item (.message msg)) => .request (some msg)
  | .value .finished => .request none
  | .value _ => .proceed
  | .fault fault => .fault fault
  | .stop => .stop

def playedItem (msg : String) : Outcome :=
  (.item ∘ .encoded) <$> Codec.plain.encode msg

def playNext (id : PlaybackId) : Run σ (Next σ) := do
  match (← get).playbacks[id]?.map (·.items) with
  | some (item :: rest) =>
    modify fun m =>
      { m with
        playbacks := m.playbacks.modify id fun playback => { playback with items := rest } }
    match item with
    | .respond msg => return .finish (playedItem msg)
    | .raise msg => return .finish (.error (.raised msg))
    | .wait name msg => return .wait name (.responded msg)
  | _ => return .finish (.ok .finished)

def releasePlayed (id : PlaybackId) : Run σ (Next σ) := do
  log "transport:return"
  match (← get).playbacks[id]?.bind (·.releaseFault) with
  | some msg => return .finish (.error (.raised msg))
  | none => return .finish (.ok .finished)

/-! ## All routines -/

def advance [Behaviour σ] (routine : Routine σ) (input : Input) : Run σ (Next σ) := do
  match routine, input with
  | .next id, _ => beginPull id
  | .opened id playback, _ => openPlayback id playback
  | .asked id, input => endPull id input
  | .cancel id, _ =>
    abortStream id
    return .call (.close id) (.afterwards (.ok .void))
  | .close id, _ => closeStream id
  | .release id, _ => return .call (.cancel id) (.afterwards (.ok .finished))
  | .afterwards _, .fault fault => return .finish (.error fault)
  | .afterwards out, _ => return .finish out
  | .unwound (.ok _), .fault fault => return .finish (.error fault)
  | .unwound out, _ => return .finish out
  | .iterate id consumer, _ =>
    match ← iterate id with
    | .error fault => return .finish (.error fault)
    | .ok _ => return .again (.consume (.stream id) consumer)
  | .consume src consumer, _ => return .ask src (.consumed src consumer)
  | .consumed src consumer, input => turnLoop src consumer input
  | .once payload, _ => return .produce payload .done
  | .done, _ => return .finish (.ok .finished)
  | .transcode src _, .stop => leaveSource src (.ok .finished)
  | .transcode src coder, _ => return .ask src (.transcoded src coder)
  | .transcoded src coder, .value (.item payload) =>
    match coder.apply payload with
    | .ok payload => return .produce payload (.transcode src coder)
    | .error fault => leaveSource src (.error fault)
  | .transcoded _ _, .fault fault => return .finish (.error fault)
  | .transcoded _ _, _ => return .finish (.ok .finished)
  | .track src, _ =>
    modify fun m => { m with active := m.active + 1 }
    return .ask src (.delegated src true)
  | .delegate src tracked, .stop =>
    if (← get).releasable src then
      return .release src (.delegated src tracked)
    else
      endDelegation tracked (.ok .finished)
  | .delegate src tracked, _ => return .ask src (.delegated src tracked)
  | .delegated src tracked, .value (.item payload) =>
    return .passOn payload (.delegate src tracked)
  | .delegated _ tracked, .fault fault => endDelegation tracked (.error fault)
  | .delegated _ tracked, _ => endDelegation tracked (.ok .finished)
  | .serve handler reqs stream, _ =>
    match handler.method.streaming with
    | .none | .server =>
      return .call (.consume reqs (.firstRequest handler.method)) (.served handler stream)
    | .client | .bidi => serveStreamed handler reqs stream
  | .served handler stream, .value (.reply msg) => serveRequest handler msg stream
  | .served _ _, .fault fault => return .finish (.error fault)
  | .served _ _, _ => return .finish (.ok .finished)
  | .replied method, .value (.reply msg) =>
    match method.response.encode msg with
    | .ok bs => return .produce (.encoded bs) .done
    | .error fault => return .finish (.error fault)
  | .replied _, .fault fault => return .finish (.error fault)
  | .replied _, _ => return .finish (.ok .finished)
  | .perform cast, _ => perform cast
  | .tell cast, input => tell cast (heardOf input)
  | .part cast src, .stop => return .release src (.partLeft cast)
  | .part cast src, _ => return .ask src (.parted cast src)
  | .parted cast src, .value (.item payload) => return .passOn payload (.part cast src)
  | .parted cast _, .fault fault => tell cast (.fault fault)
  | .parted cast _, _ => tell cast .proceed
  | .partLeft cast, .fault fault => tell cast (.fault fault)
  | .partLeft cast, _ => tell cast .stop
  | .respond id, _ => playNext id
  | .responded msg, _ => return .finish (playedItem msg)
  | .releasePlayback id, _ => releasePlayed id

end Run

end FlatSchema.Rpc

import FlatSchema.Rpc.Behaviour
import FlatSchema.Rpc.Method
import FlatSchema.Rpc.Stream

/-!
# Routines

The bodies of everything that runs during calls, as data.  A routine is a body
together with the point at which it stands.  A *task* runs a routine to its
answer.  A *producer* runs one that hands out payloads on request and can be
asked to stop early.  Whatever a routine waits for, it says so as a `Next` and
is taken up again with an `Input`.
-/

namespace FlatSchema.Rpc

/-- Number of a future: a place for an answer that may not be there yet. -/
abbrev FutureId := Nat

abbrev ProducerId := Nat

abbrev StreamId := Nat

abbrev ParticipantId := Nat

abbrev PlaybackId := Nat

/-- What can be asked for payloads, one at a time, and asked to release itself. -/
inductive Source where
  | producer (id : ProducerId)
  | stream (id : StreamId)
  | playback (id : PlaybackId)
deriving DecidableEq, Inhabited, Repr

inductive Payload where
  | message (message : String)
  | encoded (bs : List UInt8)
deriving DecidableEq, Inhabited, Repr

inductive Datum where
  | void
  | item (payload : Payload)
  | finished
  | reply (msg : String)
  | gathered (messages : List String)
deriving DecidableEq, Inhabited, Repr

abbrev Outcome := Except Fault Datum

/-! ## Transports -/

inductive PlaybackItem where
  | respond (msg : String)
  | raise (msg : String)
  | wait (gate : String) (msg : String)
deriving DecidableEq, Inhabited, Repr

structure Playback where
  items : List PlaybackItem
  /-- The signal that opening the transport aborts. -/
  abortOnOpen : Option String
  refusal : Option String
  releasable : Bool
  releaseFault : Option String
deriving DecidableEq, Inhabited, Repr

inductive Transport where
  | loopback
  | playback (playback : Playback)
deriving DecidableEq, Inhabited, Repr

inductive Requests (σ : Type) where
  | encoded (bs : List UInt8)
  | message (message : String)
  /-- The messages of a participant, each written when it is asked for. -/
  | feed (s : σ)

structure Opening (σ : Type) where
  transport : Transport
  method : Method
  requests : Requests σ

structure Handler (σ : Type) where
  method : Method
  start : String → σ

/-! ## Loops over sources -/

inductive Transcoder where
  | encode (codec : Codec)
  | decode (codec : Codec)

def Transcoder.apply : Transcoder → Payload → Except Fault Payload
  | .encode codec, .message msg => Payload.encoded <$> codec.encode msg
  | .decode codec, .encoded bs => Payload.message <$> codec.decode bs
  | _, payload => .ok payload

/-- When to stop gathering, and when to abort a signal on the way.  Stopping comes first. -/
structure GatherPlan where
  limit : Option Nat
  abortAfter : Option Nat
  abort : Option String
deriving DecidableEq, Inhabited, Repr

inductive Consumer where
  | firstRequest (method : Method)
  | firstResponse (path : String) (signal : Option String)
  | lastMessage (seen : String)
  | gather (plan : GatherPlan) (seen : List String)
  | gatherEncoded (codec : Codec) (seen : List String)

inductive Consumption where
  | more (consumer : Consumer)
  | abortThen (signal : String) (consumer : Consumer)
  | leave (out : Outcome)

def GatherPlan.enough (plan : GatherPlan) (seen : List String) : Bool :=
  plan.limit.any (· ≤ seen.length)

def GatherPlan.signal? (plan : GatherPlan) (seen : List String) : Option String :=
  if plan.abortAfter = some seen.length then plan.abort else none

def Consumer.item : Consumer → Payload → Consumption
  | .firstRequest method, .encoded bs => .leave (Datum.reply <$> method.request.decode bs)
  | .firstResponse _ _, .message msg => .leave (.ok (.reply msg))
  | .lastMessage _, .message msg => .more (.lastMessage msg)
  | .gather plan seen, .message msg =>
    let seen := seen ++ [msg]
    if plan.enough seen then .leave (.ok (.gathered seen))
    else
      match plan.signal? seen with
      | some signal => .abortThen signal (.gather plan seen)
      | none => .more (.gather plan seen)
  | .gatherEncoded codec seen, .encoded bs =>
    match codec.decode bs with
    | .ok msg => .more (.gatherEncoded codec (seen ++ [msg]))
    | .error fault => .leave (.error fault)
  | consumer, _ => .more consumer

def Consumer.outcome (aborted : String → Bool) : Consumer → Outcome
  | .firstRequest method => .error (.noRequest method.path)
  | .firstResponse path signal =>
    if signal.any aborted then .error (.cancelled path) else .error (.noResponse path)
  | .lastMessage seen => .ok (.reply seen)
  | .gather _ seen => .ok (.gathered seen)
  | .gatherEncoded _ seen => .ok (.gathered seen)

/-! ## Routines -/

/-- A participant in its call: where its requests come from, and the stream of its responses. -/
structure Cast where
  participant : ParticipantId
  input : Option Source
  stream : Option StreamId
deriving DecidableEq, Inhabited, Repr

inductive Routine (σ : Type) where
  | next (stream : StreamId)
  /-- Open a transport after the abort of a signal that opening it brings about. -/
  | opened (stream : StreamId) (playback : Playback)
  | asked (stream : StreamId)
  | cancel (stream : StreamId)
  | close (stream : StreamId)
  | release (stream : StreamId)
  /-- Answer, unless what was waited for failed. -/
  | afterwards (out : Outcome)
  /-- Answer; if the answer is no fault, what was waited for may still be one. -/
  | unwound (out : Outcome)
  | iterate (stream : StreamId) (consumer : Consumer)
  | consume (src : Source) (consumer : Consumer)
  | consumed (src : Source) (consumer : Consumer)
  | once (payload : Payload)
  | done
  | transcode (src : Source) (coder : Transcoder)
  | transcoded (src : Source) (coder : Transcoder)
  | track (src : Source)
  | delegate (src : Source) (tracked : Bool)
  | delegated (src : Source) (tracked : Bool)
  | serve (handler : Handler σ) (reqs : Source) (stream : Option StreamId)
  | served (handler : Handler σ) (stream : Option StreamId)
  | replied (method : Method)
  | perform (cast : Cast)
  | tell (cast : Cast)
  | part (cast : Cast) (src : Source)
  | parted (cast : Cast) (src : Source)
  | partLeft (cast : Cast)
  | respond (playback : PlaybackId)
  | responded (msg : String)
  | releasePlayback (playback : PlaybackId)

inductive Input where
  | value (datum : Datum)
  | fault (fault : Fault)
  | stop
deriving DecidableEq, Inhabited, Repr

def Input.ofOutcome : Outcome → Input
  | .ok datum => .value datum
  | .error cause => .fault cause

inductive Next (σ : Type) where
  | again (routine : Routine σ)
  | ask (src : Source) (resume : Routine σ)
  /-- Ask a source and wait for it, or until the call of a stream is aborted. -/
  | askUnlessAborted (src : Source) (stream : StreamId) (resume : Routine σ)
  | release (src : Source) (resume : Routine σ)
  | dismiss (src : Source) (resume : Routine σ)
  | call (task : Routine σ) (resume : Routine σ)
  | abort (signal : String) (resume : Routine σ)
  | wait (gate : String) (resume : Routine σ)
  | produce (payload : Payload) (resume : Routine σ)
  /-- Hand out a payload that another source has handed out just now. -/
  | passOn (payload : Payload) (resume : Routine σ)
  | finish (out : Outcome)

end FlatSchema.Rpc

import FlatSchema.Rpc.Machine.Advance

/-!
# Running the machine

One step takes the routine on top of the stack one move further, or, when none
can go on at once, gives the first in the queue its turn.  A machine is at rest
when neither is there: then only gates that are closed are being waited for.
-/

namespace FlatSchema.Rpc

namespace Run

variable {σ : Type}

def carryOut (owner : Owner) : Next σ → Run σ Unit
  | .again routine => push [⟨owner, routine, .value .void⟩]
  | .ask src resume => do
      let ans ← newFuture
      await ans (.resume owner resume)
      request src false ans
  | .askUnlessAborted src id resume => do
      let ans ← newFuture
      if (← get).streams[id]?.any fun call => call.state.aborted then
        enqueue (.resume owner resume) (.ok .void)
      else
        let pull ← newFuture
        await pull (.resume owner resume)
        updateCall id fun call => { call with pulls := call.pulls ++ [pull] }
        await ans (.settle pull id)
      request src false ans
  | .release src resume => do
      let ans ← newFuture
      await ans (.resume owner resume)
      request src true ans
  | .dismiss src resume => do
      push [⟨owner, resume, .value .void⟩]
      request src true (← newFuture)
  | .call task resume => do
      await (← startTask task) (.resume owner resume)
  | .abort name resume => abortSignal name [⟨owner, resume, .value .void⟩]
  | .wait name resume => do
      await (← gate name) (.resume owner resume)
  | .produce payload resume =>
    match owner with
    | .producer id => enqueue (.deliver id payload resume) (.ok .void)
    | .task ans => settle ans (.ok (.item payload))
  | .passOn payload resume =>
    match owner with
    | .producer id => deliver id payload resume
    | .task ans => settle ans (.ok (.item payload))
  | .finish out =>
    match owner with
    | .producer id => completeProducer id out
    | .task ans => settle ans out

def turn (waiter : Waiter σ) (out : Outcome) : Run σ Unit :=
  match waiter with
  | .resume owner routine => push [⟨owner, routine, Input.ofOutcome out⟩]
  | .settle ans id => do
      updateCall id fun call => { call with pulls := call.pulls.filter (· != ans) }
      settle ans out
  | .deliver id payload resume => deliver id payload resume
  | .stop id routine => push [⟨.producer id, routine, .stop⟩]
  | .drain id => completeProducer id (.ok .finished)

end Run

namespace Machine

variable {σ : Type}

/-- The next step: the running routine goes on, or a waiter gets its turn. -/
def step? [Behaviour σ] (m : Machine σ) : Option (Machine σ) :=
  match m.stack, m.queue with
  | ⟨owner, routine, input⟩ :: stack, _ =>
    let moved := (Run.advance routine input).run { m with stack }
    some ((Run.carryOut owner moved.1).run moved.2).2
  | [], (waiter, out) :: queue =>
    some ((Run.turn waiter out).run { m with queue }).2
  | [], [] => none

def settle [Behaviour σ] : Nat → Machine σ → Machine σ
  | 0, m => m
  | fuel + 1, m =>
    match m.step? with
    | some next => settle fuel next
    | none => m

end Machine

end FlatSchema.Rpc

import PatchLedger.Ledger

/-!
Handing patches over to the writer of a ledger. Any number of producers make
their calls, each producer one call after another. There is no room between them
and the writer: a call is handed over at the moment when the idle writer takes
it. Storing a patch is then over for its producer. A flush, which the writer
answers, is over when the producer receives the answer, and so is a stop, whose
answer is the end of the writer. A call that is made too late for that is refused.
Events name what happens next; a run is a list of events, and of a run one sees
the calls that are handed over, finished and refused, in their order, and what
becomes of the patches.
-/

namespace PatchLedger

inductive Request where
  | store (patch : Patch)
  | flush
  | stop

namespace Request

def patch? : Request → Option Patch
  | store patch => some patch
  | flush | stop => none

end Request

/-- Where a producer is in the call it makes: not taken yet, taken and not answered, or answered
and not over. -/
inductive Call where
  | offered (request : Request)
  | unanswered
  | answered

def Call.request? : Call → Option Request
  | offered request => some request
  | unanswered | answered => none

structure Producer where
  call : Option Call
  program : List Request

inductive Writer where
  | idle
  | holding (producer : Nat) (request : Request)
  | stopped

def Writer.inHand : Writer → Option (Nat × Request)
  | idle | stopped => none
  | holding i request => some (i, request)

structure Handoff where
  ledger : Ledger
  writer : Writer
  producers : List Producer

namespace Handoff

/-- A producer makes its next call; the idle writer takes one, and does what it has taken; a producer
receives the answer to its call, or is refused, as there is no writer to take it. -/
inductive Event where
  | issue (producer : Nat)
  | take (producer : Nat)
  | work
  | receive (producer : Nat)
  | refuse (producer : Nat)

def start (ledger : Ledger) (programs : List (List Request)) : Handoff where
  ledger := ledger
  writer := .idle
  producers := programs.map fun program => ⟨none, program⟩

def setCall (s : Handoff) (i : Nat) (call : Option Call) : Handoff :=
  { s with producers := s.producers.modify i fun producer => { producer with call } }

def awaited : Request → Option Call
  | .store _ => none
  | .flush | .stop => some .unanswered

def step? (s : Handoff) : Event → Option Handoff
  | .issue i =>
      match s.producers[i]? with
      | some ⟨none, request :: program⟩ =>
          some { s with producers := s.producers.set i ⟨some (.offered request), program⟩ }
      | _ => none
  | .take i =>
      match s.writer, s.producers[i]? with
      | .idle, some ⟨some (.offered request), _⟩ =>
          some { s.setCall i (awaited request) with writer := .holding i request }
      | _, _ => none
  | .work =>
      match s.writer with
      | .holding _ (.store patch) =>
          some { s with ledger := (s.ledger.submit patch).2, writer := .idle }
      | .holding i .flush => some { s.setCall i (some .answered) with writer := .idle }
      | .holding i .stop => some { s.setCall i (some .answered) with writer := .stopped }
      | _ => none
  | .receive i =>
      match s.producers[i]? with
      | some ⟨some .answered, _⟩ => some (s.setCall i none)
      | _ => none
  | .refuse i =>
      match s.writer, s.producers[i]? with
      | .stopped, some ⟨some (.offered _), _⟩ => some (s.setCall i none)
      | _, _ => none

def run? : Handoff → List Event → Option Handoff
  | s, [] => some s
  | s, event :: events => (s.step? event).bind fun next => next.run? events

def call? (s : Handoff) (i : Nat) : Option Call := s.producers[i]?.bind Producer.call

def offer? (s : Handoff) (i : Nat) : Option Request := (s.call? i).bind Call.request?

def handedBy (s : Handoff) : Event → Option (Nat × Request)
  | .take i => (s.offer? i).map fun request => (i, request)
  | .issue _ | .work | .receive _ | .refuse _ => none

def refusedBy (s : Handoff) : Event → Option (Nat × Request)
  | .refuse i => (s.offer? i).map fun request => (i, request)
  | .issue _ | .take _ | .work | .receive _ => none

def finishedBy (s : Handoff) : Event → Option (Nat × Request)
  | .work => s.writer.inHand
  | .issue _ | .take _ | .receive _ | .refuse _ => none

def outcomeBy (s : Handoff) (event : Event) : Option Outcome := do
  let call ← s.finishedBy event
  let patch ← call.2.patch?
  some (s.ledger.submit patch).1

section Seen

variable {α : Type} (seen : Handoff → Event → Option α)

/-- What is seen of the events of a run, one after another. -/
def trace : Handoff → List Event → List α
  | _, [] => []
  | s, event :: events =>
      match s.step? event with
      | some next => (seen s event).toList ++ next.trace events
      | none => []

end Seen

def handed (s : Handoff) (events : List Event) : List (Nat × Request) := s.trace handedBy events

def finished (s : Handoff) (events : List Event) : List (Nat × Request) := s.trace finishedBy events

def refused (s : Handoff) (events : List Event) : List (Nat × Request) := s.trace refusedBy events

def outcomes (s : Handoff) (events : List Event) : List Outcome := s.trace outcomeBy events

end Handoff

end PatchLedger

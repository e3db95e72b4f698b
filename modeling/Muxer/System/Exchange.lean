import Muxer.Proof.Relay
import Muxer.System.World

/-!
# Requests and responses, without buffers and sockets

What the muxer is for, seen from the messages alone: a request is read, taken, mapped and
forwarded; an answer to it is delivered by the mapping, and loaded for a client. `Exchange`
keeps the messages of a `World` in these stages, whichever queue, buffer or hand they are in, and
`ExchangeStep` moves them from stage to stage; the bytes on the wire are left out.
-/

namespace Muxer

/-- A request in the hands of the processing thread. -/
inductive Hand
  | empty
  | taken (r : InMessage ℕ)
  | mapped (r : InMessage ℕ) (decodedInPdu : InputType)

/-- The messages by stage, the mappings, the clients connected, and what has happened so far. -/
structure Exchange where
  requests : List Request
  inst : Socket → ℕ
  clients : List Socket
  waiting : List (InMessage ℕ)
  hand : Hand
  counter : UInt64
  table : List (Mapping ℕ)
  forwarded : List (OutMessage ℕ)
  answered : List ℕ
  answers : List (OutMessage ℕ)
  processed : List ℕ
  replies : List (InMessage ℕ)
  delivered : List Delivery

/-- The moves of an exchange. -/
inductive Event
  | stay
  | connect (s : Socket)
  | disconnect (s : Socket)
  | unmap (s : Socket)
  | read
  | take
  | map
  | forward
  | answer
  | deliver
  | load
  | free

inductive ExchangeStep : Exchange → Event → Exchange → Prop
  | stay (e) : ExchangeStep e .stay e
  | connect (e s) : s ∉ e.clients → ExchangeStep e (.connect s)
      { e with clients := e.clients ++ [s], inst := Function.update e.inst s (e.inst s + 1) }
  | disconnect (e s) : ExchangeStep e (.disconnect s) { e with clients := e.clients.filter (· != s) }
  | unmap (e s) : ExchangeStep e (.unmap s) { e with table := e.table.filter (·.socket != s) }
  | read (e s p) : s ∈ e.clients → ExchangeStep e .read
      { e with
        requests := e.requests ++ [⟨s, e.inst s, p⟩]
        waiting := e.waiting ++ [⟨s, p, e.requests.length⟩] }
  | take (e r rest) : e.hand = .empty → e.waiting = r :: rest → ExchangeStep e .take
      { e with waiting := rest, hand := .taken r }
  | map (e r q) : e.hand = .taken r → 0 < r.socket → decodeInPdu r.pdu = .ok (0, some q) →
      ExchangeStep e .map
        { e with
          counter := generateInvokeid e.counter
          table := e.table ++
            [⟨r.socket, q.invokeid.toUInt64, generateInvokeid e.counter, r.tag⟩]
          hand := .mapped r q }
  | forward (e r q p) : e.hand = .mapped r q →
      decodeInPdu p = .ok (0, some ⟨e.counter.toInt64, q.command⟩) → ExchangeStep e .forward
        { e with forwarded := e.forwarded ++ [⟨p, r.tag⟩], hand := .empty }
  | answer (e k f q p d) : e.forwarded[k]? = some f → decodeInPdu f.pdu = .ok (0, some q) →
      k ∉ e.answered → decodeOutPdu p = .ok (0, some d) → d.invokeid = q.invokeid →
      ExchangeStep e .answer
        { e with answered := e.answered ++ [k], answers := e.answers ++ [⟨p, f.tag⟩] }
  | deliver (e p rest d rs) : e.answers = p :: rest → decodeOutPdu p.pdu = .ok (0, some d) →
      d.Valid →
      List.Forall₂ (Replied d p.tag)
        (e.table.filter (·.invokeidGenerated == d.invokeid.toUInt64)) rs →
      ExchangeStep e .deliver
        { e with
          table := e.table.filter (·.invokeidGenerated != d.invokeid.toUInt64)
          answers := rest
          processed := e.processed ++ [p.tag]
          replies := e.replies ++ rs }
  | load (e q r q') : e.replies = q ++ r :: q' → ExchangeStep e .load
      { e with replies := q ++ q', delivered := e.delivered ++ [⟨r, e.inst r.socket⟩] }
  | free (e q r q') : e.replies = q ++ r :: q' → r.socket ∉ e.clients →
      ExchangeStep e .free { e with replies := q ++ q' }

/-! ## The exchange of a world -/

/-- The request in the hands of the processing thread. -/
def ProcessingPc.hand : ProcessingPc → Hand
  | .taken r => .taken r
  | .mapped r q => .mapped r q
  | _ => .empty

/-- The response in the hands of the processing thread. -/
def ProcessingPc.answer : ProcessingPc → List (OutMessage ℕ)
  | .response p => [p]
  | _ => []

/-- The messages of a world by stage. -/
def World.exchange (w : World) : Exchange where
  requests := w.requests
  inst := w.inst
  clients := w.mux.connections.map Connection.socket
  waiting := w.mux.rInMessages
  hand := w.processing.hand
  counter := w.mux.invokeidGenCounter
  table := w.mux.socketToRecvUnicastMsg
  forwarded := w.takenOut ++ w.mux.wOutMessages
  answered := w.answered
  answers := w.processing.answer ++ w.mux.rOutMessages ++ w.pending
  processed := w.processed
  replies := w.mux.wInMessages
  delivered := w.delivered

end Muxer

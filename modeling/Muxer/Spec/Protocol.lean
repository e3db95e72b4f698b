import Muxer.Spec.Messages
import Muxer.Spec.State

/-!
# Processing requests and responses (`protocol.c`)

`process_incoming_in_messages` and `process_incoming_out_messages` are made of the critical
sections they pass through, which are also the steps of the processing thread. A forwarded
request and its mapping bear the mark of the request, a response to a client that of the
response it was made from.
-/

namespace Muxer

variable {τ : Type}

/-- `MAX_INVOKEID`. -/
def maxInvokeid : UInt64 := 32767

/-- `generate_invokeid`: the next value of `invokeid_gen_counter`, which is also returned. -/
def generateInvokeid (invokeidGenCounter : UInt64) : UInt64 := invokeidGenCounter % maxInvokeid + 1

/-! ## Requests -/

/-- The message taken from `r_in_messages`, if there is one. -/
def takeRInMessage (m : Mux τ) : Option (InMessage τ × Mux τ) :=
  match m.rInMessages with
  | [] => none
  | r :: rest => some (r, { m with rInMessages := rest })

/-- `put_into_socket_to_recv_unicast_msg`. -/
def putIntoSocketToRecvUnicastMsg (socket : Socket) (invokeid : UInt64) (tag : τ) (m : Mux τ) :
    Except Fault (Mux τ) := do
  cAssert (0 < socket)
  let generated := generateInvokeid m.invokeidGenCounter
  .ok { m with
    invokeidGenCounter := generated
    socketToRecvUnicastMsg := m.socketToRecvUnicastMsg ++ [⟨socket, invokeid, generated, tag⟩] }

/-- `put_pdu_into_w_out_messages`. -/
def putPduIntoWOutMessages (pdu : Pdu) (tag : τ) (m : Mux τ) : Mux τ :=
  { m with wOutMessages := m.wOutMessages ++ [⟨pdu, tag⟩] }

/-- The mapping of a message taken: its request decoded, and the mapping created. -/
def mapRequest (r : InMessage τ) (m : Mux τ) : Except Fault (InputType × Mux τ) := do
  match ← decodeInPdu r.pdu with
  | (_, some decodedInPdu) =>
    let m ← putIntoSocketToRecvUnicastMsg r.socket decodedInPdu.invokeid.toUInt64 r.tag m
    .ok (decodedInPdu, m)
  | (_, none) => .error .uninit

/-- The forwarding of a mapped request: re-encoded under the id the counter holds now, which is
read without a lock, and put into `w_out_messages`. -/
def forwardRequest (decodedInPdu : InputType) (tag : τ) (m : Mux τ) : Except Fault (Mux τ) := do
  let (errRes, reencodedPdu) ←
    encodeInPdu { decodedInPdu with invokeid := m.invokeidGenCounter.toInt64 }
  if errRes ≠ 0 then .ok m else .ok (putPduIntoWOutMessages reencodedPdu tag m)

/-- `process_incoming_in_messages`. -/
def processIncomingInMessages (m : Mux τ) : Except Fault (Mux τ) :=
  match takeRInMessage m with
  | none => .ok m
  | some (r, m) => do
    let (decodedInPdu, m) ← mapRequest r m
    forwardRequest decodedInPdu r.tag m

/-! ## Responses -/

/-- The message taken from `r_out_messages`, if there is one. -/
def takeROutMessage (m : Mux τ) : Option (OutMessage τ × Mux τ) :=
  match m.rOutMessages with
  | [] => none
  | p :: rest => some (p, { m with rOutMessages := rest })

/-- `alloc_in_message` and `put_pdu_into_w_in_messages`: the entry that joins the queue. -/
def allocInMessage (socket : Socket) (pdu : Pdu) (tag : τ) : Except Fault (InMessage τ) := do
  cAssert (0 < socket)
  .ok ⟨socket, pdu, tag⟩

/-- The loop over the mappings: those kept, and the messages for the clients of the others. -/
def scanMappings (decodedOutPdu : OutputType) (invokeidGenerated : UInt64) (tag : τ) :
    List (Mapping τ) → Except Fault (List (Mapping τ) × List (InMessage τ))
  | [] => .ok ([], [])
  | s :: rest => do
    if s.invokeidGenerated = invokeidGenerated then
      let (_, reencodedPdu) ← encodeOutPdu { decodedOutPdu with invokeid := s.invokeidOriginal.toInt64 }
      let r ← allocInMessage s.socket reencodedPdu tag
      let (kept, rs) ← scanMappings decodedOutPdu invokeidGenerated tag rest
      .ok (kept, r :: rs)
    else
      let (kept, rs) ← scanMappings decodedOutPdu invokeidGenerated tag rest
      .ok (s :: kept, rs)

/-- The delivery of a message taken: its response decoded, and sent to the clients mapped. -/
def deliverResponse (p : OutMessage τ) (m : Mux τ) : Except Fault (Mux τ) := do
  match ← decodeOutPdu p.pdu with
  | (_, some decodedOutPdu) =>
    let (kept, rs) ← scanMappings decodedOutPdu decodedOutPdu.invokeid.toUInt64 p.tag
      m.socketToRecvUnicastMsg
    .ok { m with socketToRecvUnicastMsg := kept, wInMessages := m.wInMessages ++ rs }
  | (_, none) => .error .uninit

/-- `process_incoming_out_messages`. -/
def processIncomingOutMessages (m : Mux τ) : Except Fault (Mux τ) :=
  match takeROutMessage m with
  | none => .ok m
  | some (p, m) => deliverResponse p m

end Muxer

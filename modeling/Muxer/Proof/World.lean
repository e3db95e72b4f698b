import Muxer.Proof.Exchange
import Muxer.Proof.Session

/-!
# A world is an exchange

What the steps of a world do to its connections and to the byte streams to and from the server,
and so to its messages.

* `Clients.step`: clients have distinct sockets, and a socket inserted is a new one.
* `Streams.step`: the server receives the messages forwarded, and the muxer its answers.
* `Step.exchange`: **every step of a world is a move of its exchange**.
-/

namespace Muxer

open Lib

variable {w w' : World} {a : Action} {conn conn' : Connection} {m m' : Mux ℕ}

/-! ## Clients -/

/-- The sockets of the clients connected. -/
def World.sockets (w : World) : List Socket := w.mux.connections.map Connection.socket

def Clients (w : World) : Prop := ClientsOK w.sockets w.opened w.reader w.dropping

theorem sockets_set {i : ℕ} (hi : w.mux.connections[i]? = some conn)
    (hs : conn'.socket = conn.socket) :
    (w.mux.connections.set i conn').map Connection.socket = w.sockets :=
  map_socket_set conn' hi hs

theorem mem_sockets {i : ℕ} (hi : w.mux.connections[i]? = some conn) : conn.socket ∈ w.sockets :=
  List.mem_map_of_mem (List.mem_of_getElem? hi)

/-- **Every step keeps the sockets of clients distinct.** -/
theorem Clients.step (h : Clients w) (hs : Step w a w') : Clients w' := by
  have hsession : Session.Clients w.session := h
  change Session.Clients w'.session
  rcases hs.session with heq | ⟨b, hb, -⟩
  · rw [heq]
    exact hsession
  · exact hsession.step hb

/-- A handle on which a client is inserted is that of no other. -/
theorem Clients.fresh (hc : Clients w) {s : Socket} (hr : w.reader = .accepted s)
    (hd : w.dropping = none) : s ∉ w.sockets := by
  unfold Clients at hc
  rw [hr, hd] at hc
  exact ClientsOK.fresh hc

/-! ## The server -/

/-- The PDUs the reader has yet to put into `r_out_messages`. -/
def ReaderPc.pdusOut : ReaderPc → List Pdu
  | .puttingOut ps => ps
  | _ => []

/-- The payloads of frames. -/
def PayloadOK (p : Pdu) : Prop := 0 < p.length ∧ p.length ≤ bufferKsize - pduHeaderLength

theorem PayloadOK.frame_le {p : Pdu} (h : PayloadOK p) : p.frame.length ≤ bufferKsize := by
  obtain ⟨-, hmax⟩ := h
  rw [p.frame_length]
  simp only [pduHeaderLength, bufferKsize] at *
  omega

theorem payloadOK_of_sendable {p : Pdu} (h : p.Sendable) : PayloadOK p :=
  ⟨Nat.lt_of_lt_of_le (by decide) h.1, h.2⟩

/-- The byte streams to and from the server: the frames of the messages taken, in part sent and in
part in the buffer; and the frames of the answers that are not yet PDUs, in part received and
in part on the wire. -/
structure StreamsOut (takenOut pending : List (OutMessage ℕ)) (sentOut wire : Bytes)
    (reader : ReaderPc) (conn : Connection) : Prop where
  wPtr : conn.wBufferPtr ≤ bufferKsize
  rPtr : conn.rBufferPtr ≤ bufferKsize
  taken : ∀ p ∈ takenOut, p.pdu.Sendable
  sent : sentOut ++ conn.unsent = frames (takenOut.map (·.pdu))
  payloads : ∀ p ∈ pending, PayloadOK p.pdu
  received : ∃ ps, pending.map (·.pdu) = reader.pdusOut ++ ps ∧ conn.unread ++ wire = frames ps

def Streams (w : World) : Prop :=
  StreamsOut w.takenOut w.pending w.sentOut w.wire w.reader w.mux.outConnection

theorem frames_eq (ps : List Pdu) :
    frames ps = ((ps.map Pdu.buffer).map pduFraming.frame).flatten := by
  rw [frames, List.map_map]
  rfl

theorem payload_length {ps : List Pdu} (hps : ∀ p ∈ ps, PayloadOK p) :
    ∀ bs ∈ ps.map Pdu.buffer, 0 < bs.length ∧ bs.length ≤ pduFraming.max := by
  intro bs hbs
  obtain ⟨p, hp, rfl⟩ := List.mem_map.1 hbs
  exact hps p hp

/-- The whole frames of a first part of a stream are its first frames. -/
theorem cut_of_frames {ps : List Pdu} (hps : ∀ p ∈ ps, PayloadOK p) {xs ys : Bytes}
    (h : xs ++ ys = frames ps) :
    ∃ rest, ps.map Pdu.buffer = (pduFraming.cut xs).1 ++ rest := by
  have hcut := Framing.cut_payloads (payload_length hps)
  rw [← frames_eq, ← h, Framing.cut_append] at hcut
  exact ⟨_, (congrArg Prod.fst hcut).symm⟩

section

variable {takenOut pending : List (OutMessage ℕ)} {sentOut wire : Bytes} {reader : ReaderPc}
  {out : Connection}

theorem StreamsOut.leave (h : StreamsOut takenOut pending sentOut wire reader out) {pc : ReaderPc}
    (hpc : pc.pdusOut = reader.pdusOut) : StreamsOut takenOut pending sentOut wire pc out :=
  { h with received := by rw [hpc]; exact h.received }

/-- Receiving turns the first answers on the wire into PDUs. -/
theorem StreamsOut.recv (h : StreamsOut takenOut pending sentOut wire reader out)
    (hreader : reader.pdusOut = []) {k : ℕ} (h0 : 0 < k) (hwire : k ≤ wire.length)
    (hk : k ≤ bufferKsize - out.rBufferPtr) {pdus : List Pdu} {out' : Connection}
    (hrec : receive out (.bytes (wire.take k)) = .ok (true, pdus, out')) :
    StreamsOut takenOut pending sentOut (wire.drop k) (.puttingOut pdus) out' := by
  obtain ⟨hsock, hw, hwptr⟩ := receive_frame hrec
  have hlen : (wire.take k).length = k := by
    rw [List.length_take]
    omega
  have hgood : (RecvResult.bytes (wire.take k)).broken = false := by
    rw [RecvResult.broken, List.isEmpty_eq_false_iff]
    intro hnil
    rw [hnil, List.length_nil] at hlen
    omega
  obtain ⟨hok, herr⟩ := receive_good h.rPtr hgood (by rw [RecvResult.data, hlen]; exact hk)
  have hbounded : pduFraming.Bounded (out.unread ++ wire.take k) := by
    by_contra hnot
    rw [herr hnot] at hrec
    cases hrec
  obtain ⟨pdus₁, out₁, hrec₁, hde⟩ := hok hbounded
  rw [hrec] at hrec₁
  cases hrec₁
  have hptr := hde.ptr_le
  obtain ⟨hpdus, hunread, -⟩ := hde
  obtain ⟨ps, hps, hbytes⟩ := h.received
  rw [hreader, List.nil_append] at hps
  have hpay : ∀ p ∈ ps, PayloadOK p := by
    intro p hp
    rw [← hps] at hp
    obtain ⟨a, ha, rfl⟩ := List.mem_map.1 hp
    exact h.payloads a ha
  have hbytes' : (out.unread ++ wire.take k) ++ wire.drop k = frames ps := by
    rw [List.append_assoc, List.take_append_drop, hbytes]
  -- the PDUs extracted are the first ones pending
  obtain ⟨rest, hrest⟩ := cut_of_frames hpay hbytes'
  rw [RecvResult.data] at hpdus hunread
  rw [← hpdus] at hrest
  obtain ⟨ps₁, ps₂, rfl, hps₁, -⟩ := List.map_eq_append_iff.1 hrest
  have hps₁ := map_buffer_injective hps₁
  subst hps₁
  have hjoin := Framing.join_cut (F := pduFraming) (out.unread ++ wire.take k)
  rw [← hpdus, ← hunread, ← frames_eq] at hjoin
  refine { h with
    wPtr := by rw [hwptr]; exact h.wPtr
    rPtr := hptr
    sent := by rw [Connection.unsent, hw, hwptr]; exact h.sent
    received := ⟨ps₂, hps, ?_⟩ }
  rw [← hjoin, frames_append, List.append_assoc] at hbytes'
  exact List.append_cancel_left hbytes'

/-- The PDU put is the first one pending. -/
theorem StreamsOut.put {p : Pdu} {ps : List Pdu} {a : OutMessage ℕ} {as : List (OutMessage ℕ)}
    (h : StreamsOut takenOut (a :: as) sentOut wire (.puttingOut (p :: ps)) out) :
    a.pdu = p ∧ StreamsOut takenOut as sentOut wire (.puttingOut ps) out := by
  obtain ⟨ps', hps', hbytes⟩ := h.received
  obtain ⟨ha, has⟩ := List.cons.inj hps'
  exact ⟨ha, { h with
    payloads := fun p hp => h.payloads p (List.mem_cons_of_mem _ hp)
    received := ⟨ps', has, hbytes⟩ }⟩

theorem StreamsOut.answer (h : StreamsOut takenOut pending sentOut wire reader out) {p : Pdu}
    (hp : PayloadOK p) (tag : ℕ) :
    StreamsOut takenOut (pending ++ [⟨p, tag⟩]) sentOut (wire ++ p.frame) reader out := by
  obtain ⟨ps, hps, hbytes⟩ := h.received
  refine { h with
    payloads := ?_
    received := ⟨ps ++ [p], ?_, ?_⟩ }
  · intro a ha
    rcases List.mem_append.1 ha with ha | ha
    · exact h.payloads a ha
    · rw [List.mem_singleton.1 ha]
      exact hp
  · rw [List.map_append, hps, List.append_assoc]
    rfl
  · rw [← List.append_assoc, hbytes, frames_append, frames_singleton]

theorem StreamsOut.load (h : StreamsOut takenOut pending sentOut wire reader out) {p : OutMessage ℕ}
    {out' : Connection} (hp : p.pdu.Sendable) (hempty : out.unsent = [])
    (hload : out'.unsent = p.pdu.frame) (hptr : out'.wBufferPtr ≤ bufferKsize)
    (hr : out'.rBuffer = out.rBuffer) (hrptr : out'.rBufferPtr = out.rBufferPtr) :
    StreamsOut (takenOut ++ [p]) pending sentOut wire reader out' := by
  have hsent := h.sent
  rw [hempty, List.append_nil] at hsent
  refine { h with
    wPtr := hptr
    rPtr := by rw [hrptr]; exact h.rPtr
    taken := ?_
    sent := by rw [hload, hsent, List.map_append, frames_append]; simp
    received := by rw [Connection.unread, hr, hrptr]; exact h.received }
  intro a ha
  rcases List.mem_append.1 ha with ha | ha
  · exact h.taken a ha
  · rw [List.mem_singleton.1 ha]
    exact hp

theorem StreamsOut.send (h : StreamsOut takenOut pending sentOut wire reader out) {r : SendResult}
    (hr : 0 < out.wBufferPtr → r.Valid out.wBufferPtr) {bytes : Bytes} {out' : Connection}
    (hw : writeData out r = .ok (true, bytes, out')) :
    StreamsOut takenOut pending (sentOut ++ bytes) wire reader out' := by
  obtain ⟨conn₁, hw₁, hunsent, -, hptr⟩ := writeData_ok h.wPtr hr
  obtain ⟨-, hrb, hrptr⟩ := writeData_frame hw
  rw [hw] at hw₁
  cases hw₁
  exact { h with
    wPtr := hptr
    rPtr := by rw [hrptr]; exact h.rPtr
    sent := by rw [List.append_assoc, hunsent]; exact h.sent
    received := by rw [Connection.unread, hrb, hrptr]; exact h.received }

/-- The `k`-th frame the server received is the `k`-th message taken. -/
theorem StreamsOut.frame_received (h : StreamsOut takenOut pending sentOut wire reader out) {k : ℕ}
    {f : Pdu} (hf : (pduFraming.cut sentOut).1[k]? = some f.buffer) {a : OutMessage ℕ}
    (ha : takenOut[k]? = some a) : a.pdu = f := by
  have hpay : ∀ p ∈ takenOut.map (·.pdu), PayloadOK p := by
    intro p hp
    obtain ⟨a, ha, rfl⟩ := List.mem_map.1 hp
    exact payloadOK_of_sendable (h.taken a ha)
  obtain ⟨rest, hrest⟩ := cut_of_frames hpay h.sent
  have hk := congrArg (·[k]?) hrest
  simp only [List.getElem?_map, ha, Option.map_some] at hk
  obtain ⟨hlt, -⟩ := List.getElem?_eq_some_iff.1 hf
  rw [List.getElem?_append_left hlt, hf] at hk
  exact Pdu.ext (Option.some.inj hk)

end

/-- **Every step keeps the streams to and from the server.** -/
theorem Streams.step (h : Streams w) (hs : Step w a w') : Streams w' := by
  unfold Streams at *
  cases hs with
  | accept s hr hd hpos hs => exact h.leave (by rw [hr]; rfl)
  | insert s hr hd => exact h.leave (by rw [hr]; rfl)
  | recvIn i r conn pdus conn' hr hfree hi hfit hrec => exact h.leave (by rw [hr]; rfl)
  | putIn s p ps hr => exact h.leave (by rw [hr]; rfl)
  | readInDone s hr => exact h.leave (by rw [hr]; rfl)
  | recvOut k pdus conn' hr hd h0 hwire hk hrec =>
    exact h.recv (by rw [hr]; rfl) h0 hwire hk hrec
  | putOut p ps b bs hr hp =>
    rw [hr, hp] at h
    exact h.put.2
  | readOutDone hr => exact h.leave (by rw [hr]; rfl)
  | loadOut m hd hm =>
    rcases writeDataToOutBuffer_cases hm with ⟨rfl, hl⟩ |
      ⟨p, rest, conn', hl, -, hsend, rfl, hempty, hunsent, hle, hrb, hrptr⟩
    · rw [hl, List.append_nil]
      exact h
    · rw [hl]
      exact h.load hsend hempty hunsent hle hrb hrptr
  | sendOut r out conn' hd hr hw => exact h.send hr hw
  -- what concerns clients and mappings leaves the server alone
  | loadIn i conn conn' q hfree hi hl => exact h
  | sendIn i r conn out conn' hfree hi hr hw => exact h
  | sweep q r q' hfree hq hr => exact h
  | drop t i closed conn hr hfree hi => exact h
  | unmap t s hd => exact h
  | unlink t s hd => exact h
  | takeOut p m hp ht hm =>
    obtain ⟨rest, -, rfl⟩ := takeROutMessage_cases hm
    exact h
  | deliver p m hp hm =>
    obtain ⟨d, rs, -, -, -, rfl⟩ := deliverResponse_cases hm
    exact h
  | noneOut => exact h
  | takeIn r m hp ht hm =>
    obtain ⟨rest, -, rfl⟩ := takeRInMessage_cases hm
    exact h
  | mapRequest r q m hp hm =>
    obtain ⟨-, -, rfl⟩ := mapRequest_cases hm
    exact h
  | forward r q m hp hm =>
    rcases forwardRequest_cases hm with rfl | ⟨p, rfl⟩
    · exact h
    · exact h
  | noneIn => exact h
  | answer k p f q d b hf hq hk hka hpos hlen hp hid => exact h.answer ⟨hpos, hlen⟩ b.tag

/-! ## The messages -/

/-- The action behind a move of the exchange, where that matters. -/
def Event.Of (w : World) (a : Action) : Event → Prop
  | .connect s => a = .insert ∧ w.reader = .accepted s
  | .disconnect _ => a = .unlink
  | .unmap _ => a = .unmap
  | .map => a = .mapRequest
  | _ => True

/-- What the steps keep true of a world. -/
structure WorldInv (w : World) : Prop where
  clients : Clients w
  streams : Streams w
  numbered : Numbered w.exchange

/-- **Every step of a world is a move of its exchange.** -/
theorem Step.exchange (h : WorldInv w) (hs : Step w a w') :
    ∃ ev, ExchangeStep w.exchange ev w'.exchange ∧ ev.Of w a := by
  obtain ⟨hclients, hstreams, hnumbered⟩ := h
  cases hs with
  | accept s hr hd hpos hs => exact ⟨.stay, .stay _, trivial⟩
  | insert s hr hd =>
    refine ⟨.connect s, ?_, rfl, hr⟩
    -- a socket just accepted is not that of a connection
    have hstep := ExchangeStep.connect w.exchange s (hclients.fresh hr hd)
    simpa [World.exchange, allocConnection] using hstep
  | recvIn i r conn pdus conn' hr hfree hi hfit hrec =>
    refine ⟨.stay, ?_, trivial⟩
    unfold World.exchange
    simp only [sockets_set hi (receive_frame hrec).1]
    exact .stay _
  | putIn s p ps hr =>
    exact ⟨.read, .read w.exchange s p (hclients.puttingIn s _ hr).1, trivial⟩
  | readInDone s hr => exact ⟨.stay, .stay _, trivial⟩
  | recvOut k pdus conn' hr hd h0 hwire hk hrec => exact ⟨.stay, .stay _, trivial⟩
  | putOut p ps b bs hr hp =>
    refine ⟨.stay, ?_, trivial⟩
    -- the PDU read is that of the first answer pending
    have hpdu : b.pdu = p := by
      unfold Streams at hstreams
      rw [hr, hp] at hstreams
      exact hstreams.put.1
    unfold World.exchange
    simp only [hp, ← hpdu, List.append_assoc, List.singleton_append]
    exact .stay _
  | readOutDone hr => exact ⟨.stay, .stay _, trivial⟩
  | loadOut m hd hm =>
    refine ⟨.stay, ?_, trivial⟩
    rcases writeDataToOutBuffer_cases hm with ⟨rfl, hl⟩ | ⟨p, rest, conn', hl, hq, -, rfl, -⟩
    · rw [hl, List.append_nil]
      exact .stay _
    · unfold World.exchange
      simp only [hl, hq, List.append_assoc, List.singleton_append]
      exact .stay _
  | sendOut r out conn' hd hr hw => exact ⟨.stay, .stay _, trivial⟩
  | loadIn i conn conn' q hfree hi hl =>
    rcases loadConnection_cases hl with
      ⟨hconn, hq, hnone⟩ | ⟨r, q₁, q₂, hsome, hq, rfl, hrs, hsock, -⟩
    · refine ⟨.stay, ?_, trivial⟩
      unfold World.exchange
      simp only [sockets_set hi (congrArg Connection.socket hconn), hq, hnone, List.map_nil,
        List.append_nil]
      exact .stay _
    · refine ⟨.load, ?_, trivial⟩
      have hstep := ExchangeStep.load w.exchange q₁ r q₂ hq
      unfold World.exchange at hstep ⊢
      simp only [sockets_set hi hsock, hsome, List.map_singleton, ← hrs]
      exact hstep
  | sendIn i r conn out conn' hfree hi hr hw =>
    refine ⟨.stay, ?_, trivial⟩
    unfold World.exchange
    simp only [sockets_set hi (writeData_frame hw).1]
    exact .stay _
  | sweep q r q' hfree hq hr =>
    refine ⟨.free, .free w.exchange q r q' hq ?_, trivial⟩
    intro hmem
    obtain ⟨c, hc, hsock⟩ := List.mem_map.1 hmem
    exact hr c hc hsock
  | drop t i closed conn hr hfree hi => exact ⟨.stay, .stay _, trivial⟩
  | unmap t s hd => exact ⟨.unmap s, .unmap w.exchange s, rfl⟩
  | unlink t s hd =>
    refine ⟨.disconnect s, ?_, rfl⟩
    have hstep := ExchangeStep.disconnect w.exchange s
    simpa [World.exchange, unlinkConnection, List.filter_map, Function.comp_def] using hstep
  | takeOut p m hp ht hm =>
    obtain ⟨rest, hq, rfl⟩ := takeROutMessage_cases hm
    refine ⟨.stay, ?_, trivial⟩
    unfold World.exchange
    simp only [hp, hq, ProcessingPc.hand, ProcessingPc.answer, List.nil_append, List.cons_append]
    exact .stay _
  | deliver p m hp hm =>
    obtain ⟨d, rs, hd, hvalid, hrs, rfl⟩ := deliverResponse_cases hm
    refine ⟨.deliver, ?_, trivial⟩
    have hstep := ExchangeStep.deliver w.exchange p (w.mux.rOutMessages ++ w.pending) d rs
      (by simp [World.exchange, hp, ProcessingPc.answer]) hd hvalid hrs
    simpa [World.exchange, hp, ProcessingPc.hand, ProcessingPc.answer] using hstep
  | noneOut => exact ⟨.stay, .stay _, trivial⟩
  | takeIn r m hp ht hm =>
    obtain ⟨rest, hq, rfl⟩ := takeRInMessage_cases hm
    refine ⟨.take, ?_, trivial⟩
    have hhand : w.exchange.hand = .empty := by simp [World.exchange, hp, ProcessingPc.hand]
    have hstep := ExchangeStep.take w.exchange r rest hhand hq
    simpa [World.exchange, hp, ProcessingPc.hand, ProcessingPc.answer] using hstep
  | mapRequest r q m hp hm =>
    obtain ⟨hpos, hq, rfl⟩ := mapRequest_cases hm
    refine ⟨.map, ?_, rfl⟩
    have hhand : w.exchange.hand = .taken r := by simp [World.exchange, hp, ProcessingPc.hand]
    have hstep := ExchangeStep.map w.exchange r q hhand hpos hq
    simpa [World.exchange, hp, ProcessingPc.hand, ProcessingPc.answer] using hstep
  | forward r q m hp hm =>
    have hhand : w.exchange.hand = .mapped r q := by simp [World.exchange, hp, ProcessingPc.hand]
    -- the request in hand was decoded from a PDU, so it is valid
    have hvalid : q.Valid := by
      obtain ⟨-, -, hq⟩ := hnumbered.mapped hhand
      obtain ⟨q₀, hq₀, hvalid⟩ := decodeInPdu_total r.pdu
      rw [hq] at hq₀
      cases hq₀
      exact hvalid
    obtain ⟨p, hm₁, -, -, hdecode⟩ := forwardRequest_ok hvalid r.tag w.mux
    rw [hm] at hm₁
    cases hm₁
    refine ⟨.forward, ?_, trivial⟩
    have hstep := ExchangeStep.forward w.exchange r q p hhand hdecode
    simpa [World.exchange, hp, ProcessingPc.hand, ProcessingPc.answer] using hstep
  | noneIn => exact ⟨.stay, .stay _, trivial⟩
  | answer k p f q d b hf hq hk hka hpos hlen hp hid =>
    refine ⟨.answer, ?_, trivial⟩
    -- the frame answered is that of the message at this position
    have hb := hstreams.frame_received hf hk
    have hfwd : w.exchange.forwarded[k]? = some b := by
      obtain ⟨hlt, -⟩ := List.getElem?_eq_some_iff.1 hk
      unfold World.exchange
      rw [List.getElem?_append_left hlt, hk]
    have hstep := ExchangeStep.answer w.exchange k b q p d hfwd (by rw [hb]; exact hq) hka hp hid
    simpa [World.exchange, List.append_assoc] using hstep

theorem WorldInv.start : WorldInv World.start where
  clients :=
    { nodup := List.nodup_nil
      handles := fun s hs => absurd hs List.not_mem_nil
      accepted := fun s hs => by cases hs
      puttingIn := fun s ps hs => by cases hs }
  streams :=
    { wPtr := Nat.zero_le _
      rPtr := Nat.zero_le _
      taken := fun p hp => absurd hp List.not_mem_nil
      sent := rfl
      payloads := fun p hp => absurd hp List.not_mem_nil
      received := ⟨[], rfl, rfl⟩ }
  numbered := Numbered.start

theorem WorldInv.step (h : WorldInv w) (hs : Step w a w') : WorldInv w' := by
  obtain ⟨ev, hev, -⟩ := hs.exchange h
  exact ⟨h.clients.step hs, h.streams.step hs, h.numbered.step hev⟩

end Muxer

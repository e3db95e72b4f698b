import Muxer.Proof.World

/-!
# What the clients are sent

The bytes sent to a client, and those in its buffer, are the frames of the messages copied to its
connection, whatever was copied to others on its handle before it.

* `Step.clients_eq`: only five kinds of steps change the clients.
* `Served.step`: **every step keeps the streams to the clients**.
-/

namespace Muxer

open Lib

variable {w w' : World} {a : Action} {conn conn' : Connection}

/-- The messages copied to the connection with a socket. -/
def deliveredTo (s : Socket) (ds : List Delivery) : List Pdu :=
  (ds.filter (·.message.socket == s)).map (·.message.pdu)

/-- The bytes sent to each client and those in its buffer are the frames of the messages copied
to it. -/
structure StreamsIn (conns : List Connection) (sentIn : Socket → Bytes) (delivered : List Delivery) :
    Prop where
  wPtr : ∀ c ∈ conns, c.wBufferPtr ≤ bufferKsize
  sent : ∀ c ∈ conns, sentIn c.socket ++ c.unsent = frames (deliveredTo c.socket delivered)

section

variable {conns : List Connection} {sentIn : Socket → Bytes} {delivered : List Delivery}

theorem deliveredTo_snoc (s : Socket) (d : Delivery) :
    deliveredTo s (delivered ++ [d]) =
      deliveredTo s delivered ++ if d.message.socket = s then [d.message.pdu] else [] := by
  unfold deliveredTo
  rw [List.filter_append, List.map_append]
  by_cases h : d.message.socket = s
  · rw [List.filter_cons_of_pos (by simpa using h), if_pos h]
    rfl
  · rw [List.filter_cons_of_neg (by simpa using h), if_neg h]
    rfl

theorem StreamsIn.insert (h : StreamsIn conns sentIn delivered) {s : Socket}
    (hs : s ∉ conns.map Connection.socket) (hd : ∀ d ∈ delivered, d.message.socket ≠ s) :
    StreamsIn (conns ++ [allocConnection s]) (Function.update sentIn s []) delivered where
  wPtr c hc := by
    rcases List.mem_append.1 hc with hc | hc
    · exact h.wPtr c hc
    · rw [List.mem_singleton.1 hc]
      exact Nat.zero_le _
  sent c hc := by
    rcases List.mem_append.1 hc with hc | hc
    · have hne : c.socket ≠ s := fun heq => hs (heq ▸ List.mem_map_of_mem hc)
      rw [Function.update_of_ne hne]
      exact h.sent c hc
    · have hnone : deliveredTo s delivered = [] := by
        rw [deliveredTo, List.filter_eq_nil_iff.2 fun d hmem => by simpa using hd d hmem]
        rfl
      rw [List.mem_singleton.1 hc, allocConnection]
      simp only [Function.update_self, hnone]
      rfl

/-- A connection changes, with the bytes sent to it or the messages copied to it. -/
theorem StreamsIn.set (h : StreamsIn conns sentIn delivered)
    (hnodup : (conns.map Connection.socket).Nodup) {i : ℕ} (hi : conns[i]? = some conn)
    (hs : conn'.socket = conn.socket) (hptr : conn'.wBufferPtr ≤ bufferKsize)
    {sentIn' : Socket → Bytes} {delivered' : List Delivery}
    (hother : ∀ s, s ≠ conn.socket → sentIn' s = sentIn s ∧
      deliveredTo s delivered' = deliveredTo s delivered)
    (hsame : sentIn' conn.socket ++ conn'.unsent = frames (deliveredTo conn.socket delivered')) :
    StreamsIn (conns.set i conn') sentIn' delivered' where
  wPtr c hc := by
    rcases mem_set_cases hnodup hi hc with rfl | ⟨hc, -⟩
    · exact hptr
    · exact h.wPtr c hc
  sent c hc := by
    rcases mem_set_cases hnodup hi hc with rfl | ⟨hc, hne⟩
    · rw [hs]
      exact hsame
    · obtain ⟨hsent, hdel⟩ := hother c.socket hne
      rw [hsent, hdel]
      exact h.sent c hc

/-- Only what has been copied to the connections counts. -/
theorem StreamsIn.congr {delivered' : List Delivery} (h : StreamsIn conns sentIn delivered)
    (hsame : ∀ c ∈ conns, deliveredTo c.socket delivered' = deliveredTo c.socket delivered) :
    StreamsIn conns sentIn delivered' where
  wPtr := h.wPtr
  sent c hc := by
    rw [hsame c hc]
    exact h.sent c hc

end

/-! ## The steps that change the clients -/

def Action.OfClients : Action → Prop
  | .insert | .recvIn _ _ | .loadIn _ | .sendIn _ _ | .unlink => True
  | _ => False

/-- The other steps leave the connections as they are, with what was copied and sent to them. -/
theorem Step.clients_eq (hs : Step w a w') (ha : ¬a.OfClients) :
    w'.mux.connections = w.mux.connections ∧ w'.sentIn = w.sentIn ∧
      w'.delivered = w.delivered ∧ w'.inst = w.inst := by
  cases hs with
  | insert => exact absurd trivial ha
  | recvIn => exact absurd trivial ha
  | loadIn => exact absurd trivial ha
  | sendIn => exact absurd trivial ha
  | unlink => exact absurd trivial ha
  | loadOut m hd hm =>
    rcases writeDataToOutBuffer_cases hm with ⟨rfl, -⟩ | ⟨p, rest, conn', -, -, -, rfl, -⟩
    · exact ⟨rfl, rfl, rfl, rfl⟩
    · exact ⟨rfl, rfl, rfl, rfl⟩
  | takeOut p m hp ht hm =>
    obtain ⟨rest, -, rfl⟩ := takeROutMessage_cases hm
    exact ⟨rfl, rfl, rfl, rfl⟩
  | deliver p m hp hm =>
    obtain ⟨d, rs, -, -, -, rfl⟩ := deliverResponse_cases hm
    exact ⟨rfl, rfl, rfl, rfl⟩
  | takeIn r m hp ht hm =>
    obtain ⟨rest, -, rfl⟩ := takeRInMessage_cases hm
    exact ⟨rfl, rfl, rfl, rfl⟩
  | mapRequest r q m hp hm =>
    obtain ⟨-, -, rfl⟩ := mapRequest_cases hm
    exact ⟨rfl, rfl, rfl, rfl⟩
  | forward r q m hp hm =>
    rcases forwardRequest_cases hm with rfl | ⟨p, rfl⟩
    · exact ⟨rfl, rfl, rfl, rfl⟩
    · exact ⟨rfl, rfl, rfl, rfl⟩
  | _ => exact ⟨rfl, rfl, rfl, rfl⟩

/-! ## The streams -/

/-- The messages copied to the present connection on each handle. -/
def current (inst : Socket → ℕ) (ds : List Delivery) : List Delivery :=
  ds.filter fun d => d.inst == inst d.message.socket

/-- Nothing has been copied to a connection that is new, and the others have what they had. -/
theorem current_insert {inst : Socket → ℕ} {ds : List Delivery}
    (hle : ∀ d ∈ ds, d.inst ≤ inst d.message.socket) (s t : Socket) :
    deliveredTo t (current (Function.update inst s (inst s + 1)) ds) =
      if t = s then [] else deliveredTo t (current inst ds) := by
  unfold deliveredTo current
  rw [List.filter_filter, List.filter_filter]
  by_cases hts : t = s
  · rw [if_pos hts, List.filter_eq_nil_iff.2]
    · rfl
    intro d hd hmem
    simp only [Bool.and_eq_true, beq_iff_eq] at hmem
    obtain ⟨hsocket, hinst⟩ := hmem
    have hold := hle d hd
    rw [hsocket, hts, Function.update_self] at hinst
    rw [hsocket, hts] at hold
    omega
  · rw [if_neg hts]
    congr 1
    apply List.filter_congr
    intro d hd
    by_cases hsocket : d.message.socket = t
    · rw [hsocket, Function.update_of_ne hts]
    · rw [beq_false_of_ne hsocket, Bool.false_and, Bool.false_and]

/-- The streams to clients, and no message copied to a connection yet to come. -/
structure Served (w : World) : Prop where
  inst_le : ∀ d ∈ w.delivered, d.inst ≤ w.inst d.message.socket
  streams : StreamsIn w.mux.connections w.sentIn (current w.inst w.delivered)

theorem Served.start : Served World.start where
  inst_le _ hd := absurd hd List.not_mem_nil
  streams := ⟨fun _ hc => absurd hc List.not_mem_nil, fun _ hc => absurd hc List.not_mem_nil⟩

/-- **Every step keeps the streams to the clients.** -/
theorem Served.step (h : Served w) (hc : Clients w) (hs : Step w a w') : Served w' := by
  have hnodup : (w.mux.connections.map Connection.socket).Nodup := hc.nodup
  obtain ⟨hle, hstreams⟩ := h
  by_cases ha : a.OfClients
  · cases hs with
    | insert s hr hdrop =>
      have hfresh := hc.fresh hr hdrop
      -- what was delivered to earlier connections on the handle is not current any more
      have hnew := current_insert hle s
      refine ⟨?_, ?_⟩
      · intro d hd
        have hold := hle d hd
        change d.inst ≤ Function.update w.inst s (w.inst s + 1) d.message.socket
        by_cases hsame : d.message.socket = s
        · rw [hsame] at hold ⊢
          rw [Function.update_self]
          omega
        · rw [Function.update_of_ne hsame]
          exact hold
      · apply (hstreams.congr ?_).insert hfresh
        · have hnone := hnew s
          rw [if_pos rfl, deliveredTo, List.map_eq_nil_iff, List.filter_eq_nil_iff] at hnone
          intro d hd heq
          exact hnone d hd (beq_iff_eq.2 heq)
        · intro c hc
          have hne : c.socket ≠ s := fun heq => hfresh (heq ▸ List.mem_map_of_mem hc)
          rw [hnew c.socket, if_neg hne]
    | recvIn i r conn pdus conn' hr hfree hi hfit hrec =>
      obtain ⟨hsock, hw, hwptr⟩ := receive_frame hrec
      have hmem := List.mem_of_getElem? hi
      refine ⟨hle, hstreams.set hnodup hi hsock (by rw [hwptr]; exact hstreams.wPtr conn hmem)
        (fun s _ => ⟨rfl, rfl⟩) ?_⟩
      rw [Connection.unsent, hw, hwptr]
      exact hstreams.sent conn hmem
    | loadIn i conn conn' q hfree hi hl =>
      have hmem := List.mem_of_getElem? hi
      rcases loadConnection_cases hl with
        ⟨rfl, -, hnone⟩ | ⟨r, q₁, q₂, hsome, -, -, hrs, hsock, hempty, hunsent, hptr⟩
      · rw [hnone]
        simp only [List.map_nil, List.append_nil]
        exact ⟨hle, hstreams.set hnodup hi rfl (hstreams.wPtr _ hmem) (fun s _ => ⟨rfl, rfl⟩)
          (hstreams.sent _ hmem)⟩
      · rw [hsome]
        simp only [List.map_singleton]
        -- the message copied is one for the present connection
        have hcurrent : current w.inst (w.delivered ++ [⟨r, w.inst conn.socket⟩]) =
            current w.inst w.delivered ++ [⟨r, w.inst conn.socket⟩] := by
          unfold current
          rw [List.filter_append]
          simp [hrs]
        refine ⟨?_, ?_⟩
        · rw [List.forall_mem_append, List.forall_mem_singleton, hrs]
          exact ⟨hle, le_refl _⟩
        -- only the stream to this handle grows, by the frame now in the buffer
        · simp only [hcurrent]
          refine hstreams.set hnodup hi hsock hptr (fun s hne => ⟨rfl, ?_⟩) ?_
          · rw [deliveredTo_snoc, if_neg (by rw [hrs]; exact hne.symm), List.append_nil]
          · have hsent := hstreams.sent conn hmem
            rw [hempty, List.append_nil] at hsent
            rw [deliveredTo_snoc, if_pos hrs, frames_append, frames_singleton, hunsent, hsent]
    | sendIn i r conn out conn' hfree hi hr hw =>
      have hmem := List.mem_of_getElem? hi
      -- what `send` takes goes from the buffer to what has been sent
      obtain ⟨conn₁, hw₁, hunsent, hsock, hptr⟩ := writeData_ok (hstreams.wPtr conn hmem) hr
      rw [hw] at hw₁
      cases hw₁
      refine ⟨hle, hstreams.set hnodup hi hsock hptr
        (fun s hne => ⟨Function.update_of_ne hne _ _, rfl⟩) ?_⟩
      simp only [Function.update_self]
      rw [List.append_assoc, hunsent]
      exact hstreams.sent conn hmem
    | unlink t s hdrop =>
      exact ⟨hle, fun c hc => hstreams.wPtr c (List.mem_of_mem_filter hc),
        fun c hc => hstreams.sent c (List.mem_of_mem_filter hc)⟩
    | _ => exact False.elim ha
  · obtain ⟨hconns, hsent, hdelivered, hinst⟩ := hs.clients_eq ha
    refine ⟨?_, ?_⟩
    · rw [hdelivered, hinst]
      exact hle
    · rw [hconns, hsent, hdelivered, hinst]
      exact hstreams

/-! ## While no client follows another -/

/-- What was copied to a connection was copied to the present one on its handle. -/
def Latest (w : World) : Prop := ∀ d ∈ w.delivered, d.inst = w.inst d.message.socket

theorem Latest.current_eq (h : Latest w) : current w.inst w.delivered = w.delivered :=
  List.filter_eq_self.2 fun d hd => beq_iff_eq.2 (h d hd)

/-- It stays so as long as none of these connections is gone. -/
theorem Latest.step (h : Latest w) (hc : Clients w)
    (hd : ∀ d ∈ w.delivered, d.message.socket ∈ w.sockets) (hs : Step w a w') : Latest w' := by
  by_cases ha : a.OfClients
  · cases hs with
    | insert s hr hdrop =>
      have hfresh := hc.fresh hr hdrop
      intro d hmem
      have hne : d.message.socket ≠ s := fun heq => hfresh (heq ▸ hd d hmem)
      change d.inst = Function.update w.inst s (w.inst s + 1) d.message.socket
      rw [Function.update_of_ne hne]
      exact h d hmem
    | loadIn i conn conn' q hfree hi hl =>
      rcases loadConnection_cases hl with ⟨-, -, hnone⟩ | ⟨r, q₁, q₂, hsome, -, -, hrs, -⟩
      · rw [hnone]
        simpa [Latest] using h
      · rw [hsome]
        refine List.forall_mem_append.2 ⟨h, List.forall_mem_singleton.2 ?_⟩
        exact congrArg w.inst hrs.symm
    | recvIn => exact h
    | sendIn => exact h
    | unlink => exact h
    | _ => exact False.elim ha
  · obtain ⟨-, -, hdelivered, hinst⟩ := hs.clients_eq ha
    unfold Latest
    rw [hdelivered, hinst]
    exact h

end Muxer

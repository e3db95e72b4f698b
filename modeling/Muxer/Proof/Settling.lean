import Muxer.Proof.Reads
import Muxer.Proof.Wire
import Mathlib.Algebra.Order.BigOperators.Group.List

/-!
# What is queued gets through

Left alone, the threads take a bounded number of steps that change anything, in any order, and when
none is left to take, everything read has been relayed. The waits for events are left out: they are
those of `Muxer.System.Processing` and `Muxer.System.Writer`. So are passes of the processing thread
that begin with both its queues empty.

* `Step.own_cases`: each such step is paid for by the work there is (`World.work`).
* `exists_works`: while anything is left, some thread can go on.
* `relay_settles`: the bound, and what there is at the end.
-/

namespace Muxer

open Lib

variable {w w' : World} {a : Action} {conn conn' : Connection}

/-! ## The work there is -/

/-- The step of a thread on what there is already: nothing comes from a client or from the server, no
client comes or is dropped, and no pass of `process_data` begins with nothing to process. -/
def Action.Own (w : World) : Action → Prop
  | .accept _ | .recvIn _ _ | .recvOut _ | .drop _ _ _ | .answer _ _ => False
  | .noneOut => w.mux.rInMessages ≠ []
  | .noneIn => w.mux.rOutMessages ≠ []
  | _ => True

/-- Such a step, where it changes anything. -/
def Works (w : World) (a : Action) (w' : World) : Prop := Step w a w' ∧ a.Own w ∧ w' ≠ w

/-- What a message to be sent takes: to be loaded, and sent byte by byte. -/
def sendWork : ℕ := bufferKsize + 1

theorem sendWork_eq : sendWork = 1025 := rfl

/-- A request is mapped, which makes a reply possible, forwarded and sent. -/
def ProcessingPc.work : ProcessingPc → ℕ
  | .idle => 0
  | .taken _ => 2 * sendWork + 4
  | .mapped _ _ => sendWork + 2
  | .response _ => 2

def ReaderPc.work : ReaderPc → ℕ
  | .idle => 0
  | .accepted _ => 1
  | .puttingIn _ ps => (2 * sendWork + 8) * ps.length + 1
  | .puttingOut ps => 6 * ps.length + 1

/-- The processing thread looks into the one queue with all there is in the other. -/
def turnWork (turn : Turn) (ins outs : ℕ) : ℕ :=
  match turn with
  | .responses => if outs = 0 ∧ ins ≠ 0 then 1 else 0
  | .requests => if ins = 0 ∧ outs ≠ 0 then 1 else 0

theorem turnWork_le (turn : Turn) (ins outs : ℕ) : turnWork turn ins outs ≤ 1 := by
  unfold turnWork
  split
  · split <;> omega
  · split <;> omega

def dropWork : Option Drop → ℕ
  | none => 0
  | some d => if d.unmapped then 1 else 2

/-- The bytes in the buffers of clients. -/
def loadedBytes (conns : List Connection) : ℕ := (conns.map Connection.wBufferPtr).sum

/-- What there is to do. A mapping counts for the reply that it may get. -/
def World.load (w : World) : ℕ :=
  w.reader.work + dropWork w.dropping + w.processing.work +
    (2 * sendWork + 6) * w.mux.rInMessages.length + 4 * w.mux.rOutMessages.length +
    sendWork * (w.mux.socketToRecvUnicastMsg.length + w.mux.wOutMessages.length +
      w.mux.wInMessages.length) +
    w.mux.outConnection.wBufferPtr + loadedBytes w.mux.connections

/-- The work that is left. -/
def World.work (w : World) : ℕ :=
  w.load + turnWork w.turn w.mux.rInMessages.length w.mux.rOutMessages.length

/-- Whatever the turn is then. -/
theorem work_lt_of_load (h : w'.load + 1 < w.load) : w'.work < w.work := by
  have hturn := turnWork_le w'.turn w'.mux.rInMessages.length w'.mux.rOutMessages.length
  unfold World.work
  omega

/-- Nothing is queued, in hand or in a buffer to be sent. -/
structure World.Settled (w : World) : Prop where
  reader : w.reader = .idle
  dropping : w.dropping = none
  processing : w.processing = .idle
  rInMessages : w.mux.rInMessages = []
  rOutMessages : w.mux.rOutMessages = []
  wOutMessages : w.mux.wOutMessages = []
  wInMessages : w.mux.wInMessages = []
  outPtr : w.mux.outConnection.wBufferPtr = 0
  ptrs : ∀ c ∈ w.mux.connections, c.wBufferPtr = 0

/-! ## Each step is paid for -/

theorem loadedBytes_set (conn' : Connection) {conns : List Connection} {i : ℕ}
    (hi : conns[i]? = some conn) :
    loadedBytes (conns.set i conn') + conn.wBufferPtr =
      loadedBytes conns + conn'.wBufferPtr := by
  unfold loadedBytes
  induction conns generalizing i with
  | nil => cases hi
  | cons c conns ih =>
    cases i with
    | zero =>
      cases hi
      simp only [List.set_cons_zero, List.map_cons, List.sum_cons]
      omega
    | succ i =>
      have hrest := ih (i := i) hi
      simp only [List.set_cons_succ, List.map_cons, List.sum_cons]
      omega

theorem loadedBytes_filter (keep : Connection → Bool) (conns : List Connection) :
    loadedBytes (conns.filter keep) ≤ loadedBytes conns :=
  (List.filter_sublist.map Connection.wBufferPtr).sum_le_sum fun _ _ => Nat.zero_le _

theorem loadedBytes_append (conns conns' : List Connection) :
    loadedBytes (conns ++ conns') = loadedBytes conns + loadedBytes conns' := by
  simp [loadedBytes]

/-- **`write_data`** leaves the connection as it was, or sends some of its bytes. -/
theorem writeData_less {r : SendResult} {ok : Bool} {out : Bytes}
    (hr : 0 < conn.wBufferPtr → r.Valid conn.wBufferPtr)
    (h : writeData conn r = .ok (ok, out, conn')) :
    (conn' = conn ∧ out = []) ∨ conn'.wBufferPtr < conn.wBufferPtr := by
  unfold writeData at h
  obtain ⟨-, -, h⟩ := bind_eq_ok.1 h
  split at h
  · next h0 =>
    match r, hr h0 with
    | .socketError err, _ =>
      cases h
      exact .inl ⟨rfl, rfl⟩
    | .sent bytes, ⟨hpos, hle⟩ =>
      obtain ⟨o, -, h⟩ := bind_eq_ok.1 h
      split at h
      · cases h
        exact .inr h0
      · obtain ⟨-, -, h⟩ := bind_eq_ok.1 h
        obtain ⟨rest, -, h⟩ := bind_eq_ok.1 h
        obtain ⟨b, -, h⟩ := bind_eq_ok.1 h
        cases h
        exact .inr (by simp only; omega)
  · cases h
    exact .inl ⟨rfl, rfl⟩

/-- A step that is not there when all is settled, and leaves less work. -/
def Pays (w w' : World) : Prop := w'.work < w.work ∧ ¬w.Settled

/-- **Each step of the threads changes nothing, or pays for itself.** -/
theorem Step.own_cases (hs : Step w a w') (ha : a.Own w) : w' = w ∨ Pays w w' := by
  cases hs with
  | accept s hr hd hpos hs => cases ha
  | recvIn i r conn pdus conn' hr hfree hi hfit hrec => cases ha
  | recvOut k pdus conn' hr hd hk hwire hfit hrec => cases ha
  | drop t i closed conn hr hfree hi => cases ha
  | answer k p f q d b hf hq hk hka hpos hlen hp hid => cases ha
  | insert s hr hd =>
    refine .inr ⟨?_, fun h => ?_⟩
    · simp only [World.work, World.load, hr, ReaderPc.work, loadedBytes_append]
      simp only [loadedBytes, allocConnection, List.map_cons, List.map_nil, List.sum_cons,
        List.sum_nil]
      omega
    · rw [h.reader] at hr
      cases hr
  | putIn s p ps hr =>
    refine .inr ⟨?_, fun h => ?_⟩
    · refine work_lt_of_load ?_
      simp only [World.load, hr, ReaderPc.work, List.length_append, List.length_cons,
        List.length_nil, sendWork_eq]
      omega
    · rw [h.reader] at hr
      cases hr
  | readInDone s hr =>
    refine .inr ⟨?_, fun h => ?_⟩
    · simp only [World.work, World.load, hr, ReaderPc.work, List.length_nil]
      omega
    · rw [h.reader] at hr
      cases hr
  | putOut p ps b bs hr hp =>
    refine .inr ⟨?_, fun h => ?_⟩
    · refine work_lt_of_load ?_
      simp only [World.load, hr, ReaderPc.work, List.length_append, List.length_cons,
        List.length_nil]
      omega
    · rw [h.reader] at hr
      cases hr
  | readOutDone hr =>
    refine .inr ⟨?_, fun h => ?_⟩
    · simp only [World.work, World.load, hr, ReaderPc.work, List.length_nil]
      omega
    · rw [h.reader] at hr
      cases hr
  | loadOut m hd hm =>
    rcases writeDataToOutBuffer_cases hm with ⟨rfl, hl⟩ | ⟨p, rest, conn', -, hq, -, rfl, -, -, hle, -⟩
    · exact .inl (by rw [hl, List.append_nil])
    · refine .inr ⟨?_, fun h => ?_⟩
      · simp only [World.work, World.load, hq, List.length_cons, sendWork_eq, bufferKsize] at *
        omega
      · rw [h.wOutMessages] at hq
        cases hq
  | sendOut r out conn' hd hr hw =>
    rcases writeData_less hr hw with ⟨rfl, rfl⟩ | hlt
    · exact .inl (by rw [List.append_nil])
    · refine .inr ⟨?_, fun h => ?_⟩
      · simp only [World.work, World.load]
        omega
      · rw [h.outPtr] at hlt
        exact absurd hlt (Nat.not_lt_zero _)
  | loadIn i conn conn' q hfree hi hl =>
    rcases loadConnection_cases hl with ⟨rfl, rfl, hnone⟩ | ⟨r, q₁, q₂, -, hq, rfl, -, -, -, -, hle⟩
    · refine .inl ?_
      rw [hnone, set_getElem?_self hi]
      simp
    · have hset := loadedBytes_set conn' hi
      refine .inr ⟨?_, fun h => ?_⟩
      · simp only [World.work, World.load, hq, List.length_append, List.length_cons, sendWork_eq,
          bufferKsize] at *
        omega
      · rw [h.wInMessages] at hq
        simp at hq
  | sendIn i r conn out conn' hfree hi hr hw =>
    rcases writeData_less hr hw with ⟨rfl, rfl⟩ | hlt
    · refine .inl ?_
      rw [List.append_nil, Function.update_eq_self, set_getElem?_self hi]
    · have hset := loadedBytes_set conn' hi
      refine .inr ⟨?_, fun h => ?_⟩
      · simp only [World.work, World.load]
        omega
      · rw [h.ptrs conn (List.mem_of_getElem? hi)] at hlt
        exact absurd hlt (Nat.not_lt_zero _)
  | sweep q r q' hfree hq hr =>
    refine .inr ⟨?_, fun h => ?_⟩
    · simp only [World.work, World.load, hq, List.length_append, List.length_cons, sendWork_eq]
      omega
    · rw [h.wInMessages] at hq
      simp at hq
  | unmap t s hd =>
    refine .inr ⟨?_, fun h => ?_⟩
    · have hle := List.length_filter_le (fun e : Mapping ℕ => e.socket != s)
        w.mux.socketToRecvUnicastMsg
      simp only [World.work, World.load, removeAllMappingsFor, hd, dropWork, sendWork_eq, if_true,
        Bool.false_eq_true, if_false]
      omega
    · rw [h.dropping] at hd
      cases hd
  | unlink t s hd =>
    refine .inr ⟨?_, fun h => ?_⟩
    · have hle := loadedBytes_filter (·.socket != s) w.mux.connections
      simp only [World.work, World.load, unlinkConnection, hd, dropWork, if_true]
      omega
    · rw [h.dropping] at hd
      cases hd
  | takeOut p m hp ht hm =>
    obtain ⟨rest, hq, rfl⟩ := takeROutMessage_cases hm
    refine .inr ⟨work_lt_of_load ?_, fun h => ?_⟩
    · simp only [World.load, hp, hq, ProcessingPc.work, List.length_cons]
      omega
    · rw [h.rOutMessages] at hq
      cases hq
  | deliver p m hp hm =>
    obtain ⟨d, rs, -, -, hrs, rfl⟩ := deliverResponse_cases hm
    -- each reply takes the place of a mapping
    have hlen := hrs.length_eq
    have hsplit := List.length_eq_length_filter_add (l := w.mux.socketToRecvUnicastMsg)
      fun e => e.invokeidGenerated == d.invokeid.toUInt64
    refine .inr ⟨work_lt_of_load ?_, fun h => ?_⟩
    · simp only [World.load, hp, ProcessingPc.work, List.length_append, ← hlen, sendWork_eq]
      simp only [bne] at *
      omega
    · rw [h.processing] at hp
      cases hp
  | noneOut hp ht hq =>
    refine .inr ⟨?_, fun h => ha h.rInMessages⟩
    have hpos := List.length_pos_iff.2 ha
    simp only [World.work, World.load, turnWork, ht, hq, List.length_nil]
    rw [if_neg (fun h => h.2 rfl), if_pos ⟨trivial, by omega⟩]
    omega
  | takeIn r m hp ht hm =>
    obtain ⟨rest, hq, rfl⟩ := takeRInMessage_cases hm
    refine .inr ⟨work_lt_of_load ?_, fun h => ?_⟩
    · simp only [World.load, hp, hq, ProcessingPc.work, List.length_cons, sendWork_eq]
      omega
    · rw [h.rInMessages] at hq
      cases hq
  | mapRequest r q m hp hm =>
    obtain ⟨-, -, rfl⟩ := mapRequest_cases hm
    refine .inr ⟨work_lt_of_load ?_, fun h => ?_⟩
    · simp only [World.load, hp, ProcessingPc.work, List.length_append, List.length_cons,
        List.length_nil, sendWork_eq]
      omega
    · rw [h.processing] at hp
      cases hp
  | forward r q m hp hm =>
    refine .inr ⟨work_lt_of_load ?_, fun h => ?_⟩
    · rcases forwardRequest_cases hm with rfl | ⟨p, rfl⟩
      · simp only [World.load, hp, ProcessingPc.work]
        omega
      · simp only [World.load, hp, ProcessingPc.work, putPduIntoWOutMessages, List.length_append,
          List.length_cons, List.length_nil, sendWork_eq]
        omega
    · rw [h.processing] at hp
      cases hp
  | noneIn hp ht hq =>
    refine .inr ⟨?_, fun h => ha h.rOutMessages⟩
    have hpos := List.length_pos_iff.2 ha
    simp only [World.work, World.load, turnWork, ht, hq, List.length_nil]
    rw [if_neg (fun h => h.2 rfl), if_pos ⟨trivial, by omega⟩]
    omega

/-! ## While anything is left, some thread can go on -/

/-- What worlds are known to keep. -/
structure Reached (w : World) : Prop where
  world : WorldInv w
  bytes : RequestBytes w
  served : Served w
  sound : Session.Sound w.session

theorem Reached.start : Reached World.start :=
  ⟨WorldInv.start, RequestBytes.start, Served.start, Session.sound_start⟩

theorem Reached.step (h : Reached w) (hs : Step w a w') : Reached w' := by
  refine ⟨h.world.step hs, h.bytes.step h.world hs, h.served.step h.world.clients hs, ?_⟩
  rcases hs.session with heq | ⟨b, hb, -⟩
  · rw [heq]
    exact h.sound
  · exact h.sound.step hb

/-- Something is seen to change. -/
theorem Step.works {β : Type} (hs : Step w a w') (ha : a.Own w) (f : World → β) (hne : f w' ≠ f w) :
    Works w a w' :=
  ⟨hs, ha, fun heq => hne (congrArg f heq)⟩

theorem works_of_dropping (hd : w.dropping ≠ none) : ∃ a w', Works w a w' := by
  obtain ⟨⟨t, s, unmapped⟩, hd⟩ := Option.ne_none_iff_exists'.1 hd
  cases unmapped with
  | false => exact ⟨_, _, (Step.unmap w t s hd).works trivial World.dropping (by simp [hd])⟩
  | true => exact ⟨_, _, (Step.unlink w t s hd).works trivial World.dropping (by simp [hd])⟩

theorem Reached.works_of_reader (h : Reached w) (hd : w.dropping = none) (hr : w.reader ≠ .idle) :
    ∃ a w', Works w a w' := by
  cases hpc : w.reader with
  | idle => exact absurd hpc hr
  | accepted s => exact ⟨_, _, (Step.insert w s hpc hd).works trivial World.reader (by simp [hpc])⟩
  | puttingIn s ps =>
    cases ps with
    | nil => exact ⟨_, _, (Step.readInDone w s hpc).works trivial World.reader (by simp [hpc])⟩
    | cons p ps => exact ⟨_, _, (Step.putIn w s p ps hpc).works trivial World.reader (by simp [hpc])⟩
  | puttingOut ps =>
    cases ps with
    | nil => exact ⟨_, _, (Step.readOutDone w hpc).works trivial World.reader (by simp [hpc])⟩
    | cons p ps =>
      -- the PDU is that of the first answer pending
      obtain ⟨rest, hpending, -⟩ := h.world.streams.received
      rw [hpc] at hpending
      obtain ⟨b, bs, hb, -, -⟩ := List.map_eq_cons_iff.1 hpending
      exact ⟨_, _, (Step.putOut w p ps b bs hpc hb).works trivial World.reader (by simp [hpc])⟩

theorem Reached.works_of_processing (h : Reached w)
    (hne : w.processing ≠ .idle ∨ w.mux.rInMessages ≠ [] ∨ w.mux.rOutMessages ≠ []) :
    ∃ a w', Works w a w' := by
  have hsends := Session.sends h.sound.clients h.sound.positive h.sound.framed
  cases hpc : w.processing with
  | taken r =>
    obtain ⟨q, m, hm⟩ := hsends.maps r hpc
    exact ⟨_, _, (Step.mapRequest w r q m hpc hm).works trivial World.processing (by simp [hpc])⟩
  | mapped r q =>
    obtain ⟨p, hm⟩ := hsends.forwards r q hpc
    exact ⟨_, _, (Step.forward w r q _ hpc hm).works trivial World.processing (by simp [hpc])⟩
  | response p =>
    obtain ⟨m, hm⟩ := hsends.delivers p hpc
    exact ⟨_, _, (Step.deliver w p m hpc hm).works trivial World.processing (by simp [hpc])⟩
  | idle =>
    have hqueued := hne.resolve_left fun hne => hne hpc
    cases ht : w.turn with
    | responses =>
      cases hq : w.mux.rOutMessages with
      | nil =>
        have hins := hqueued.resolve_right fun hne => hne hq
        exact ⟨_, _, (Step.noneOut w hpc ht hq).works hins World.turn (by simp [ht])⟩
      | cons p rest =>
        have htake : takeROutMessage w.mux = some (p, { w.mux with rOutMessages := rest }) := by
          rw [takeROutMessage, hq]
        exact ⟨_, _, (Step.takeOut w p _ hpc ht htake).works trivial World.processing (by simp [hpc])⟩
    | requests =>
      cases hq : w.mux.rInMessages with
      | nil =>
        have houts := hqueued.resolve_left fun hne => hne hq
        exact ⟨_, _, (Step.noneIn w hpc ht hq).works houts World.turn (by simp [ht])⟩
      | cons r rest =>
        have htake : takeRInMessage w.mux = some (r, { w.mux with rInMessages := rest }) := by
          rw [takeRInMessage, hq]
        exact ⟨_, _, (Step.takeIn w r _ hpc ht htake).works trivial World.processing (by simp [hpc])⟩

theorem Reached.works_of_out (h : Reached w) (hd : w.dropping = none)
    (hne : w.mux.wOutMessages ≠ [] ∨ w.mux.outConnection.wBufferPtr ≠ 0) :
    ∃ a w', Works w a w' := by
  by_cases h0 : w.mux.outConnection.wBufferPtr = 0
  · obtain ⟨p, rest, hq⟩ := List.exists_cons_of_ne_nil (hne.resolve_right fun hne => hne h0)
    have hlen := h.sound.framed.requests p (show p ∈ w.mux.wOutMessages by simp [hq])
    obtain ⟨b, -, hload⟩ := writeDataToOutBuffer_first h0 hq (Session.sendable_of_length hlen.1 (by omega))
    exact ⟨_, _, (Step.loadOut w _ (not_drops hd) hload).works trivial
      (fun w => w.mux.wOutMessages.length) (by simp [hq])⟩
  · have hpos := Nat.pos_of_ne_zero h0
    -- `send` may take it all
    have hall := writeData_all h.sound.framed.outPtr hpos
    exact ⟨_, _, (Step.sendOut w (.sent _) _ _ (not_drops hd) (fun _ => ⟨hpos, le_refl _⟩) hall).works
      trivial (fun w => w.mux.outConnection.wBufferPtr) (Ne.symm h0)⟩

theorem Reached.works_of_in (h : Reached w) (hr : w.reader = .idle) (hd : w.dropping = none)
    (hne : w.mux.wInMessages ≠ [] ∨ ∃ c ∈ w.mux.connections, c.wBufferPtr ≠ 0) :
    ∃ a w', Works w a w' := by
  have hfree := connectionsFree hr hd
  by_cases hloaded : ∃ c ∈ w.mux.connections, c.wBufferPtr ≠ 0
  -- a buffer that is loaded is sent
  · obtain ⟨c, hc, h0⟩ := hloaded
    obtain ⟨i, hi⟩ := List.mem_iff_getElem?.1 hc
    obtain ⟨hlt, -⟩ := List.getElem?_eq_some_iff.1 hi
    have hpos := Nat.pos_of_ne_zero h0
    have hall := writeData_all (h.sound.framed.ptrs c hc) hpos
    refine ⟨_, _, (Step.sendIn w i (.sent _) c _ _ hfree hi (fun _ => ⟨hpos, le_refl _⟩) hall).works trivial
      (fun w => (w.mux.connections[i]?).map Connection.wBufferPtr) ?_⟩
    simp only [List.getElem?_set_self hlt, hi, Option.map_some, ne_eq, Option.some.injEq]
    exact fun heq => h0 heq.symm
  -- else the first message is loaded, or freed when its client is gone
  · obtain ⟨r, rest, hq⟩ := List.exists_cons_of_ne_nil (hne.resolve_right hloaded)
    by_cases hclient : ∃ c ∈ w.mux.connections, c.socket = r.socket
    · obtain ⟨c, hc, hs⟩ := hclient
      obtain ⟨i, hi⟩ := List.mem_iff_getElem?.1 hc
      have h0 : c.wBufferPtr = 0 := by
        by_contra h0
        exact hloaded ⟨c, hc, h0⟩
      have hlen := h.sound.framed.responses r (show r ∈ w.mux.wInMessages by simp [hq])
      have htake : takeFirst c.socket w.mux.wInMessages = some (r, rest) := by
        rw [hq, takeFirst, if_pos hs.symm]
      obtain ⟨b, -, hload⟩ := loadConnection_first h0 htake (Session.sendable_of_length (by omega) hlen.2)
      exact ⟨_, _, (Step.loadIn w i c _ rest hfree hi hload).works trivial
        (fun w => w.mux.wInMessages.length) (by simp [hq])⟩
    · have hnone : ∀ c ∈ w.mux.connections, c.socket ≠ r.socket :=
        fun c hc heq => hclient ⟨c, hc, heq⟩
      exact ⟨_, _, (Step.sweep w [] r rest hfree hq hnone).works trivial
        (fun w => w.mux.wInMessages.length) (by simp [hq])⟩

/-- **While anything is left, some thread can go on.** -/
theorem exists_works (h : Reached w) (hnot : ¬w.Settled) : ∃ a w', Works w a w' := by
  -- the thread that goes on: whoever drops a client, the reader, the processing thread, the writer
  by_cases hd : w.dropping = none
  swap
  · exact works_of_dropping hd
  by_cases hr : w.reader = .idle
  swap
  · exact h.works_of_reader hd hr
  by_cases hp : w.processing = .idle ∧ w.mux.rInMessages = [] ∧ w.mux.rOutMessages = []
  swap
  · exact h.works_of_processing (by simpa only [not_and_or] using hp)
  by_cases hout : w.mux.wOutMessages = [] ∧ w.mux.outConnection.wBufferPtr = 0
  swap
  · exact h.works_of_out hd (by simpa only [not_and_or] using hout)
  by_cases hin : w.mux.wInMessages = [] ∧ ∀ c ∈ w.mux.connections, c.wBufferPtr = 0
  swap
  · refine h.works_of_in hr hd ?_
    rcases not_and_or.1 hin with hin | hin
    · exact .inl hin
    · simp only [not_forall] at hin
      obtain ⟨c, hc, h0⟩ := hin
      exact .inr ⟨c, hc, h0⟩
  exact absurd ⟨hr, hd, hp.1, hp.2.1, hp.2.2, hout.1, hin.1, hout.2, hin.2⟩ hnot

/-! ## At the end -/

/-- No thread can go on exactly when all is settled. -/
theorem Reached.settled_iff (h : Reached w) : (∀ a w', ¬Works w a w') ↔ w.Settled := by
  constructor
  · intro hstuck
    by_contra hnot
    obtain ⟨a, w', hw⟩ := exists_works h hnot
    exact hstuck a w' hw
  · rintro hsettled a w' ⟨hs, ha, hne⟩
    rcases hs.own_cases ha with heq | hpays
    · exact hne heq
    · exact hpays.2 hsettled

/-- Everything read has been relayed. -/
structure World.Relayed (w : World) : Prop where
  sentOut : w.sentOut = serverStream w.requests
  sentIn : ∀ c ∈ w.mux.connections,
    w.sentIn c.socket = frames (deliveredTo c.socket (current w.inst w.delivered))

theorem Reached.relayed (h : Reached w) (hs : w.Settled) : w.Relayed where
  sentOut := by
    have hstream := h.bytes.stream h.world
    rw [unsent_empty hs.outPtr, hs.wOutMessages, hs.rInMessages, hs.processing] at hstream
    simpa [ProcessingPc.hand, Hand.unforwarded] using hstream
  sentIn c hc := by
    have hsent := h.served.streams.sent c hc
    rwa [unsent_empty (hs.ptrs c hc), List.append_nil] at hsent

theorem Works.work_lt (h : Works w a w') : w'.work < w.work := by
  obtain ⟨hs, ha, hne⟩ := h
  exact ((hs.own_cases ha).resolve_left hne).1

/-- **What is queued gets through.** From any state of a run, the threads take at most so many steps
that change anything, in whatever order; they cannot go on exactly when all is settled, and then
everything read has been relayed. -/
theorem relay_settles {tr : List (Action × World)} (h : Exec Step World.start tr)
    {tr' : List (Action × World)} (h' : Exec Works (final World.start tr) tr') :
    tr'.length ≤ (final World.start tr).work ∧
      ((∀ a v, ¬Works (final (final World.start tr) tr') a v) ↔
        (final (final World.start tr) tr').Settled) ∧
      ((final (final World.start tr) tr').Settled →
        (final (final World.start tr) tr').Relayed) := by
  have hreached := h.inv (I := Reached) (fun _ _ _ hI hs => hI.step hs) Reached.start _
    (final_mem_states _ _)
  have hend := h'.inv (I := Reached) (fun _ _ _ hI hs => hI.step hs.1) hreached _
    (final_mem_states _ _)
  exact ⟨h'.length_le (I := Reached) (fun _ _ _ hI hs => hI.step hs.1)
    (fun _ _ _ _ hs => hs.work_lt) hreached, hend.settled_iff, hend.relayed⟩

/-- The request of a client goes all the way to the server, in whatever order the threads work. -/
theorem relay_settles_first : ∃ tr tr', Exec Step World.start tr ∧
    Exec Works (final World.start tr) tr' ∧ (final World.start tr).mux.rInMessages.length = 1 ∧
    (final (final World.start tr) tr').Settled ∧ (final (final World.start tr) tr').Relayed := by
  obtain ⟨as, w, c, -, ⟨tr, hex, -, rfl⟩, honly, -⟩ := leads_only payloadOK_zeros
  have hreached := hex.inv (I := Reached) (fun _ _ _ hI hs => hI.step hs) Reached.start _
    (final_mem_states _ _)
  obtain ⟨tr', hex', hstuck⟩ := Exec.exists_stuck (I := Reached)
    (fun _ _ _ hI (hs : Works _ _ _) => hI.step hs.1) (fun _ _ _ _ hs => hs.work_lt) hreached
  obtain ⟨-, hiff, hrelayed⟩ := relay_settles hex hex'
  have hsettled := hiff.1 hstuck
  exact ⟨tr, tr', hex, hex', by rw [honly.rInMessages]; rfl, hsettled, hrelayed hsettled⟩

end Muxer

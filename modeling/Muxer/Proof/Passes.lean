import Muxer.Proof.FdSet
import Muxer.Proof.Writer

/-!
# Passes that send everything

`notStuck_iff` leaves open when a pass of the writer empties the write buffers. It does when all the
sockets fit into the set for `select`, `select` reports each of them, and `send` takes all it is
given.

* `mem_setupWFdSet`: the set for `select` holds the socket of every connection.
* `Sending.step`: what such a pass keeps, from one step to the next.
* `notStuck_of_sendsAll`: then **the writer never sleeps with output pending**.
* `stuck`: it may when `select` reports the socket of the server alone.
-/

namespace Muxer.Writer

open Lib

variable {τ : Type} {s s' : State τ} {a : Action τ} {m m' : Mux τ}

/-! ## The set for `select` -/

theorem setupWFdSet_eq (s : State τ) : setupWFdSet s =
    (handles none s.isOutConnectionOK s.mux.outConnection s.mux.connections).foldl
      (put fdSetsize) [] := by
  unfold setupWFdSet handles
  cases s.isOutConnectionOK <;> rfl

/-- **The set for `select` holds the socket of every connection**, when there are few enough. -/
theorem mem_setupWFdSet (h : s.mux.connections.length < fdSetsize) {c : Connection}
    (hc : c ∈ s.mux.connections) : c.socket ∈ setupWFdSet s := by
  have hlen : (handles none s.isOutConnectionOK s.mux.outConnection s.mux.connections).length ≤
      s.mux.connections.length + 1 := by
    unfold handles
    cases s.isOutConnectionOK <;> simp
  rw [setupWFdSet_eq]
  refine mem_foldl_put_iff.2 ?_ _ (mem_handles.2 (.inr (.inr ⟨c, hc, rfl⟩)))
  exact Nat.le_trans (List.toFinset_card_le _) (by omega)

theorem out_mem_setupWFdSet (h : s.isOutConnectionOK = true) :
    s.mux.outConnection.socket ∈ setupWFdSet s := by
  unfold setupWFdSet
  rw [if_pos h, fdSet_eq]
  exact subset_foldl_put (mem_put (.inr (by decide)))

/-! ## Loading and sending -/

/-- What `write_data_to_out_buffer` leaves as it is, and where new bytes come from. -/
theorem writeDataToOutBuffer_out (h : writeDataToOutBuffer m = .ok m') :
    m'.connections = m.connections ∧ m'.outConnection.socket = m.outConnection.socket ∧
      (m.wOutMessages = [] → m'.outConnection = m.outConnection) := by
  unfold writeDataToOutBuffer at h
  obtain ⟨-, -, h⟩ := bind_eq_ok.1 h
  split at h
  · split at h
    · cases h
      exact ⟨rfl, rfl, fun _ => rfl⟩
    case h_2 p rest hq =>
      obtain ⟨⟨b, ptr⟩, -, h⟩ := bind_eq_ok.1 h
      cases h
      exact ⟨rfl, rfl, fun hq' => by rw [hq] at hq'; cases hq'⟩
  · cases h
    exact ⟨rfl, rfl, fun _ => rfl⟩

/-- `send` takes everything. -/
theorem wBufferPtr_of_sent {conn conn' : Connection} {ok : Bool} {out : Bytes}
    (h : writeData conn (.sent conn.wBufferPtr) = .ok (ok, out, conn')) :
    conn'.wBufferPtr = 0 := by
  unfold writeData at h
  obtain ⟨-, -, h⟩ := bind_eq_ok.1 h
  split at h
  · obtain ⟨sent, -, h⟩ := bind_eq_ok.1 h
    rw [if_pos rfl] at h
    cases h
    rfl
  case isFalse h0 =>
    cases h
    exact Nat.eq_zero_of_not_pos h0

theorem mem_take_succ_set {conns : List Connection} {i : ℕ} {conn' c : Connection}
    (hc : c ∈ (conns.set i conn').take (i + 1)) : c ∈ conns.take i ∨ c = conn' := by
  have hbefore : (conns.set i conn').take i = conns.take i := by
    rw [List.take_set, List.set_eq_of_length_le (List.length_take_le i conns)]
  rw [List.take_add_one, hbefore] at hc
  rcases List.mem_append.1 hc with hc | hc
  · exact .inl hc
  · rw [Option.mem_toList, List.getElem?_set_self'] at hc
    obtain ⟨-, -, rfl⟩ := Option.map_eq_some_iff.1 hc
    exact .inr rfl

/-! ## What the steps of a pass keep -/

/-- One of the two sets has the socket. -/
def FdSets.Reports (sets : FdSets) (sock : Socket) : Prop := sock ∈ sets.write ∨ sock ∈ sets.except

/-- Nothing holds up the output, and open connections have handles of their own. -/
def SendsAll (s : State τ) : Action τ → Prop
  | .loadOut => s.isOutConnectionOK = true ∨ s.mux.wOutMessages = []
  | .setupFdSet => s.mux.connections.length < fdSetsize
  | .select sets => s.mux.outConnection.socket ∉ sets.except ∧
      ∀ fds, s.pc = .select fds → ∀ sock ∈ fds, sets.Reports sock
  | .selectFailed => BuffersEmpty s.mux
  | .writeOut r => r = .sent s.mux.outConnection.wBufferPtr
  | .writeIn r => ∀ i sets c, s.pc = .writeIn i sets → s.mux.connections[i]? = some c →
      r = .sent c.wBufferPtr
  | .connectToOutput sock _ => ∀ c ∈ s.mux.connections, c.socket ≠ sock
  | .accept sock => s.isOutConnectionOK = true → s.mux.outConnection.socket ≠ sock
  | _ => True

/-- Every client with bytes left is among those reported. -/
def Reported (m : Mux τ) (sets : FdSets) : Prop :=
  ∀ c ∈ m.connections, 0 < c.wBufferPtr → sets.Reports c.socket

/-- What is left to send, as the pass goes on. -/
def Ahead (m : Mux τ) : Pc → Prop
  | .select fds =>
      (0 < m.outConnection.wBufferPtr → m.outConnection.socket ∈ fds) ∧
        ∀ c ∈ m.connections, 0 < c.wBufferPtr → c.socket ∈ fds
  | .writeOut sets =>
      (0 < m.outConnection.wBufferPtr →
        m.outConnection.socket ∈ sets.write ∧ m.outConnection.socket ∉ sets.except) ∧
        Reported m sets
  | .writeIn i sets =>
      m.outConnection.wBufferPtr = 0 ∧ Reported m sets ∧
        ∀ c ∈ m.connections.take i, c.wBufferPtr = 0
  | .testIn => BuffersEmpty m
  | .testOut => BuffersEmpty m
  | .setEvent => BuffersEmpty m
  | .waitMessage => BuffersEmpty m
  | _ => True

/-- The invariant of passes that send everything. -/
structure Sending (s : State τ) : Prop where
  sockets : (s.mux.connections.map Connection.socket).Nodup
  /-- Bytes for the server wait only while there is a connection to it. -/
  ok : 0 < s.mux.outConnection.wBufferPtr → s.isOutConnectionOK = true
  apart : s.isOutConnectionOK = true →
    ∀ c ∈ s.mux.connections, c.socket ≠ s.mux.outConnection.socket
  ahead : Ahead s.mux s.pc

theorem Sending.start : Sending (State.start : State τ) where
  sockets := List.nodup_nil
  ok := nofun
  apart := nofun
  ahead := ⟨rfl, nofun⟩

/-- Bytes may be discarded, and none come. -/
structure Calm (m m' : Mux τ) : Prop where
  out : 0 < m'.outConnection.wBufferPtr → m'.outConnection = m.outConnection
  conns : ∀ c ∈ m'.connections, 0 < c.wBufferPtr → c ∈ m.connections

theorem Calm.buffersEmpty (hc : Calm m m') (h : BuffersEmpty m) : BuffersEmpty m' := by
  constructor
  · by_contra hpos
    rw [hc.out (Nat.pos_of_ne_zero hpos)] at hpos
    exact hpos h.out
  · intro c hmem
    by_contra hpos
    exact hpos (h.conns c (hc.conns c hmem (Nat.pos_of_ne_zero hpos)))

/-- What other threads do leaves no more to send. -/
theorem Ahead.calm {pc : Pc} (h : Ahead m pc) (hc : Calm m m')
    (hheld : pc.HoldsConnections → m'.connections = m.connections) : Ahead m' pc := by
  cases pc with
  | select fds =>
    refine ⟨fun hpos => ?_, fun c hmem hpos => h.2 c (hc.conns c hmem hpos) hpos⟩
    have hout := hc.out hpos
    rw [hout] at hpos ⊢
    exact h.1 hpos
  | writeOut sets =>
    refine ⟨fun hpos => ?_, fun c hmem hpos => h.2 c (hc.conns c hmem hpos) hpos⟩
    have hout := hc.out hpos
    rw [hout] at hpos ⊢
    exact h.1 hpos
  | writeIn i sets =>
    obtain ⟨h0, hreported, hdone⟩ := h
    refine ⟨?_, fun c hmem hpos => hreported c (hc.conns c hmem hpos) hpos, ?_⟩
    · by_contra hpos
      rw [hc.out (Nat.pos_of_ne_zero hpos)] at hpos
      exact hpos h0
    · rw [hheld trivial]
      exact hdone
  | testIn => exact hc.buffersEmpty h
  | testOut => exact hc.buffersEmpty h
  | setEvent => exact hc.buffersEmpty h
  | waitMessage => exact hc.buffersEmpty h
  | loadOut => trivial
  | sweep => trivial
  | loadIn => trivial
  | setupFdSet => trivial

/-- Other threads leave the writer where it is. -/
theorem Sending.calm (h : Sending s) (hc : Calm s.mux s'.mux) (hpc : s'.pc = s.pc)
    (hheld : s.pc.HoldsConnections → s'.mux.connections = s.mux.connections)
    (hsockets : (s'.mux.connections.map Connection.socket).Nodup)
    (hok : 0 < s'.mux.outConnection.wBufferPtr → s'.isOutConnectionOK = true)
    (hapart : s'.isOutConnectionOK = true →
      ∀ c ∈ s'.mux.connections, c.socket ≠ s'.mux.outConnection.socket) : Sending s' where
  sockets := hsockets
  ok := hok
  apart := hapart
  ahead := by
    rw [hpc]
    exact h.ahead.calm hc hheld

theorem Sending.same (h : Sending s) (hpc : s'.pc = s.pc)
    (hok : s'.isOutConnectionOK = s.isOutConnectionOK)
    (hout : s'.mux.outConnection = s.mux.outConnection)
    (hconns : s'.mux.connections = s.mux.connections) : Sending s' := by
  refine h.calm ⟨fun _ => hout, fun c hc _ => ?_⟩ hpc (fun _ => hconns) ?_ ?_ ?_
  · rwa [← hconns]
  · rw [hconns]
    exact h.sockets
  · rw [hout, hok]
    exact h.ok
  · rw [hout, hok, hconns]
    exact h.apart

/-- The clients left once one is dropped. -/
theorem Sending.removed (h : Sending s) {sock : Socket}
    (hrem : removeConnection sock s.mux = .ok m) :
    m.outConnection = s.mux.outConnection ∧ (m.connections.map Connection.socket).Nodup ∧
      ∀ c ∈ m.connections, c ∈ s.mux.connections ∧ c.socket ≠ sock := by
  obtain ⟨mappings, rfl⟩ := removeConnection_eq hrem
  refine ⟨rfl, (List.filter_sublist.map _).nodup h.sockets, fun c hc => ?_⟩
  obtain ⟨hmem, hne⟩ := List.mem_filter.1 hc
  exact ⟨hmem, by simpa using hne⟩

/-- The writer drops a client, and goes through the others once more. -/
theorem Sending.drop (h : Sending s) {i : ℕ} {sets sets' : FdSets} {sock : Socket}
    (hpc : s.pc = .writeIn i sets) (hrem : removeConnection sock s.mux = .ok m)
    (hsets : ∀ x, x ≠ sock → sets.Reports x → sets'.Reports x) :
    Sending { s with mux := m, pc := .writeIn 0 sets' } := by
  obtain ⟨hout, hnodup, hconns⟩ := h.removed hrem
  have hahead := h.ahead
  rw [hpc] at hahead
  obtain ⟨h0, hreported, -⟩ := hahead
  exact
    { sockets := hnodup
      ok := by
        simp only [hout]
        exact h.ok
      apart := by
        intro hok c hc
        simp only [hout]
        exact h.apart hok c (hconns c hc).1
      ahead := by
        refine ⟨by rw [hout]; exact h0, fun c hc hpos => ?_, nofun⟩
        exact hsets c.socket (hconns c hc).2 (hreported c (hconns c hc).1 hpos) }

/-- The writer is through with a connection. -/
theorem Sending.written (h : Sending s) {i : ℕ} {sets sets' : FdSets} {conn conn' : Connection}
    (hpc : s.pc = .writeIn i sets) (hi : s.mux.connections[i]? = some conn)
    (hsock : conn'.socket = conn.socket) (h0 : conn'.wBufferPtr = 0)
    (hsets : ∀ x, x ≠ conn.socket → sets.Reports x → sets'.Reports x) :
    Sending { s with
      mux := { s.mux with connections := s.mux.connections.set i conn' }
      pc := .writeIn (i + 1) sets' } := by
  have hmap := map_socket_set conn' hi hsock
  have hahead := h.ahead
  rw [hpc] at hahead
  obtain ⟨hout, hreported, hdone⟩ := hahead
  refine ⟨by rw [hmap]; exact h.sockets, h.ok, fun hok c hc => ?_, hout, fun c hc hpos => ?_, ?_⟩
  · rcases mem_set_cases h.sockets hi hc with rfl | ⟨hc, -⟩
    · rw [hsock]
      exact h.apart hok conn (List.mem_of_getElem? hi)
    · exact h.apart hok c hc
  · rcases mem_set_cases h.sockets hi hc with rfl | ⟨hc, hne⟩
    · omega
    · exact hsets c.socket hne (hreported c hc hpos)
  · intro c hc
    rcases mem_take_succ_set hc with hc | rfl
    · exact hdone c hc
    · exact h0

theorem reports_fdClr {sets : FdSets} {sock x : Socket} (hne : x ≠ sock) (h : sets.Reports x) :
    FdSets.Reports { sets with write := fdClr sets.write sock } x :=
  h.imp_left fun hx => mem_fdClr.2 ⟨hx, hne⟩

/-- **One step, when nothing holds up the output.** -/
theorem Sending.step (h : Sending s) (hs : Step s a s') (ha : SendsAll s a) : Sending s' := by
  have hahead := h.ahead
  cases hs with
  | waitMessage => exact ⟨h.sockets, h.ok, h.apart, trivial⟩
  | loadOut m hpc hload =>
    obtain ⟨hconns, hsock, hnone⟩ := writeDataToOutBuffer_out hload
    refine ⟨by simpa only [hconns] using h.sockets, fun hpos => ?_, ?_, ?_⟩
    · rcases ha with hok | hq
      · exact hok
      · simp only [hnone hq] at hpos
        exact h.ok hpos
    · simpa only [hconns, hsock] using h.apart
    · split <;> trivial
  | sweepKeep => exact ⟨h.sockets, h.ok, h.apart, trivial⟩
  | sweepFree i r hpc => exact ⟨h.sockets, h.ok, h.apart, by simp only [hpc]; trivial⟩
  | sweepDone => exact ⟨h.sockets, h.ok, h.apart, trivial⟩
  | loadIn i conn conn' q hpc hi hload =>
    have hsock := loadConnection_socket hload
    have hmap := map_socket_set conn' hi hsock
    refine ⟨by rw [hmap]; exact h.sockets, h.ok, fun hok c hc => ?_, trivial⟩
    rcases mem_set_cases h.sockets hi hc with rfl | ⟨hc, -⟩
    · rw [hsock]
      exact h.apart hok conn (List.mem_of_getElem? hi)
    · exact h.apart hok c hc
  | loadInDone => exact ⟨h.sockets, h.ok, h.apart, trivial⟩
  | setupFdSet hpc =>
    exact ⟨h.sockets, h.ok, h.apart, fun hpos => out_mem_setupWFdSet (h.ok hpos),
      fun c hc _ => mem_setupWFdSet ha hc⟩
  | select fds sets hpc hw he =>
    rw [hpc] at hahead
    obtain ⟨hexcept, hall⟩ := ha
    refine ⟨h.sockets, h.ok, h.apart, fun hpos => ⟨?_, hexcept⟩, fun c hc hpos => ?_⟩
    · exact (hall fds hpc _ (hahead.1 hpos)).resolve_right hexcept
    · exact hall fds hpc _ (hahead.2 c hc hpos)
  | selectFailed => exact ⟨h.sockets, h.ok, h.apart, ha⟩
  | skipOut sets hpc hok =>
    -- without a connection to the server no bytes wait for it
    rw [hpc] at hahead
    refine ⟨h.sockets, h.ok, h.apart, ?_, hahead.2, nofun⟩
    by_contra hpos
    rw [h.ok (Nat.pos_of_ne_zero hpos)] at hok
    cases hok
  | exceptOut sets hpc hok hexcept =>
    rw [hpc] at hahead
    refine ⟨h.sockets, h.ok, h.apart, ?_, fun c hc hpos => ?_, nofun⟩
    · by_contra hpos
      exact (hahead.1 (Nat.pos_of_ne_zero hpos)).2 hexcept
    · exact (hahead.2 c hc hpos).imp_right fun hx => mem_fdClr.2 ⟨hx, h.apart hok c hc⟩
  | writeOut sets r ok out conn' hpc hok he hw hr hwrite =>
    rw [hpc] at hahead
    subst ha
    have h0 := wBufferPtr_of_sent hwrite
    refine ⟨h.sockets, fun _ => hok, fun _ c hc => ?_, h0, fun c hc hpos => ?_, nofun⟩
    · simp only [(writeData_frame hwrite).1]
      exact h.apart hok c hc
    · exact reports_fdClr (h.apart hok c hc) (hahead.2 c hc hpos)
  | unsetOut sets hpc hok he hw =>
    rw [hpc] at hahead
    refine ⟨h.sockets, h.ok, h.apart, ?_, hahead.2, nofun⟩
    by_contra hpos
    exact hw (hahead.1 (Nat.pos_of_ne_zero hpos)).1
  -- the bytes of a client that is dropped go with it
  | exceptIn i sets conn m hpc hi he hrem =>
    exact h.drop hpc hrem fun x hne hx => hx.imp_right fun hx => mem_fdClr.2 ⟨hx, hne⟩
  | writeIn i sets r conn out conn' hpc hi he hw hr hwrite =>
    rw [ha i sets conn hpc hi] at hwrite
    exact h.written hpc hi (writeData_frame hwrite).1 (wBufferPtr_of_sent hwrite) fun x =>
      reports_fdClr
  | dropIn i sets r conn out conn' m hpc hi he hw hr hwrite hrem =>
    exact h.drop hpc hrem fun x => reports_fdClr
  | unsetIn i sets conn hpc hi he hw =>
    -- a client with bytes left would have been reported
    have h0 : conn.wBufferPtr = 0 := by
      rw [hpc] at hahead
      by_contra hpos
      rcases hahead.2.1 conn (List.mem_of_getElem? hi) (Nat.pos_of_ne_zero hpos) with hx | hx
      · exact hw hx
      · exact he hx
    obtain ⟨hlt, hget⟩ := List.getElem?_eq_some_iff.1 hi
    have hset : s.mux.connections.set i conn = s.mux.connections := by
      rw [← hget, List.set_getElem_self hlt]
    simpa only [hset] using h.written hpc hi rfl h0 fun _ _ => id
  | writeInDone i sets hpc hi =>
    rw [hpc] at hahead
    -- the index has passed the last connection
    refine ⟨h.sockets, h.ok, h.apart, hahead.1, fun c hc => hahead.2.2 c ?_⟩
    rwa [List.take_of_length_le (List.getElem?_eq_none_iff.1 hi)]
  | testIn hpc =>
    rw [hpc] at hahead
    refine ⟨h.sockets, h.ok, h.apart, ?_⟩
    split <;> exact hahead
  | testOut hpc =>
    rw [hpc] at hahead
    refine ⟨h.sockets, h.ok, h.apart, ?_⟩
    split <;> exact hahead
  | setEvent hpc =>
    rw [hpc] at hahead
    exact ⟨h.sockets, h.ok, h.apart, hahead⟩
  | putIn r => exact h.same rfl rfl rfl rfl
  | putOut p => exact h.same rfl rfl rfl rfl
  | signal => exact h.same rfl rfl rfl rfl
  | wake => exact h.same rfl rfl rfl rfl
  | connectToOutput sock ok hok =>
    -- the handle changes only while there are no bytes for it
    have h0 : ¬0 < s.mux.outConnection.wBufferPtr := by
      intro hpos
      rw [h.ok hpos] at hok
      cases hok
    exact h.calm ⟨fun hpos => absurd hpos h0, fun _ hc _ => hc⟩ rfl (fun _ => rfl) h.sockets
      (fun hpos => absurd hpos h0) (fun _ => ha)
  | accept sock hfree hpos hnew =>
    refine h.calm ⟨fun _ => rfl, fun c hc hpos => ?_⟩ rfl (fun hheld => absurd hheld hfree) ?_ h.ok
      (fun hok c hc => ?_)
    · rcases List.mem_append.1 hc with hc | hc
      · exact hc
      · rw [List.mem_singleton.1 hc] at hpos
        cases hpos
    · rw [List.map_append, List.map_singleton]
      refine List.nodup_append.2 ⟨h.sockets, List.nodup_singleton _, ?_⟩
      intro x hx y hy
      obtain ⟨c, hc, rfl⟩ := List.mem_map.1 hx
      rw [List.mem_singleton.1 hy]
      exact hnew c hc
    · rcases List.mem_append.1 hc with hc | hc
      · exact h.apart hok c hc
      · rw [List.mem_singleton.1 hc]
        exact (ha hok).symm
  | remove sock m hfree hrem =>
    obtain ⟨hout, hnodup, hconns⟩ := h.removed hrem
    refine h.calm ⟨fun _ => hout, fun c hc _ => (hconns c hc).1⟩ rfl
      (fun hheld => absurd hheld hfree) hnodup ?_ fun hok c hc => ?_
    · simp only [hout]
      exact h.ok
    · simp only [hout]
      exact h.apart hok c (hconns c hc).1
  | resetOut => exact h.calm ⟨nofun, fun _ hc _ => hc⟩ rfl (fun _ => rfl) h.sockets nofun nofun
  | freeWIn => exact h.same rfl rfl rfl rfl
  | freeWOut => exact h.same rfl rfl rfl rfl

/-! ## Runs -/

/-- The test for another pass comes only once the buffers are empty. -/
theorem Sending.drained (h : Sending s) (hs : Step s a s') : Drained s a := by
  rintro rfl - - -
  cases hs with
  | testOut hpc =>
    have hahead := h.ahead
    rw [hpc] at hahead
    exact hahead

/-- **No wake-up of the writer is lost when nothing holds up the output**: every socket is among
those for `select` and reported by it, and `send` takes all it is given. -/
theorem notStuck_of_sendsAll {tr : List (Action τ × State τ)} (h : Exec Step State.start tr)
    (hsends : Steps SendsAll State.start tr) : ∀ v ∈ states State.start tr, NotStuck v := by
  refine (notStuck_iff h).2 ?_
  exact h.steps_of_inv (I := Sending) (P := SendsAll) (fun _ _ _ hI ha hs => hI.step hs ha)
    (fun _ _ _ hI hs => hI.drained hs) Sending.start hsends

/-! ## Two runs -/

/-- The writer at `select`, with the only client and the server. -/
def selecting (c out : Connection) : State τ where
  mux := { Mux.start with connections := [c], outConnection := out }
  isOutConnectionOK := true
  pc := .select (fdSet [out.socket] c.socket)
  count := 2
  newMessage := false
  producers := 0

/-- A request and a response come, and are loaded. -/
theorem exec_selecting {r : InMessage τ} {p : OutMessage τ} (hr : r.pdu.Sendable)
    (hp : p.pdu.Sendable) (hsock : r.socket = 5) : ∃ (c out : Connection)
      (tr : List (Action τ × State τ)), c.socket = 5 ∧ out.socket = 7 ∧
      (0 < c.wBufferPtr ∧ c.wBufferPtr ≤ bufferKsize) ∧
      (0 < out.wBufferPtr ∧ out.wBufferPtr ≤ bufferKsize) ∧
      Exec Step State.start tr ∧ Steps SendsAll State.start tr ∧
      final State.start tr = selecting c out := by
  have htake : takeFirst (allocConnection 5).socket [r] = some (r, []) := if_pos hsock
  obtain ⟨b, -, hload⟩ := loadConnection_first rfl htake hr
  obtain ⟨b', -, hloadOut⟩ := writeDataToOutBuffer_first
    (m := { Mux.start with
      connections := [allocConnection 5]
      wInMessages := [r]
      wOutMessages := [p]
      outConnection := { allocConnection 0 with socket := 7 } }) rfl rfl hp
  have hpass : Exec Step (State.start : State τ)
      [(.connectToOutput 7 true, _), (.accept 5, _), (.putIn r, _), (.putOut p, _), (.signal, _),
        (.signal, _), (.waitMessage, _), (.loadOut, _), (.loadIn, _), (.loadInDone, _),
        (.setupFdSet, _)] :=
    .cons (.connectToOutput _ 7 true rfl) (.cons (.accept _ 5 nofun (by decide) nofun)
      (.cons (.putIn _ r nofun (by rw [hsock]; decide)) (.cons (.putOut _ p)
        (.cons (.signal _ 1 rfl) (.cons (.signal _ 0 rfl) (.cons (.waitMessage _ rfl rfl)
          (.cons (.loadOut _ _ rfl hloadOut) (.cons (.loadIn _ 0 _ _ _ rfl rfl hload)
            (.cons (.loadInDone _ 1 rfl rfl) (.cons (.setupFdSet _ rfl) (.nil _)))))))))))
  refine ⟨{ allocConnection 5 with wBuffer := b, wBufferPtr := r.pdu.frame.length }, _, _, rfl,
    rfl, ⟨r.pdu.frame_pos, hr.frame_le⟩, ⟨p.pdu.frame_pos, hp.frame_le⟩, hpass, ?_, rfl⟩
  have hne : (7 : Socket) ≠ 5 := by decide
  have hfew : 1 < fdSetsize := by decide
  exact ⟨nofun, fun _ => hne, trivial, trivial, trivial, trivial, trivial, .inl rfl, trivial,
    trivial, hfew, trivial⟩

/-- Both sockets are writable, and `send` takes everything. -/
theorem exec_sent {c out : Connection} (hc : c.socket = 5) (hout : out.socket = 7)
    (hpos : 0 < c.wBufferPtr) (hk : c.wBufferPtr ≤ bufferKsize) (hpos' : 0 < out.wBufferPtr)
    (hk' : out.wBufferPtr ≤ bufferKsize) : ∃ tr,
      Exec Step (selecting c out : State τ) tr ∧ Steps SendsAll (selecting c out) tr ∧
        Asleep (final (selecting c out) tr) := by
  have hfds : fdSet [out.socket] c.socket = [7, 5] := by
    rw [hc, hout]
    decide
  have hpass : Exec Step (selecting c out : State τ)
      [(.select ⟨[7, 5], []⟩, _), (.writeOut (.sent out.wBufferPtr), _),
        (.writeIn (.sent c.wBufferPtr), _), (.writeInDone, _), (.testIn, _), (.testOut, _)] :=
    .cons (.select _ _ _ rfl (by simp [hfds]) (by simp) (by decide))
      (.cons (.writeOut _ _ _ true _ _ rfl rfl (by simp) (by simp [selecting, hout])
          (fun _ => ⟨hpos', Nat.le_refl _⟩) (writeData_all hk' hpos'))
        (.cons (.writeIn _ 0 _ _ c _ _ rfl rfl (by simp) (by simp [selecting, hc, hout, fdClr])
            (fun _ => ⟨hpos, Nat.le_refl _⟩) (writeData_all hk hpos))
          (.cons (.writeInDone _ 1 _ rfl rfl)
            (.cons (.testIn _ rfl) (.cons (.testOut _ rfl) (.nil _))))))
  refine ⟨_, hpass, ?_, ⟨rfl, rfl, rfl⟩⟩
  refine ⟨⟨List.not_mem_nil, ?_⟩, rfl, ?_, trivial, trivial, trivial, trivial⟩
  · rintro fds hfds' sock hsock
    cases hfds'
    exact .inl (hfds ▸ hsock)
  · intro i sets c' hpc hi
    cases hpc
    cases hi
    rfl

/-- Only the socket of the server is writable. -/
theorem exec_unsent {c out : Connection} (hc : c.socket = 5) (hout : out.socket = 7)
    (hpos : 0 < c.wBufferPtr) (hpos' : 0 < out.wBufferPtr) (hk' : out.wBufferPtr ≤ bufferKsize) :
    ∃ tr, Exec Step (selecting c out : State τ) tr ∧
      ¬NotStuck (final (selecting c out) tr) := by
  have hfds : fdSet [out.socket] c.socket = [7, 5] := by
    rw [hc, hout]
    decide
  have hpass : Exec Step (selecting c out : State τ)
      [(.select ⟨[7], []⟩, _), (.writeOut (.sent out.wBufferPtr), _), (.unsetIn, _),
        (.writeInDone, _), (.testIn, _), (.testOut, _)] :=
    .cons (.select _ _ _ rfl (by simp [hfds]) (by simp) (by decide))
      (.cons (.writeOut _ _ _ true _ _ rfl rfl (by simp) (by simp [selecting, hout])
          (fun _ => ⟨hpos', Nat.le_refl _⟩) (writeData_all hk' hpos'))
        (.cons (.unsetIn _ 0 _ c rfl rfl (by simp) (by simp [selecting, hout, fdClr]))
          (.cons (.writeInDone _ 1 _ rfl rfl)
            (.cons (.testIn _ rfl) (.cons (.testOut _ rfl) (.nil _))))))
  refine ⟨_, hpass, ?_⟩
  intro hn
  have hptr := (hn ⟨rfl, rfl, rfl⟩).conns c (List.mem_singleton.2 rfl)
  omega

/-- A request and a response are sent, and the writer sleeps again. -/
theorem notStuck_of_sendsAll_both : ∃ tr : List (Action Unit × State Unit),
    Exec Step State.start tr ∧ Steps SendsAll State.start tr ∧
      (∃ v ∈ states State.start tr, 0 < v.mux.outConnection.wBufferPtr ∧
        ∃ c ∈ v.mux.connections, 0 < c.wBufferPtr) ∧
      Asleep (final State.start tr) ∧ ∀ v ∈ states State.start tr, NotStuck v := by
  obtain ⟨c, out, tr, hc, hout, ⟨hpos, hk⟩, ⟨hpos', hk'⟩, hex, hload, hfinal⟩ :=
    exec_selecting (r := ⟨5, ⟨[0, 0], by decide⟩, ()⟩) (p := ⟨⟨[1, 2], by decide⟩, ()⟩)
      ⟨by decide, by decide⟩ ⟨by decide, by decide⟩ rfl
  obtain ⟨tr', hex', hsent, hasleep⟩ := exec_sent (τ := Unit) hc hout hpos hk hpos' hk'
  have hloaded : ∃ v ∈ states State.start (tr ++ tr'), 0 < v.mux.outConnection.wBufferPtr ∧
      ∃ c ∈ v.mux.connections, 0 < c.wBufferPtr := by
    refine ⟨selecting c out, ?_, hpos', c, List.mem_singleton.2 rfl, hpos⟩
    rw [← hfinal]
    exact final_mem_states_append State.start tr tr'
  rw [← hfinal] at hex' hsent hasleep
  refine ⟨tr ++ tr', hex.append hex', hload.append hsent, hloaded, ?_,
    notStuck_of_sendsAll (hex.append hex') (hload.append hsent)⟩
  rw [final_append]
  exact hasleep

/-- `select` reports the socket of the server alone, and the response to a client stays in its
buffer while the writer sleeps. -/
theorem stuck : ∃ tr : List (Action Unit × State Unit), Exec Step State.start tr ∧
    ¬NotStuck (final State.start tr) := by
  obtain ⟨c, out, tr, hc, hout, ⟨hpos, -⟩, ⟨hpos', hk'⟩, hex, -, hfinal⟩ :=
    exec_selecting (r := ⟨5, ⟨[0, 0], by decide⟩, ()⟩) (p := ⟨⟨[1, 2], by decide⟩, ()⟩)
      ⟨by decide, by decide⟩ ⟨by decide, by decide⟩ rfl
  obtain ⟨tr', hex', hstuck⟩ := exec_unsent (τ := Unit) hc hout hpos hpos' hk'
  rw [← hfinal] at hex' hstuck
  refine ⟨tr ++ tr', hex.append hex', ?_⟩
  rw [final_append]
  exact hstuck

end Muxer.Writer

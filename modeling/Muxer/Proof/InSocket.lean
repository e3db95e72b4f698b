import Muxer.Proof.FdSet
import Muxer.Proof.Session
import Muxer.Spec.InSocket

/-!
# The sweeps over the clients visit each of them once

A sweep that has removed a connection starts again, over connections whose sockets it has cleared
from the sets and whose buffers it has drained. So it comes to the same as one pass over the
connections, from the first to the last, in which each is visited once (`Sweeper.pass`).

* `Sweeper.run_eq`: the loop, from any position up to which it has nothing left to do.
* `Sweeper.inSocket_eq`: **a sweep is a single pass**.
-/

namespace Muxer

open Lib

/-! ## A single pass -/

/-- What a pass comes to: the connections kept, the messages put into `r_in_messages`, the sockets
of the connections removed, and the calls of `io`. -/
structure Pass where
  kept : List Connection
  messages : List (InMessage Unit)
  dropped : List Socket
  calls : List (Socket × Bytes)

def Pass.append (a b : Pass) : Pass :=
  ⟨a.kept ++ b.kept, a.messages ++ b.messages, a.dropped ++ b.dropped, a.calls ++ b.calls⟩

/-- The muxer after a pass over all connections. -/
def Pass.mux (a : Pass) (m : Mux Unit) : Mux Unit :=
  { m with
    connections := a.kept
    rInMessages := m.rInMessages ++ a.messages
    socketToRecvUnicastMsg := m.socketToRecvUnicastMsg.filter (·.socket ∉ a.dropped) }

variable {S : Sweeper} {fd eFd : List Socket}

/-- Whether a connection is good, the calls, and the connection. -/
def Sweeper.test (S : Sweeper) (fd eFd : List Socket) (p : Connection) :
    Except Fault (Bool × List (Socket × Bytes) × Connection) :=
  if p.socket ∈ eFd then .ok (false, [], p)
  else if p.socket ∈ fd then do
    let (ok, bytes, conn) ← S.io p
    .ok (ok, [(p.socket, bytes)], conn)
  else .ok (true, [], p)

/-- A connection visited once. -/
def Sweeper.once (S : Sweeper) (fd eFd : List Socket) (p : Connection) : Except Fault Pass := do
  let (ok, calls, conn) ← S.test fd eFd p
  if ok then
    let (rs, conn) ← S.after conn
    .ok ⟨[conn], rs, [], calls⟩
  else .ok ⟨[], [], [p.socket], calls⟩

/-- The connections visited once, from the first to the last. -/
def Sweeper.pass (S : Sweeper) (fd eFd : List Socket) : List Connection → Except Fault Pass
  | [] => .ok ⟨[], [], [], []⟩
  | p :: connections => do
    let a ← S.once fd eFd p
    let b ← S.pass fd eFd connections
    .ok (a.append b)

/-! ## The loop -/

/-- Connections keep their sockets, and there is nothing left to do with one that was good. -/
structure Sweeper.Steady (S : Sweeper) : Prop where
  io : ∀ p ok bytes conn, S.io p = .ok (ok, bytes, conn) → conn.socket = p.socket
  after : ∀ p rs conn, S.after p = .ok (rs, conn) →
    conn.socket = p.socket ∧ S.after conn = .ok ([], conn)

/-- There is nothing left to do with the connection. -/
structure Sweeper.Settled (S : Sweeper) (s : SweepState) (p : Connection) : Prop where
  eFd : p.socket ∉ s.eFd
  fd : p.socket ∉ s.fd
  after : S.after p = .ok ([], p)

/-- The sets without a socket visited. -/
def SweepState.clear (s : SweepState) (t : Socket) (calls : List (Socket × Bytes)) : SweepState :=
  { s with
    eFd := fdClr s.eFd t
    fd := if t ∈ s.eFd then s.fd else fdClr s.fd t
    calls := s.calls ++ calls }

/-- The test of the sets, as far as they agree on the socket. -/
theorem Sweeper.check_eq {s : SweepState} {p : Connection} (he : p.socket ∈ s.eFd ↔ p.socket ∈ eFd)
    (hfd : p.socket ∈ s.fd ↔ p.socket ∈ fd) : S.check p s =
      (S.test fd eFd p).map fun a => (a.1, a.2.2, s.clear p.socket a.2.1) := by
  unfold Sweeper.check Sweeper.test
  by_cases hpe : p.socket ∈ s.eFd
  · rw [if_pos hpe, if_pos (he.1 hpe)]
    simp [Except.map, SweepState.clear, hpe]
  · rw [if_neg hpe, if_neg fun h => hpe (he.2 h)]
    by_cases hpf : p.socket ∈ s.fd
    · rw [if_pos hpf, if_pos (hfd.1 hpf)]
      cases S.io p with
      | error e => rfl
      | ok a => simp [bind, Except.bind, Except.map, SweepState.clear, hpe, fdClr_of_not_mem hpe]
    · rw [if_neg hpf, if_neg fun h => hpf (hfd.2 h)]
      simp [Except.map, SweepState.clear, hpe, fdClr_of_not_mem hpe, fdClr_of_not_mem hpf]

variable {s : SweepState} {p conn : Connection} {i : ℕ} {calls : List (Socket × Bytes)}

/-- A visit that has nothing left to do changes nothing. -/
theorem Sweeper.visit_settled (hi : s.mux.connections[i]? = some p) (h : S.Settled s p) :
    S.visit i s = .ok (true, s) := by
  have hset : s.mux.connections.set i p = s.mux.connections := by
    obtain ⟨hlt, rfl⟩ := List.getElem?_eq_some_iff.1 hi
    exact List.set_getElem_self hlt
  unfold Sweeper.visit Sweeper.check
  simp only [hi, if_neg h.eFd, if_neg h.fd, h.after, bind, Except.bind, if_true, hset,
    List.append_nil]

/-- A visit to a connection the sets agree on. -/
theorem Sweeper.visit_eq (hi : s.mux.connections[i]? = some p)
    (hnd : (s.mux.connections.map Connection.socket).Nodup) (he : p.socket ∈ s.eFd ↔ p.socket ∈ eFd)
    (hfd : p.socket ∈ s.fd ↔ p.socket ∈ fd) : S.visit i s = (do
      let (ok, calls, conn) ← S.test fd eFd p
      if ok then
        let (rs, conn) ← S.after conn
        .ok (true, { s.clear p.socket calls with
          mux := { s.mux with
            connections := s.mux.connections.set i conn
            rInMessages := s.mux.rInMessages ++ rs } })
      else
        .ok (false, { s.clear p.socket calls with
          mux := unlinkConnection p.socket (removeAllMappingsFor p.socket s.mux) })) := by
  have hremove := removeConnection_ok (List.mem_of_getElem? hi) hnd
  unfold Sweeper.visit
  rw [hi]
  simp only [Sweeper.check_eq he hfd]
  cases S.test fd eFd p with
  | error e => rfl
  | ok a =>
    obtain ⟨ok, calls, conn⟩ := a
    cases ok with
    | false => simp [bind, Except.bind, Except.map, SweepState.clear, hremove]
    | true => simp [bind, Except.bind, Except.map, SweepState.clear]

theorem Sweeper.test_true (hS : S.Steady) (h : S.test fd eFd p = .ok (true, calls, conn)) :
    p.socket ∉ eFd ∧ conn.socket = p.socket := by
  unfold Sweeper.test at h
  split at h
  · cases h
  · split at h
    · obtain ⟨⟨ok, bytes, conn'⟩, hio, h⟩ := bind_eq_ok.1 h
      cases h
      exact ⟨‹_›, hS.io p _ _ _ hio⟩
    · cases h
      exact ⟨‹_›, rfl⟩

/-- Another connection visited leaves nothing to do with a settled one. -/
theorem Sweeper.Settled.clear (h : S.Settled s p) (t : Socket) (calls : List (Socket × Bytes))
    (m : Mux Unit) : S.Settled { s.clear t calls with mux := m } p where
  eFd hmem := h.eFd (mem_fdClr.1 hmem).1
  fd hmem := by
    by_cases ht : t ∈ s.eFd
    · simp only [SweepState.clear, if_pos ht] at hmem
      exact h.fd hmem
    · simp only [SweepState.clear, if_neg ht] at hmem
      exact h.fd (mem_fdClr.1 hmem).1
  after := h.after

/-- The sets agree on other sockets as before. -/
theorem SweepState.clear_agree {r t : Socket} (hne : r ≠ t)
    (h : (r ∈ s.eFd ↔ r ∈ eFd) ∧ (r ∈ s.fd ↔ r ∈ fd)) (calls : List (Socket × Bytes)) :
    (r ∈ (s.clear t calls).eFd ↔ r ∈ eFd) ∧ (r ∈ (s.clear t calls).fd ↔ r ∈ fd) := by
  unfold SweepState.clear
  refine ⟨?_, ?_⟩
  · rw [mem_fdClr, h.1, and_iff_left hne]
  · by_cases ht : t ∈ s.eFd
    · rw [if_pos ht, h.2]
    · rw [if_neg ht, mem_fdClr, h.2, and_iff_left hne]

/-- How far the loop has come: there is nothing left to do with the connections `done`, and the sets
are as they were for those in `todo`. -/
structure Sweeper.At (S : Sweeper) (fd eFd : List Socket) (done todo : List Connection)
    (s : SweepState) : Prop where
  connections : s.mux.connections = done ++ todo
  nodup : ((done ++ todo).map Connection.socket).Nodup
  settled : ∀ p ∈ done, S.Settled s p
  agree : ∀ p ∈ todo, (p.socket ∈ s.eFd ↔ p.socket ∈ eFd) ∧ (p.socket ∈ s.fd ↔ p.socket ∈ fd)

variable {done todo : List Connection}

theorem Sweeper.At.start {m : Mux Unit} (hnd : (m.connections.map Connection.socket).Nodup) :
    S.At fd eFd [] m.connections ⟨m, eFd, fd, []⟩ where
  connections := rfl
  nodup := hnd
  settled p hp := by cases hp
  agree p _ := ⟨Iff.rfl, Iff.rfl⟩

theorem Sweeper.At.next (h : S.At fd eFd done (p :: todo) s) :
    s.mux.connections[done.length]? = some p := by simp [h.connections]

theorem Sweeper.At.lt_size (h : S.At fd eFd done (p :: todo) s) :
    done.length < S.sweep.size s := by simp [Sweeper.sweep, h.connections]

/-- The other connections have other sockets. -/
theorem Sweeper.At.other (h : S.At fd eFd done (p :: todo) s) :
    ∀ q ∈ done ++ todo, q.socket ≠ p.socket := by
  intro q hq heq
  have hnd := h.nodup
  rw [List.map_append, List.map_cons, List.nodup_middle, List.nodup_cons, ← List.map_append] at hnd
  exact hnd.1 (heq ▸ List.mem_map_of_mem hq)

/-- The connection visited is removed. -/
theorem Sweeper.At.removed (h : S.At fd eFd done (p :: todo) s) (calls : List (Socket × Bytes)) :
    S.At fd eFd done todo { s.clear p.socket calls with
      mux := unlinkConnection p.socket (removeAllMappingsFor p.socket s.mux) } where
  connections := by
    have hne : ∀ q ∈ done ++ todo, (q.socket != p.socket) = true :=
      fun q hq => bne_iff_ne.2 (h.other q hq)
    change s.mux.connections.filter (·.socket != p.socket) = done ++ todo
    rw [h.connections, List.filter_append, List.filter_cons_of_neg (by simp), ← List.filter_append,
      List.filter_eq_self.2 hne]
  nodup := by
    have hsub : (done ++ todo).Sublist (done ++ p :: todo) :=
      List.Sublist.append_left (List.sublist_cons_self p todo) done
    exact (hsub.map _).nodup h.nodup
  settled q hq := (h.settled q hq).clear _ _ _
  agree q hq := SweepState.clear_agree (h.other q (List.mem_append_right done hq))
    (h.agree q (List.mem_cons_of_mem p hq)) calls

/-- The connection visited is kept, and there is nothing left to do with it. -/
theorem Sweeper.At.kept (h : S.At fd eFd done (p :: todo) s) (hs : conn.socket = p.socket)
    (he : p.socket ∉ eFd) (hafter : S.after conn = .ok ([], conn))
    (calls : List (Socket × Bytes)) (rs : List (InMessage Unit)) :
    S.At fd eFd (done ++ [conn]) todo { s.clear p.socket calls with
      mux := { s.mux with
        connections := s.mux.connections.set done.length conn
        rInMessages := s.mux.rInMessages ++ rs } } where
  connections := by
    change s.mux.connections.set done.length conn = done ++ [conn] ++ todo
    simp [h.connections]
  nodup := by simpa [hs] using h.nodup
  settled := by
    rw [List.forall_mem_append, List.forall_mem_singleton]
    refine ⟨fun q hq => (h.settled q hq).clear _ _ _, ?_, ?_, hafter⟩
    · rw [hs]
      exact fun hmem => (mem_fdClr.1 hmem).2 rfl
    · have he' : p.socket ∉ s.eFd := fun hmem => he ((h.agree p List.mem_cons_self).1.1 hmem)
      simp only [hs, SweepState.clear, if_neg he']
      exact fun hmem => (mem_fdClr.1 hmem).2 rfl
  agree q hq := SweepState.clear_agree (h.other q (List.mem_append_right done hq))
    (h.agree q (List.mem_cons_of_mem p hq)) calls

/-- Starting again, the loop comes to where it was. -/
theorem Sweeper.At.run_removed {s' : SweepState} (h : S.At fd eFd done (p :: todo) s)
    (hvisit : S.visit done.length s = .ok (false, s')) (h' : S.At fd eFd done todo s') :
    S.sweep.run done.length s = S.sweep.run done.length s' := by
  have hsize : done.length ≤ s'.mux.connections.length := by
    rw [h'.connections, List.length_append]
    omega
  refine Sweep.run_removed h.lt_size hvisit hsize fun j hj => ?_
  have hj' : s'.mux.connections[j]? = some done[j] := by
    rw [h'.connections, List.getElem?_append_left hj, List.getElem?_eq_getElem hj]
  exact Sweeper.visit_settled hj' (h'.settled _ (List.getElem_mem hj))

/-- What a pass over the rest of the connections makes of the muxer and of the calls. -/
def Pass.state (a : Pass) (done : List Connection) (s : SweepState) :
    Mux Unit × List (Socket × Bytes) :=
  (({ a with kept := done ++ a.kept } : Pass).mux s.mux, s.calls ++ a.calls)

/-- A connection removed, and then the rest. -/
theorem Pass.state_removed (a : Pass) (done : List Connection) (s : SweepState) (t : Socket)
    (calls : List (Socket × Bytes)) :
    a.state done { s.clear t calls with
      mux := unlinkConnection t (removeAllMappingsFor t s.mux) } =
      ((⟨[], [], [t], calls⟩ : Pass).append a).state done s := by
  have hmappings : ((removeAllMappingsFor t s.mux).socketToRecvUnicastMsg).filter
      (·.socket ∉ a.dropped) = s.mux.socketToRecvUnicastMsg.filter (·.socket ∉ t :: a.dropped) :=
    filter_unmapped t a.dropped s.mux.socketToRecvUnicastMsg
  unfold Pass.state Pass.mux
  simp only [SweepState.clear, unlinkConnection, hmappings, List.append_assoc]
  rfl

/-- A connection kept, and then the rest. -/
theorem Pass.state_kept (a : Pass) (t : Socket) (rs : List (InMessage Unit))
    (calls : List (Socket × Bytes)) :
    a.state (done ++ [conn]) { s.clear t calls with
      mux := { s.mux with connections := todo, rInMessages := s.mux.rInMessages ++ rs } } =
      ((⟨[conn], rs, [], calls⟩ : Pass).append a).state done s := by
  unfold Pass.state Pass.mux Pass.append
  simp only [SweepState.clear, List.append_assoc]
  rfl

/-- **The loop goes over the rest of the connections once.** The induction is on the connections it
has not come to. -/
theorem Sweeper.run_eq (hS : S.Steady) (todo : List Connection) :
    ∀ {done : List Connection} {s : SweepState}, S.At fd eFd done todo s →
      (S.sweep.run done.length s).map (fun s => (s.mux, s.calls)) =
        (S.pass fd eFd todo).map fun a => a.state done s := by
  induction todo with
  | nil =>
    intro done s h
    have hconn : s.mux.connections = done := by rw [h.connections, List.append_nil]
    rw [Sweep.run_done (by simp [Sweeper.sweep, hconn])]
    simp [Except.map, Sweeper.pass, Pass.state, Pass.mux, ← hconn]
  | cons p todo ih =>
    intro done s h
    -- the sets still have the socket exactly where they had it at first
    obtain ⟨he, hfd⟩ := h.agree p List.mem_cons_self
    have hvisit := S.visit_eq h.next (by rw [h.connections]; exact h.nodup) he hfd
    rw [Sweeper.pass, Sweeper.once]
    cases htest : S.test fd eFd p with
    | error e =>
      rw [htest] at hvisit
      rw [Sweep.run_error h.lt_size hvisit]
      rfl
    | ok a =>
      obtain ⟨ok, calls, conn⟩ := a
      rw [htest] at hvisit
      cases ok with
      | false =>
        -- the loop starts again, and passes over those that are done
        have h' := h.removed calls
        rw [h.run_removed hvisit h', ih h']
        cases S.pass fd eFd todo with
        | error e => rfl
        | ok b => exact congrArg Except.ok (Pass.state_removed b done s p.socket calls)
      | true =>
        -- the connection is kept and the loop goes on to the next one
        obtain ⟨hpe, hsock⟩ := Sweeper.test_true hS htest
        cases hafter : S.after conn with
        | error e =>
          simp only [hafter, bind, Except.bind, if_true] at hvisit ⊢
          rw [Sweep.run_error h.lt_size hvisit]
          simp [Except.map]
        | ok b =>
          obtain ⟨rs, conn'⟩ := b
          obtain ⟨hsock', hagain⟩ := hS.after conn rs conn' hafter
          simp only [hafter, bind, Except.bind, if_true] at hvisit ⊢
          have hrest := ih (h.kept (hsock'.trans hsock) hpe hagain calls rs)
          rw [List.length_append, List.length_singleton] at hrest
          rw [Sweep.run_kept h.lt_size hvisit, hrest]
          cases S.pass fd eFd todo with
          | error e => rfl
          | ok b => exact congrArg Except.ok (Pass.state_kept b p.socket rs calls)

/-- **A sweep is a single pass.** -/
theorem Sweeper.inSocket_eq (hS : S.Steady) {m : Mux Unit}
    (hnd : (m.connections.map Connection.socket).Nodup) (fd eFd : List Socket) :
    S.inSocket fd eFd m = (S.pass fd eFd m.connections).map fun a => (a.mux m, a.calls) := by
  have hrun : (S.sweep.run ([] : List Connection).length ⟨m, eFd, fd, []⟩).map
      (fun s => (s.mux, s.calls)) =
      (S.pass fd eFd m.connections).map fun a => a.state [] ⟨m, eFd, fd, []⟩ :=
    Sweeper.run_eq hS m.connections (.start hnd)
  unfold Sweeper.inSocket
  rw [List.length_nil] at hrun
  cases hs : S.sweep.run 0 ⟨m, eFd, fd, []⟩ with
  | error e =>
    rw [hs] at hrun
    exact hrun
  | ok s =>
    rw [hs] at hrun
    exact hrun

/-! ## The two sweeps -/

theorem readDataFromInBuffer_again {rs : List (InMessage Unit)}
    (h : readDataFromInBuffer p = .ok (rs, conn)) :
    conn.socket = p.socket ∧ readDataFromInBuffer conn = .ok ([], conn) := by
  unfold readDataFromInBuffer at h
  obtain ⟨⟨pdus, b, ptr⟩, hread, h⟩ := bind_eq_ok.1 h
  obtain ⟨rs', -, h⟩ := bind_eq_ok.1 h
  cases h
  refine ⟨rfl, ?_⟩
  unfold readDataFromInBuffer
  simp only [readPdus_again hread, bind, Except.bind]
  rfl

theorem reading_steady (recv : Socket → RecvResult) : (reading recv).Steady where
  io p ok bytes conn h := by
    obtain ⟨⟨ok', conn'⟩, hread, h⟩ := bind_eq_ok.1 h
    cases h
    exact (readData_frame hread).1
  after p rs conn h := readDataFromInBuffer_again h

theorem writing_steady (send : Socket → SendResult) : (writing send).Steady where
  io p ok bytes conn h := (writeData_frame h).1
  after p rs conn h := by
    cases h
    exact ⟨rfl, rfl⟩

end Muxer

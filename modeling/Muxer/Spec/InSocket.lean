import Muxer.Lib.Sweep
import Muxer.Spec.FdSet
import Muxer.Spec.Protocol

/-!
# The sweeps over the clients (`dispatcher.c`)

`read_in_socket` and `write_in_socket` are one loop over the connections, which starts again from
the first one whenever it has removed one. They differ in what they do with a socket that is ready
(`io`), and with a connection that is good (`after`). What `recv` or `send` returns on a socket is
the environment's.
-/

namespace Muxer

open Lib

/-- What a sweep does with a connection. -/
structure Sweeper where
  /-- Whether the connection is good, the bytes received or sent, and the connection. -/
  io : Connection → Except Fault (Bool × Bytes × Connection)
  /-- The messages put into `r_in_messages`, and the connection. -/
  after : Connection → Except Fault (List (InMessage Unit) × Connection)

/-- The muxer, `e_fd`, `r_fd` or `w_fd`, and the calls of `io`: the sockets, and the bytes moved. -/
structure SweepState where
  mux : Mux Unit
  eFd : List Socket
  fd : List Socket
  calls : List (Socket × Bytes)

/-- The test of the sets. -/
def Sweeper.check (S : Sweeper) (p : Connection) (s : SweepState) :
    Except Fault (Bool × Connection × SweepState) :=
  if p.socket ∈ s.eFd then .ok (false, p, { s with eFd := fdClr s.eFd p.socket })
  else if p.socket ∈ s.fd then do
    let (ok, bytes, conn) ← S.io p
    .ok (ok, conn,
      { s with fd := fdClr s.fd p.socket, calls := s.calls ++ [(p.socket, bytes)] })
  else .ok (true, p, s)

/-- A round of the loop: whether the connection is kept. -/
def Sweeper.visit (S : Sweeper) (i : ℕ) (s : SweepState) : Except Fault (Bool × SweepState) :=
  match s.mux.connections[i]? with
  | none => .ok (true, s)
  | some p => do
    let (ok, conn, s) ← S.check p s
    if ok then
      let (rs, conn) ← S.after conn
      .ok (true, { s with mux := { s.mux with
        connections := s.mux.connections.set i conn
        rInMessages := s.mux.rInMessages ++ rs } })
    else
      let m ← removeConnection p.socket s.mux
      .ok (false, { s with mux := m })

theorem Sweeper.check_mux {S : Sweeper} {p conn : Connection} {s s' : SweepState} {ok : Bool}
    (h : S.check p s = .ok (ok, conn, s')) : s'.mux = s.mux := by
  unfold Sweeper.check at h
  split at h
  · cases h
    rfl
  · split at h
    · obtain ⟨⟨ok', bytes, conn'⟩, -, h⟩ := bind_eq_ok.1 h
      cases h
      rfl
    · cases h
      rfl

/-- A connection removed is gone. -/
theorem length_removeConnection_lt {m m' : Mux Unit} {p : Connection} (hp : p ∈ m.connections)
    (h : removeConnection p.socket m = .ok m') : m'.connections.length < m.connections.length := by
  have hfound : (m.connections.filter (·.socket == p.socket)).isEmpty = false := by
    rw [List.isEmpty_eq_false_iff]
    exact List.ne_nil_of_mem (List.mem_filter.2 ⟨hp, by simp⟩)
  unfold removeConnection at h
  obtain ⟨_, -, h⟩ := bind_eq_ok.1 h
  cases h
  simp only [hfound]
  exact List.length_filter_lt_length_iff_exists.2 ⟨p, hp, by simp⟩

theorem Sweeper.visit_length {S : Sweeper} {i : ℕ} {s s' : SweepState} {ok : Bool}
    (hi : i < s.mux.connections.length) (h : S.visit i s = .ok (ok, s')) :
    if ok then s'.mux.connections.length = s.mux.connections.length
    else s'.mux.connections.length < s.mux.connections.length := by
  unfold Sweeper.visit at h
  rw [List.getElem?_eq_getElem hi] at h
  obtain ⟨⟨good, conn, s₁⟩, hcheck, h⟩ := bind_eq_ok.1 h
  cases good with
  | true =>
    obtain ⟨⟨rs, conn'⟩, -, h⟩ := bind_eq_ok.1 h
    cases h
    simp [Sweeper.check_mux hcheck]
  | false =>
    obtain ⟨m, hm, h⟩ := bind_eq_ok.1 h
    cases h
    rw [Sweeper.check_mux hcheck] at hm
    exact length_removeConnection_lt (List.getElem_mem hi) hm

/-- The loop of `read_in_socket` and `write_in_socket`. -/
def Sweeper.sweep (S : Sweeper) : Sweep SweepState Fault where
  size s := s.mux.connections.length
  visit := S.visit
  keeps hi h := by simpa using Sweeper.visit_length hi h
  removes hi h := by simpa using Sweeper.visit_length hi h

/-- `read_data_from_in_buffer`, with the messages put into `r_in_messages`. -/
def readDataFromInBuffer (conn : Connection) :
    Except Fault (List (InMessage Unit) × Connection) := do
  let (pdus, rBuffer, rBufferPtr) ← readPdusFromRecvBuffer conn.rBuffer conn.rBufferPtr
  let rs ← pdus.mapM fun p => allocInMessage conn.socket p ()
  .ok (rs, { conn with rBuffer := rBuffer, rBufferPtr := rBufferPtr })

/-- What `read_in_socket` does with a connection. -/
def reading (recv : Socket → RecvResult) : Sweeper where
  io p := do
    let (ok, conn) ← readData p (recv p.socket)
    .ok (ok, match recv p.socket with | .bytes bs => bs | .socketError _ => [], conn)
  after := readDataFromInBuffer

/-- What `write_in_socket` does with a connection. -/
def writing (send : Socket → SendResult) : Sweeper where
  io p := writeData p (send p.socket)
  after p := .ok ([], p)

/-- The muxer after a sweep with these sets, and the calls of `read_data` or `write_data`. -/
def Sweeper.inSocket (S : Sweeper) (fd eFd : List Socket) (m : Mux Unit) :
    Except Fault (Mux Unit × List (Socket × Bytes)) := do
  let s ← S.sweep.run 0 ⟨m, eFd, fd, []⟩
  .ok (s.mux, s.calls)

/-- `read_in_socket`. -/
def readInSocket (recv : Socket → RecvResult) (rFd eFd : List Socket) (m : Mux Unit) :
    Except Fault (Mux Unit × List (Socket × Bytes)) := (reading recv).inSocket rFd eFd m

/-- `write_in_socket`. -/
def writeInSocket (send : Socket → SendResult) (wFd eFd : List Socket) (m : Mux Unit) :
    Except Fault (Mux Unit × List (Socket × Bytes)) := (writing send).inSocket wFd eFd m

end Muxer

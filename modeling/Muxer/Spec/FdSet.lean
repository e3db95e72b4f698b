import Muxer.Spec.Dispatcher

/-!
# The sets for `select` (`dispatcher.c`)

An `fd_set` is the list of its sockets. `FD_SETSIZE` and the effect of `FD_SET` and `FD_CLR` are
those of Winsock.
-/

namespace Muxer

/-- `FD_SETSIZE`. -/
def fdSetsize : ℕ := 64

/-- `FD_SET`: a full set stays as it is. -/
def fdSet (set : List Socket) (s : Socket) : List Socket :=
  if s ∈ set ∨ fdSetsize ≤ set.length then set else set ++ [s]

/-- `FD_CLR`. -/
def fdClr (set : List Socket) (s : Socket) : List Socket := set.filter (· != s)

/-- The loop of `setup_r_fd_set` over the connections, on `r_fd` and `e_fd`. -/
def setupRConnections (sets : List Socket × List Socket) :
    List Connection → List Socket × List Socket
  | [] => sets
  | p :: connections =>
    let rFd := if p.rBufferPtr < bufferKsize then fdSet sets.1 p.socket else sets.1
    setupRConnections (rFd, fdSet sets.2 p.socket) connections

/-- `setup_r_fd_set`: `r_fd` and `e_fd`; no listener is `INVALID_SOCKET`. -/
def setupRFdSet (listenerSocket : Option Socket) (isOutConnectionOK : Bool)
    (outConnection : Connection) (connections : List Connection) : List Socket × List Socket :=
  let sets := match listenerSocket with
    | some s => (fdSet [] s, fdSet [] s)
    | none => ([], [])
  let sets := if isOutConnectionOK then
      (fdSet sets.1 outConnection.socket, fdSet sets.2 outConnection.socket)
    else sets
  setupRConnections sets connections

/-- The loop of `setup_w_fd_set` over the connections, on `w_fd` and `e_fd`. -/
def setupWConnections (sets : List Socket × List Socket) :
    List Connection → List Socket × List Socket
  | [] => sets
  | p :: connections =>
    setupWConnections (fdSet sets.1 p.socket, fdSet sets.2 p.socket) connections

/-- `setup_w_fd_set`: `w_fd` and `e_fd`. -/
def setupWFdSet (isOutConnectionOK : Bool) (outConnection : Connection)
    (connections : List Connection) : List Socket × List Socket :=
  let sets := if isOutConnectionOK then
      (fdSet [] outConnection.socket, fdSet [] outConnection.socket)
    else ([], [])
  setupWConnections sets connections

end Muxer

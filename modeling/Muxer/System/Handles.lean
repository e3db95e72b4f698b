import Muxer.Spec.FdSet
import Muxer.System.World

/-!
# Clients come and go

How the reader, the writer and `remove_all_connections` share the handles of clients: `accept` and
the insertion after it, the sweeps of `read_in_socket` and `write_in_socket` with the sets that
`select` returned, and the closing and unlinking of a connection. `select` may report any of the
clients there were when its sets were made. What is read and written is left out, and so are the
listener and the server's connection.

A handle that is closed may be given to a new client. The clients there are on a handle are
numbered in the order in which they are accepted: a set of exceptions keeps, beside each handle
reported, the number of the client that had it when `select` returned. The code has the handles
only.
-/

namespace Muxer.Handles

/-- The sets of a thread: `e_fd`, each handle with the number of its client, and `r_fd` or `w_fd`. -/
structure FdSets where
  except : List (Socket × ℕ)
  data : List Socket

/-- `FD_ISSET` on `e_fd`. -/
def FdSets.IsExcept (sets : FdSets) (s : Socket) : Prop := s ∈ sets.except.map Prod.fst

/-- `FD_CLR` on `e_fd`. -/
def FdSets.clrExcept (sets : FdSets) (s : Socket) : FdSets :=
  { sets with except := sets.except.filter (·.1 != s) }

/-- `FD_CLR` on `r_fd` or `w_fd`. -/
def FdSets.clrData (sets : FdSets) (s : Socket) : FdSets :=
  { sets with data := fdClr sets.data s }

/-- Where the reader or the writer is. -/
inductive Pc
  | idle
  /-- In `select`, with sets of these sockets. -/
  | select (fds : List Socket)
  | returned (sets : FdSets)
  /-- The reader is about to insert a client accepted. -/
  | accepted (s : Socket) (sets : FdSets)
  | ready (sets : FdSets)
  /-- In `csec_connections`. -/
  | inside

/-- Who drops a client: a sweep, or `remove_all_connections`, which has the rest of the connections
yet to remove. -/
inductive Dropper
  | sweep (t : Thread) (sets : FdSets)
  | removeAll (rest : List Socket)

/-- Who is in `csec_connections`, and where. -/
inductive Section
  | free
  /-- In `read_in_socket` or `write_in_socket`, at a connection. -/
  | sweep (t : Thread) (i : ℕ) (sets : FdSets)
  | removeAll (rest : List Socket)
  /-- At `shutdown_connection`. -/
  | shut (d : Dropper) (s : Socket)
  /-- At `remove_connection`. -/
  | remove (d : Dropper) (s : Socket)

/-- What follows `remove_connection`: a sweep starts again from the first connection. -/
def Dropper.resume : Dropper → Section
  | .sweep t sets => .sweep t 0 sets
  | .removeAll rest => .removeAll rest

structure State where
  mux : Mux Unit
  /-- Client handles that are open. -/
  opened : List Socket
  /-- How many clients have been accepted on each handle. -/
  accepts : Socket → ℕ
  /-- The number of the client inserted last on each handle. -/
  number : Socket → ℕ
  pc : Thread → Pc
  connections : Section

/-- The start: no clients. -/
def State.start : State where
  mux := Mux.start
  opened := []
  accepts := fun _ => 0
  number := fun _ => 0
  pc := fun _ => .idle
  connections := .free

/-- The sockets in `connections`. -/
def State.sockets (w : State) : List Socket := w.mux.connections.map Connection.socket

inductive Action
  | setupFdSet (t : Thread)
  | select (t : Thread) (except data : List Socket)
  | selectFailed (t : Thread)
  | accept (s : Socket)
  | insert
  | enter (t : Thread)
  | except
  | fail
  | next
  | leave
  | removeAll
  | removeNext
  | removeDone
  | shutdown (closed : Bool)
  | remove

/-- One step of a thread. -/
inductive Step : State → Action → State → Prop
  /-- `setup_r_fd_set` or `setup_w_fd_set`. -/
  | setupFdSet (w t) : w.pc t = .idle → w.connections = .free →
      Step w (.setupFdSet t) { w with pc := Function.update w.pc t (.select w.sockets) }
  /-- `select` leaves some of the sockets in the sets. -/
  | select (w t fds except data) : w.pc t = .select fds → except ⊆ fds → data ⊆ fds →
      Step w (.select t except data)
        { w with
          pc := Function.update w.pc t
            (.returned ⟨except.map fun s => (s, w.accepts s), data⟩) }
  | selectFailed (w t fds) : w.pc t = .select fds →
      Step w (.selectFailed t) { w with pc := Function.update w.pc t .idle }
  /-- `accept` returns a handle that is not open. -/
  | accept (w s sets) : w.pc .reader = .returned sets → 0 < s → s ∉ w.opened → Step w (.accept s)
      { w with
        opened := s :: w.opened
        accepts := Function.update w.accepts s (w.accepts s + 1)
        pc := Function.update w.pc .reader (.accepted s sets) }
  | insert (w s sets) : w.pc .reader = .accepted s sets → w.connections = .free → Step w .insert
      { w with
        mux := { w.mux with connections := w.mux.connections ++ [allocConnection s] }
        number := Function.update w.number s (w.accepts s)
        pc := Function.update w.pc .reader (.ready sets) }
  /-- `read_in_socket` or `write_in_socket` begins. -/
  | enter (w t sets) : w.pc t = .returned sets ∨ w.pc t = .ready sets → w.connections = .free →
      Step w (.enter t)
        { w with pc := Function.update w.pc t .inside, connections := .sweep t 0 sets }
  /-- The socket is in `e_fd`. -/
  | except (w t i sets conn) : w.connections = .sweep t i sets →
      w.mux.connections[i]? = some conn → sets.IsExcept conn.socket → Step w .except
        { w with connections := .shut (.sweep t (sets.clrExcept conn.socket)) conn.socket }
  /-- `read_data` or `write_data` reports the connection broken. -/
  | fail (w t i sets conn) : w.connections = .sweep t i sets →
      w.mux.connections[i]? = some conn → ¬sets.IsExcept conn.socket → conn.socket ∈ sets.data →
      Step w .fail { w with connections := .shut (.sweep t (sets.clrData conn.socket)) conn.socket }
  /-- The connection is good. -/
  | next (w t i sets conn) : w.connections = .sweep t i sets →
      w.mux.connections[i]? = some conn → ¬sets.IsExcept conn.socket →
      Step w .next { w with connections := .sweep t (i + 1) (sets.clrData conn.socket) }
  | leave (w t i sets) : w.connections = .sweep t i sets → w.mux.connections[i]? = none →
      Step w .leave { w with pc := Function.update w.pc t .idle, connections := .free }
  /-- `remove_all_connections` begins. -/
  | removeAll (w) : w.connections = .free →
      Step w .removeAll { w with connections := .removeAll w.sockets }
  | removeNext (w s rest) : w.connections = .removeAll (s :: rest) →
      Step w .removeNext { w with connections := .shut (.removeAll rest) s }
  | removeDone (w) : w.connections = .removeAll [] →
      Step w .removeDone { w with connections := .free }
  /-- `shutdown_connection`, which may return without closing the handle. -/
  | shutdown (w d s closed) : w.connections = .shut d s → Step w (.shutdown closed)
      { w with
        opened := if closed then w.opened.filter (· != s) else w.opened
        connections := .remove d s }
  /-- `remove_connection`. -/
  | remove (w d s m) : w.connections = .remove d s → removeConnection s w.mux = .ok m →
      Step w .remove { w with mux := m, connections := d.resume }

end Muxer.Handles

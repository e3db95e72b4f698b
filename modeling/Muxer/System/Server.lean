import Muxer.Spec.State

/-!
# The connection to the server

What becomes of `out_connection.socket`: the processing thread connects it, the reader and the
writer find it broken, `thread_cleanup` gives it up, and the writer closes it as it ends. The
address loop of `connect_to_output` is stepped through; the rest of a thread that does not touch
the socket is left out. The outcomes of the socket calls are the environment's.
-/

namespace Muxer.Server

/-- Where the processing thread is, with the number of addresses yet to be tried. -/
inductive Pc
  | idle
  /-- At `socket`, or past the last address. -/
  | address (left : ℕ)
  /-- At `connect`. -/
  | connect (left : ℕ)
  /-- Behind the loop. -/
  | tested

/-- The server's socket, and the sockets to the server there are. -/
structure State where
  /-- `out_connection.socket`, if it is not `INVALID_SOCKET`. -/
  socket : Option Socket
  isOutConnectionOK : Bool
  isAppActive : Bool
  /-- Whether `h_event_do_cleanup`, a manual-reset event, is set. -/
  doCleanup : Bool
  /-- `thread_cleanup` has run `cleanup` and not yet reset the event. -/
  cleanedUp : Bool
  pc : Pc
  /-- What `socket` returned and `closesocket` has not been called on. -/
  opened : List Socket
  /-- Those of them on which `connect` succeeded. -/
  connected : List Socket

/-- The start: not connected. -/
def State.start : State where
  socket := none
  isOutConnectionOK := false
  isAppActive := true
  doCleanup := false
  cleanedUp := false
  pc := .idle
  opened := []
  connected := []

/-- `closesocket(out_connection.socket)`. -/
def State.close (w : State) : State :=
  { w with
    opened := w.opened.filter fun s => w.socket != some s
    connected := w.connected.filter fun s => w.socket != some s }

inductive Action
  | resolve (addresses : ℕ)
  | resolveFailed
  | socket (s : Option Socket)
  | connect (ok : Bool)
  | exhausted
  | test
  | broken
  | cleanup
  | resetCleanup
  | interrupt
  | closeOut (closed : Bool)

/-- One step of a thread. `csec_out_connection` is free when the processing thread is idle. -/
inductive Step : State → Action → State → Prop
  /-- `process_data` without a connection: `getaddrinfo` returns one address at least. -/
  | resolve (w n) : w.pc = .idle → w.isOutConnectionOK = false → 0 < n →
      Step w (.resolve n) { w with pc := .address n }
  | resolveFailed (w) : w.pc = .idle → w.isOutConnectionOK = false → Step w .resolveFailed w
  | socket (w n s) : w.pc = .address (n + 1) → s ∉ w.opened → Step w (.socket (some s))
      { w with socket := some s, opened := s :: w.opened, pc := .connect n }
  /-- `socket` fails, and with it `connect_to_output`. -/
  | socketFailed (w n) : w.pc = .address (n + 1) → Step w (.socket none)
      { w with socket := none, pc := .idle }
  | connect (w n s) : w.pc = .connect n → w.socket = some s → Step w (.connect true)
      { w with connected := s :: w.connected, pc := .tested }
  | connectFailed (w n) : w.pc = .connect n → Step w (.connect false)
      { w.close with socket := none, pc := .address n }
  | exhausted (w) : w.pc = .address 0 → Step w .exhausted { w with pc := .tested }
  /-- Whether there is a socket decides what `connect_to_output` returns. -/
  | test (w) : w.pc = .tested →
      Step w .test { w with isOutConnectionOK := w.socket.isSome, pc := .idle }
  /-- `read_out_socket` or `write_out_socket` finds an error, or the end of the stream. -/
  | broken (w) : w.pc = .idle → w.isOutConnectionOK = true →
      Step w .broken { w with doCleanup := true }
  | cleanup (w) : w.pc = .idle → w.doCleanup = true → w.cleanedUp = false → Step w .cleanup
      { w with isOutConnectionOK := false, cleanedUp := true }
  | resetCleanup (w) : w.cleanedUp = true → Step w .resetCleanup
      { w with doCleanup := false, cleanedUp := false }
  /-- `sigint_handler`. -/
  | interrupt (w) : Step w .interrupt { w with isAppActive := false, doCleanup := true }
  /-- The end of `thread_comm_write`; `shutdown_connection` may return without closing. -/
  | closeOut (w closed) : w.pc = .idle → w.isAppActive = false →
      Step w (.closeOut closed) (if closed then w.close else w)

end Muxer.Server

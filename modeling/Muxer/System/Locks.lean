import Muxer.Lib.Locks

/-!
# The critical sections of the threads

The functions of `dispatcher.c`, `protocol.c`, `connection.c`, `mapping.c` and `message.c` as far as
their critical sections go: what they enter, in which order and inside what. A branch of the
source that enters nothing is `skip`; `shutdown_connection`, `select` and the events enter
nothing. `csec_app_state`, which only the handler of an interrupt enters, is left out.
-/

namespace Muxer.Locks

open Lib Lib.Code

/-- The critical sections. -/
inductive Csec
  | outConnection
  | connections
  | rInMessages
  | wInMessages
  | rOutMessages
  | wOutMessages
  | socketToRecvUnicastMsg
  | socketToRecvMulticastMsg
deriving DecidableEq

/-- The threads, by their functions. -/
inductive ThreadName
  | commRead
  | commWrite
  | processing
  | cleanup
deriving DecidableEq

instance : Fintype ThreadName :=
  ⟨{.commRead, .commWrite, .processing, .cleanup}, by intro t; cases t <;> decide⟩

/-- A section in which nothing else is entered. -/
def alone (l : Csec) : Code Csec := locked l skip

/-! ## Connections and mappings -/

def removeAllMappingsFor : Code Csec :=
  seq (alone .socketToRecvUnicastMsg) (alone .socketToRecvMulticastMsg)

/-- `remove_connection`: the mappings of each connection with the socket. -/
def removeConnection : Code Csec := loop (either removeAllMappingsFor skip)

def removeAllMappings : Code Csec := locked .connections (loop removeAllMappingsFor)

def removeAllConnections : Code Csec := locked .connections (loop removeConnection)

def removeAllMessages : Code Csec :=
  seq (alone .rInMessages) (seq (alone .wInMessages) (seq (alone .rOutMessages) (alone .wOutMessages)))

/-! ## The cleanup thread -/

def cleanup : Code Csec :=
  locked .outConnection (seq removeAllMessages (seq removeAllMappings removeAllConnections))

def threadCleanup : Code Csec := doWhile cleanup

/-! ## The reader -/

def setupRFdSet : Code Csec := alone .connections

def readListenerSocket : Code Csec := either (alone .connections) skip

def readDataFromOutBuffer : Code Csec := loop (alone .rOutMessages)

def readOutSocket : Code Csec := locked .outConnection (either skip readDataFromOutBuffer)

def readDataFromInBuffer : Code Csec := loop (alone .rInMessages)

/-- `read_in_socket`: each connection is dropped, or its PDUs are put into `r_in_messages`. -/
def readInSocket : Code Csec :=
  locked .connections (loop (either removeConnection readDataFromInBuffer))

def threadCommRead : Code Csec :=
  doWhile (seq setupRFdSet
    (either (seq readListenerSocket (seq (either readOutSocket skip) readInSocket)) skip))

/-! ## The writer -/

def writeDataToOutBuffer : Code Csec := locked .outConnection (either (alone .wOutMessages) skip)

/-- `free_w_in_messages_mapped_to_invalid_sockets`: for each message, the connections. -/
def freeWInMessagesMappedToInvalidSockets : Code Csec :=
  locked .wInMessages (loop (alone .connections))

def writeDataToInBuffer : Code Csec :=
  locked .connections (loop (either (alone .wInMessages) skip))

def setupWFdSet : Code Csec := alone .connections

def writeOutSocket : Code Csec := alone .outConnection

def writeInSocket : Code Csec := locked .connections (loop (either removeConnection skip))

/-- `thread_comm_write`; the messages are swept every thousandth round. -/
def threadCommWrite : Code Csec :=
  seq
    (doWhile (seq writeDataToOutBuffer (seq (either freeWInMessagesMappedToInvalidSockets skip)
      (seq writeDataToInBuffer (seq setupWFdSet
        (either (seq (either writeOutSocket skip) writeInSocket) skip))))))
    (alone .outConnection)

/-! ## The processing thread -/

def putPduIntoWInMessages : Code Csec := alone .wInMessages

def putPduIntoWOutMessages : Code Csec := alone .wOutMessages

def putIntoSocketToRecvUnicastMsg : Code Csec := alone .socketToRecvUnicastMsg

/-- `process_incoming_out_messages`: a message for each mapping with the id. -/
def processIncomingOutMessages : Code Csec :=
  seq (alone .rOutMessages)
    (either (locked .socketToRecvUnicastMsg (loop (either putPduIntoWInMessages skip))) skip)

def processIncomingInMessages : Code Csec :=
  seq (alone .rInMessages)
    (either (seq putIntoSocketToRecvUnicastMsg (either putPduIntoWOutMessages skip)) skip)

def processData : Code Csec :=
  seq (alone .outConnection)
    (either (seq processIncomingOutMessages processIncomingInMessages) skip)

def threadProcessing : Code Csec := doWhile processData

/-! ## The system -/

def code : ThreadName → Code Csec
  | .commRead => threadCommRead
  | .commWrite => threadCommWrite
  | .processing => threadProcessing
  | .cleanup => threadCleanup

/-- What each thread has yet to do. -/
abbrev Threads := ThreadName → List (Todo Csec)

end Muxer.Locks

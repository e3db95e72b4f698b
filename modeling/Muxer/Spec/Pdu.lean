import Muxer.Spec.Mem

/-!
# Protocol data units (`common/pdu.h`, `common/pdu.c`)

A PDU travels as a two-byte big-endian length followed by its payload.
`readPdusFromRecvBuffer` cuts the whole PDUs off the front of a receive buffer;
`writePduToSendBuffer` puts one into a send buffer.
-/

namespace Muxer

/-- `BUFFER_KSIZE`. -/
def bufferKsize : ℕ := 1024

/-- `PDU_HEADER_LENGTH`. -/
def pduHeaderLength : ℕ := 2

/-- `pdu_t`: the bytes `buffer[0 .. length)` of an array of `BUFFER_KSIZE`. -/
@[ext] structure Pdu where
  buffer : Bytes
  length_le : buffer.length ≤ bufferKsize
deriving DecidableEq

/-- The field `length`. -/
def Pdu.length (p : Pdu) : ℕ := p.buffer.length

/-- `alloc_pdu`: no bytes. -/
def allocPdu : Pdu := ⟨[], by simp⟩

/-- `memcpy_s` into the array of a fresh `pdu_t`. -/
def copyIntoPdu (src : Bytes) : Except Fault Pdu :=
  if h : src.length ≤ bufferKsize then .ok ⟨src, h⟩ else .error .bounds

/-- `ntohs` of the two bytes a header holds. -/
def ntohs : Bytes → ℕ
  | [hi, lo] => hi.toNat * 256 + lo.toNat
  | _ => 0

/-- `htons` of `(unsigned short)n`, as the two bytes stored. -/
def htons (n : ℕ) : Bytes := [UInt8.ofNat (n % 65536 / 256), UInt8.ofNat (n % 256)]

/-- The `while` loop of `read_pdus_from_recv_buffer`, entered with the header `usHLen`. -/
def readPdusLoop {n : ℕ} (usHLen : ℕ) (recvbuf : Buffer n) (recvbufptr : ℕ) (pdus : List Pdu) :
    Except Fault (List Pdu × Buffer n × ℕ) :=
  if pduHeaderLength ≤ recvbufptr ∧ (0 < usHLen ∧ usHLen ≤ recvbufptr - pduHeaderLength) then do
    let recvPdu ← (recvbuf.read pduHeaderLength usHLen) >>= copyIntoPdu
    let ptr := recvbufptr - (usHLen + pduHeaderLength)
    -- `memmove_s` of the bytes after the frame to the front
    let rest ← recvbuf.read (usHLen + pduHeaderLength) ptr
    let recvbuf ← recvbuf.write 0 rest
    cAssert (ptr ≤ n)
    if pduHeaderLength ≤ ptr then do
      let usHLen ← ntohs <$> recvbuf.read 0 pduHeaderLength
      cAssert (usHLen ≤ n - pduHeaderLength)
      readPdusLoop usHLen recvbuf ptr (pdus ++ [recvPdu])
    else .ok (pdus ++ [recvPdu], recvbuf, ptr)
  else .ok (pdus, recvbuf, recvbufptr)
termination_by recvbufptr
decreasing_by simp only [pduHeaderLength] at *; omega

/-- `read_pdus_from_recv_buffer`: the PDUs put into `pdus`, the buffer and its pointer. -/
def readPdusFromRecvBuffer {n : ℕ} (recvbuf : Buffer n) (recvbufptr : ℕ) :
    Except Fault (List Pdu × Buffer n × ℕ) := do
  cAssert (recvbufptr ≤ n)
  if recvbufptr < pduHeaderLength then .ok ([], recvbuf, recvbufptr)
  else
    let usHLen ← ntohs <$> recvbuf.read 0 pduHeaderLength
    cAssert (usHLen ≤ n - pduHeaderLength)
    readPdusLoop usHLen recvbuf recvbufptr []

/-- `write_pdu_to_send_buffer`: the send buffer and its pointer. -/
def writePduToSendBuffer {n : ℕ} (pdu : Pdu) (sendbuf : Buffer n) : Except Fault (Buffer n × ℕ) := do
  cAssert (pduHeaderLength + pdu.length ≤ n)
  cAssert (pduHeaderLength ≤ pdu.length)
  let sendbuf ← sendbuf.write 0 (List.replicate pdu.length 0)
  let sendbuf ← sendbuf.write 0 (htons pdu.length)
  let sendbuf ← sendbuf.write pduHeaderLength pdu.buffer
  cAssert (pduHeaderLength + pdu.length ≤ n)
  .ok (sendbuf, pduHeaderLength + pdu.length)

end Muxer

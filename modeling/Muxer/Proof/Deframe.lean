import Muxer.Lib.Frame
import Muxer.Spec.Buffers
import Mathlib.Algebra.GroupWithZero.Nat

/-!
# Deframing the byte stream of a connection

`pduFraming` is the framing of the PDUs. `readPdusFromRecvBuffer` cuts the bytes received so
far into frames as the framing library does (`readPdus_eq`), so a connection read in any
number of pieces yields the frames of the bytes received (`receives_eq`).

* `deframe_chunks`: however the frames of a list of PDUs are cut into pieces, the PDUs
  extracted are that list.
* `deframer_safe_iff`: no assertion fails and the buffer always starts with a frame that can
  be completed, exactly when every header the peer sends is in range.
-/

namespace Muxer

open Lib

/-- The two bytes of a header and the number they hold determine each other. -/
theorem ntohs_htons {n : ℕ} (h : n < 65536) : ntohs (htons n) = n := by
  simp only [ntohs, htons, UInt8.toNat_ofNat']
  omega

theorem htons_ntohs {h : Bytes} (hlen : h.length = 2) : htons (ntohs h) = h := by
  match h, hlen with
  | [hi, lo], _ =>
    have h1 := hi.toNat_lt
    have h2 := lo.toNat_lt
    simp only [htons, ntohs, List.cons.injEq, and_true]
    constructor
    · apply UInt8.toNat_inj.1
      rw [UInt8.toNat_ofNat']; omega
    · apply UInt8.toNat_inj.1
      rw [UInt8.toNat_ofNat']; omega

/-- Frames of PDUs that fit a buffer. -/
def pduFraming : Framing UInt8 where
  head := pduHeaderLength
  max := bufferKsize - pduHeaderLength
  enc := htons
  dec := ntohs
  head_pos := by decide
  enc_length _ := rfl
  dec_enc n hn := ntohs_htons (by simp only [bufferKsize, pduHeaderLength] at hn; omega)
  enc_dec _ h := htons_ntohs h

/-- What `write_pdu_to_send_buffer` puts in front of the stream for a PDU. -/
def Pdu.frame (p : Pdu) : Bytes := pduFraming.frame p.buffer

theorem Pdu.frame_eq (p : Pdu) : p.frame = htons p.length ++ p.buffer := rfl

theorem Pdu.frame_length (p : Pdu) : p.frame.length = pduHeaderLength + p.length :=
  Framing.frame_length _

theorem Pdu.frame_pos (p : Pdu) : 0 < p.frame.length := by
  rw [p.frame_length, pduHeaderLength]
  omega

/-- **`write_pdu_to_send_buffer` writes the frame of the PDU**, for a PDU that fits. -/
theorem writePdu_ok {p : Pdu} (h2 : pduHeaderLength ≤ p.length)
    (hk : p.length ≤ bufferKsize - pduHeaderLength) (b : Buffer bufferKsize) :
    ∃ b', writePduToSendBuffer p b = .ok (b', p.frame.length) ∧
      b'.bytes.take p.frame.length = p.frame := by
  have hfit : pduHeaderLength + p.length ≤ bufferKsize := by
    simp only [pduHeaderLength, bufferKsize] at *; omega
  obtain ⟨b₁, hb₁, -⟩ := b.write_ok 0 (List.replicate p.length 0)
    (by simp only [List.length_replicate]; omega)
  -- zeros, then the header over them, then the payload
  obtain ⟨b₂, hb₂, hhead⟩ := b₁.write_zero (htons p.length)
    (by simp only [htons, List.length_cons, List.length_nil, bufferKsize]; omega)
  obtain ⟨b₃, hb₃, hbytes⟩ := b₂.write_ok pduHeaderLength p.buffer hfit
  refine ⟨b₃, ?_, ?_⟩
  · unfold writePduToSendBuffer
    rw [cAssert_ok hfit, cAssert_ok h2, Pdu.frame_length]
    simp only [bind, Except.bind, hb₁, hb₂, hb₃]
  · have hl : p.frame.length = (b₂.bytes.take pduHeaderLength ++ p.buffer).length := by
      rw [List.length_append, List.length_take, b₂.size_eq, Pdu.frame_length, Pdu.length]
      simp only [pduHeaderLength, bufferKsize]; omega
    rw [hbytes, hl, List.take_left, Pdu.frame_eq]
    exact congrArg (· ++ p.buffer) hhead

variable {b : Buffer bufferKsize} {ptr : ℕ}

/-- The header read from a buffer is that of the bytes in use. -/
theorem read_header (h2 : pduHeaderLength ≤ ptr) (hk : ptr ≤ bufferKsize) :
    ntohs <$> b.read 0 pduHeaderLength = .ok (pduFraming.header (b.bytes.take ptr)) := by
  rw [Buffer.read_zero (by omega), Framing.header, List.take_take]
  change Except.ok _ = _
  rw [show min pduFraming.head ptr = pduHeaderLength from Nat.min_eq_left h2]
  rfl

theorem unread_length (hk : ptr ≤ bufferKsize) : (b.bytes.take ptr).length = ptr := by
  rw [List.length_take, b.size_eq]; omega

theorem whole_iff (hk : ptr ≤ bufferKsize) :
    pduFraming.Whole (b.bytes.take ptr) ↔ pduHeaderLength ≤ ptr ∧
      (0 < pduFraming.header (b.bytes.take ptr) ∧
        pduFraming.header (b.bytes.take ptr) ≤ ptr - pduHeaderLength) := by
  unfold Framing.Whole
  rw [unread_length hk]
  rfl

/-- Taking the first frame off the buffer leaves the bytes after it in front. -/
theorem shift_ok (b : Buffer bufferKsize) {h : ℕ} (hw : h + pduHeaderLength ≤ ptr)
    (hk : ptr ≤ bufferKsize) :
    ∃ b', (b.read (h + pduHeaderLength) (ptr - (h + pduHeaderLength)) >>= b.write 0) = .ok b' ∧
      b'.bytes.take (ptr - (h + pduHeaderLength)) =
        (b.bytes.take ptr).drop (h + pduHeaderLength) := by
  have hlen : ((b.bytes.drop (h + pduHeaderLength)).take (ptr - (h + pduHeaderLength))).length =
      ptr - (h + pduHeaderLength) := by
    rw [List.length_take, List.length_drop, b.size_eq]; omega
  obtain ⟨b', hb', htake⟩ := b.write_zero _ (by rw [hlen]; omega)
  rw [Buffer.read_ok (by omega)]
  refine ⟨b', hb', ?_⟩
  rw [hlen] at htake
  rw [htake, List.drop_take]

/-- What deframing the bytes `bs` returns: the payloads cut off, and the rest in front. -/
def Deframed (bs : Bytes) (ps : List Pdu) (b' : Buffer bufferKsize) (ptr' : ℕ) : Prop :=
  ps.map Pdu.buffer = (pduFraming.cut bs).1 ∧ b'.bytes.take ptr' = (pduFraming.cut bs).2 ∧
    ptr' = (pduFraming.cut bs).2.length

theorem Deframed.ptr_le {bs : Bytes} {ps : List Pdu} {b' : Buffer bufferKsize} {ptr' : ℕ}
    (h : Deframed bs ps b' ptr') : ptr' ≤ bufferKsize := by
  have hl := congrArg List.length h.2.1
  rw [List.length_take, b'.size_eq, ← h.2.2] at hl
  omega

theorem deframed_rest {bs : Bytes} (hk : ptr ≤ bufferKsize) (hbs : b.bytes.take ptr = bs)
    (h : ¬pduFraming.Whole bs) : Deframed bs [] b ptr := by
  unfold Deframed
  rw [Framing.cut_rest h]
  exact ⟨rfl, hbs, by rw [← hbs, unread_length hk]⟩

/-- Cutting off a first frame puts its payload in front. -/
theorem Deframed.cons {bs : Bytes} {p : Pdu} {ps : List Pdu} {b' : Buffer bufferKsize} {ptr' : ℕ}
    (hw : pduFraming.Whole bs)
    (hp : p.buffer = (bs.drop pduHeaderLength).take (pduFraming.header bs))
    (h : Deframed (pduFraming.next bs) ps b' ptr') : Deframed bs (p :: ps) b' ptr' := by
  obtain ⟨hps, hrest, hptr⟩ := h
  unfold Deframed
  rw [Framing.cut_whole hw, List.map_cons, hps, hp]
  exact ⟨rfl, hrest, hptr⟩

/-- The bytes `bs` are deframed behind the PDUs `pdus`, or else an assertion fails, exactly when a
header met is too large. -/
def Deframes (bs : Bytes) (pdus : List Pdu)
    (res : Except Fault (List Pdu × Buffer bufferKsize × ℕ)) : Prop :=
  (pduFraming.Bounded bs →
    ∃ ps b' ptr', res = .ok (pdus ++ ps, b', ptr') ∧ Deframed bs ps b' ptr') ∧
  (¬pduFraming.Bounded bs → res = .error .assertion)

variable {bs : Bytes} {pdus : List Pdu} {res : Except Fault (List Pdu × Buffer bufferKsize × ℕ)}

theorem Deframes.rest (hk : ptr ≤ bufferKsize) (hbs : b.bytes.take ptr = bs)
    (hnw : ¬pduFraming.Whole bs)
    (hmax : pduHeaderLength ≤ bs.length → pduFraming.header bs ≤ bufferKsize - pduHeaderLength) :
    Deframes bs pdus (.ok (pdus, b, ptr)) := by
  have hbounded : pduFraming.Bounded bs := by
    rw [Framing.bounded_iff]
    exact ⟨hmax, fun hw => absurd hw hnw⟩
  refine ⟨fun _ => ⟨[], b, ptr, ?_, deframed_rest hk hbs hnw⟩, fun hB => absurd hbounded hB⟩
  rw [List.append_nil]

theorem Deframes.cons (hw : pduFraming.Whole bs)
    (hmax : pduFraming.header bs ≤ bufferKsize - pduHeaderLength) {p : Pdu}
    (hp : p.buffer = (bs.drop pduHeaderLength).take (pduFraming.header bs))
    (h : Deframes (pduFraming.next bs) (pdus ++ [p]) res) : Deframes bs pdus res := by
  have hbounded : pduFraming.Bounded bs ↔ pduFraming.Bounded (pduFraming.next bs) := by
    rw [Framing.bounded_iff, imp_iff_right hw.1, imp_iff_right hw]
    exact and_iff_right hmax
  unfold Deframes
  rw [hbounded]
  refine ⟨fun hB => ?_, h.2⟩
  obtain ⟨ps, b', ptr', hok, hd⟩ := h.1 hB
  exact ⟨p :: ps, b', ptr', by rw [hok, List.append_assoc]; rfl, hd.cons hw hp⟩

/-- What the loop does once a frame is taken off the buffer. -/
def readRest (b : Buffer bufferKsize) (ptr : ℕ) (pdus : List Pdu) :
    Except Fault (List Pdu × Buffer bufferKsize × ℕ) :=
  if pduHeaderLength ≤ ptr then do
    let usHLen ← ntohs <$> b.read 0 pduHeaderLength
    cAssert (usHLen ≤ bufferKsize - pduHeaderLength)
    readPdusLoop usHLen b ptr pdus
  else .ok (pdus, b, ptr)

/-- A round of the loop takes the first frame off the buffer. -/
theorem readPdusLoop_whole (hk : ptr ≤ bufferKsize) (hbs : b.bytes.take ptr = bs)
    (hw : pduFraming.Whole bs)
    (hmax : pduFraming.header bs ≤ bufferKsize - pduHeaderLength) (pdus : List Pdu) :
    ∃ (p : Pdu) (b₁ : Buffer bufferKsize) (ptr₁ : ℕ),
      p.buffer = (bs.drop pduHeaderLength).take (pduFraming.header bs) ∧
      b₁.bytes.take ptr₁ = pduFraming.next bs ∧ ptr₁ < ptr ∧
      readPdusLoop (pduFraming.header bs) b ptr pdus = readRest b₁ ptr₁ (pdus ++ [p]) := by
  subst hbs
  have hcond := (whole_iff (b := b) hk).1 hw
  set bs := b.bytes.take ptr with hbs
  set h := pduFraming.header bs
  have hpay : (b.bytes.drop pduHeaderLength).take h = (bs.drop pduHeaderLength).take h := by
    rw [hbs, List.drop_take, List.take_take, Nat.min_eq_left hcond.2.2]
  have hlen : ((bs.drop pduHeaderLength).take h).length ≤ bufferKsize := by
    rw [List.length_take]
    exact Nat.le_trans (Nat.min_le_left _ _) (Nat.le_trans hmax (Nat.sub_le _ _))
  have hread : b.read pduHeaderLength h = .ok ((b.bytes.drop pduHeaderLength).take h) :=
    Buffer.read_ok (by simp only [pduHeaderLength, bufferKsize] at *; omega)
  have hpdu : copyIntoPdu ((b.bytes.drop pduHeaderLength).take h) =
      .ok ⟨(bs.drop pduHeaderLength).take h, hlen⟩ := by
    unfold copyIntoPdu
    simp only [hpay]
    exact dif_pos hlen
  -- the bytes behind the frame are moved to the front
  obtain ⟨b₁, hmove, htake⟩ := shift_ok b (show h + pduHeaderLength ≤ ptr by omega) hk
  obtain ⟨rest, hrest, hwrite⟩ := bind_eq_ok.1 hmove
  have hp₁ : ptr - (h + pduHeaderLength) ≤ bufferKsize := by omega
  refine ⟨⟨(bs.drop pduHeaderLength).take h, hlen⟩, b₁, ptr - (h + pduHeaderLength), rfl, ?_, ?_, ?_⟩
  · rw [htake, Framing.next, Nat.add_comm h]
    rfl
  · simp only [pduHeaderLength] at *
    omega
  · rw [readPdusLoop, if_pos hcond]
    simp only [bind, Except.bind, hread, hpdu, hrest, hwrite, cAssert_ok hp₁]
    rfl

/-- **The loop deframes the bytes in use.** The induction is on their number: each round takes off a
frame. -/
theorem readRest_deframes (b : Buffer bufferKsize) {ptr : ℕ} (hk : ptr ≤ bufferKsize)
    (pdus : List Pdu) : Deframes (b.bytes.take ptr) pdus (readRest b ptr pdus) := by
  induction ptr using Nat.strongRecOn generalizing b pdus with
  | ind ptr ih =>
  have hlen := unread_length (b := b) hk
  unfold readRest
  by_cases h2 : pduHeaderLength ≤ ptr
  · rw [if_pos h2, read_header h2 hk]
    by_cases hmax : pduFraming.header (b.bytes.take ptr) ≤ bufferKsize - pduHeaderLength
    · simp only [bind, Except.bind, cAssert_ok hmax]
      by_cases hw : pduFraming.Whole (b.bytes.take ptr)
      · obtain ⟨p, b₁, ptr₁, hp, hnext, hlt, hloop⟩ := readPdusLoop_whole hk rfl hw hmax pdus
        have hrec := ih ptr₁ hlt b₁ (by omega) (pdus ++ [p])
        rw [hnext] at hrec
        rw [hloop]
        exact hrec.cons hw hmax hp
      · rw [readPdusLoop, if_neg ((whole_iff (b := b) hk).not.1 hw)]
        exact .rest hk rfl hw fun _ => hmax
    · -- the header is too large, and the assertion fails
      simp only [bind, Except.bind, cAssert_not hmax]
      refine ⟨fun hB => ?_, fun _ => rfl⟩
      rw [Framing.bounded_iff] at hB
      exact absurd (hB.1 (by rw [hlen]; exact h2)) hmax
  · have hshort : ¬pduHeaderLength ≤ (b.bytes.take ptr).length := by
      rw [hlen]
      exact h2
    rw [if_neg h2]
    exact .rest hk rfl (fun hw => hshort hw.1) fun hh => absurd hh hshort

theorem readPdus_readRest (hk : ptr ≤ bufferKsize) :
    readPdusFromRecvBuffer b ptr = readRest b ptr [] := by
  unfold readPdusFromRecvBuffer readRest
  rw [cAssert_ok hk]
  by_cases h2 : ptr < pduHeaderLength
  · rw [if_neg (Nat.not_le.2 h2)]
    simp only [bind, Except.bind, if_pos h2]
  · rw [if_pos (Nat.not_lt.1 h2)]
    simp only [bind, Except.bind, if_neg h2]

/-- **`read_pdus_from_recv_buffer` deframes the bytes in use**, and fails an assertion exactly
when a header it meets is too large. -/
theorem readPdus_eq (b : Buffer bufferKsize) {ptr : ℕ} (hk : ptr ≤ bufferKsize) :
    (pduFraming.Bounded (b.bytes.take ptr) → ∃ ps b' ptr',
      readPdusFromRecvBuffer b ptr = .ok (ps, b', ptr') ∧
        Deframed (b.bytes.take ptr) ps b' ptr') ∧
    (¬pduFraming.Bounded (b.bytes.take ptr) →
      readPdusFromRecvBuffer b ptr = .error .assertion) := by
  rw [readPdus_readRest hk]
  exact readRest_deframes b hk []

theorem readPdus_ok {ps : List Pdu} {b' : Buffer bufferKsize} {ptr' : ℕ}
    (h : readPdusFromRecvBuffer b ptr = .ok (ps, b', ptr')) :
    pduFraming.Bounded (b.bytes.take ptr) ∧ Deframed (b.bytes.take ptr) ps b' ptr' := by
  have hk : ptr ≤ bufferKsize := by
    unfold readPdusFromRecvBuffer at h
    obtain ⟨_, hk, -⟩ := bind_eq_ok.1 h
    exact cAssert_eq_ok.1 hk
  obtain ⟨h1, h2⟩ := readPdus_eq b hk
  by_cases hB : pduFraming.Bounded (b.bytes.take ptr)
  · obtain ⟨ps₁, b₁, ptr₁, hok, hd⟩ := h1 hB
    rw [h] at hok
    cases hok
    exact ⟨hB, hd⟩
  · rw [h2 hB] at h
    cases h

/-- Nothing is cut off where no whole frame is left. -/
theorem readPdus_rest (hk : ptr ≤ bufferKsize) (hnw : ¬pduFraming.Whole (b.bytes.take ptr))
    (hB : pduFraming.Bounded (b.bytes.take ptr)) :
    readPdusFromRecvBuffer b ptr = .ok ([], b, ptr) := by
  rw [readPdus_readRest hk]
  unfold readRest
  by_cases h2 : pduHeaderLength ≤ ptr
  · rw [Framing.bounded_iff] at hB
    have hmax : pduFraming.header (b.bytes.take ptr) ≤ bufferKsize - pduHeaderLength :=
      hB.1 (by rw [unread_length hk]; exact h2)
    rw [if_pos h2, read_header h2 hk]
    simp only [bind, Except.bind, cAssert_ok hmax]
    rw [readPdusLoop, if_neg ((whole_iff hk).not.1 hnw)]
  · rw [if_neg h2]

/-- **A buffer is drained at once**: read again, it yields nothing and stays as it is. -/
theorem readPdus_again {ps : List Pdu} {b' : Buffer bufferKsize} {ptr' : ℕ}
    (h : readPdusFromRecvBuffer b ptr = .ok (ps, b', ptr')) :
    readPdusFromRecvBuffer b' ptr' = .ok ([], b', ptr') := by
  obtain ⟨hB, hd⟩ := readPdus_ok h
  refine readPdus_rest hd.ptr_le ?_ ?_
  · rw [hd.2.1]
    exact Framing.not_whole_rest _
  · rw [hd.2.1]
    exact hB.rest

/-! ## Reading a connection -/

/-- The bytes a `recv` delivered. -/
def RecvResult.data : RecvResult → Bytes
  | .bytes bs => bs
  | .socketError _ => []

/-- The results `read_data` reports a broken connection for. -/
def RecvResult.broken : RecvResult → Bool
  | .bytes bs => bs.isEmpty
  | .socketError err => err != wsaeWouldBlock

/-- The bytes received until the connection was reported broken. -/
def received : List RecvResult → Bytes
  | [] => []
  | r :: rs => if r.broken then [] else r.data ++ received rs

/-- Each `recv` delivers at most what it was asked for: the free space of the buffer. -/
def Fits (conn : Connection) : List RecvResult → Prop
  | [] => True
  | r :: rs => r.data.length ≤ bufferKsize - conn.rBufferPtr ∧
      ∀ pdus conn', receive conn r = .ok (true, pdus, conn') → Fits conn' rs

variable {conn : Connection} {r : RecvResult} {rs : List RecvResult}

theorem received_broken (hb : r.broken = true) (rs : List RecvResult) : received (r :: rs) = [] := by
  rw [received, hb]; rfl

theorem received_good (hb : r.broken = false) (rs : List RecvResult) :
    received (r :: rs) = r.data ++ received rs := by
  rw [received, hb]; rfl

/-- `read_data` appends what it received to the bytes in use. -/
theorem readData_good (hk : conn.rBufferPtr ≤ bufferKsize) (hb : r.broken = false)
    (hfit : r.data.length ≤ bufferKsize - conn.rBufferPtr) :
    ∃ conn', readData conn r = .ok (true, conn') ∧ conn'.unread = conn.unread ++ r.data ∧
      conn'.rBufferPtr ≤ bufferKsize := by
  unfold readData
  rw [cAssert_ok hk]
  match r, hb, hfit with
  | .socketError err, hb, _ =>
    have herr : (err == wsaeWouldBlock) = true := by simpa [RecvResult.broken] using hb
    exact ⟨conn, congrArg (fun ok => Except.ok (ok, conn)) herr, by simp [RecvResult.data], hk⟩
  | .bytes (x :: xs), _, hfit =>
    simp only [RecvResult.data] at hfit ⊢
    have hfit' : conn.rBufferPtr + (x :: xs).length ≤ bufferKsize := by omega
    obtain ⟨b', hb', hbytes⟩ := conn.rBuffer.write_ok conn.rBufferPtr (x :: xs) hfit'
    refine ⟨{ conn with rBuffer := b', rBufferPtr := conn.rBufferPtr + (x :: xs).length },
      ?_, ?_, hfit'⟩
    · simp only [bind, Except.bind, hb', cAssert_ok hfit']
    · have hl : (conn.rBuffer.bytes.take conn.rBufferPtr ++ (x :: xs)).length =
          conn.rBufferPtr + (x :: xs).length := by
        rw [List.length_append, unread_length hk]
      simp only [Connection.unread, hbytes]
      rw [← hl, List.take_left]

theorem readData_broken (hk : conn.rBufferPtr ≤ bufferKsize) (hb : r.broken = true) :
    readData conn r = .ok (false, conn) := by
  unfold readData
  rw [cAssert_ok hk]
  match r, hb with
  | .socketError err, hb =>
    have herr : (err == wsaeWouldBlock) = false := by simpa [RecvResult.broken] using hb
    exact congrArg (fun ok => Except.ok (ok, conn)) herr
  | .bytes [], _ => rfl

theorem receive_broken (hk : conn.rBufferPtr ≤ bufferKsize) (hb : r.broken = true) :
    receive conn r = .ok (false, [], conn) := by
  unfold receive
  rw [readData_broken hk hb]
  rfl

/-- What a readable connection yields: the frames completed, the rest kept in front. -/
theorem receive_good (hk : conn.rBufferPtr ≤ bufferKsize) (hb : r.broken = false)
    (hfit : r.data.length ≤ bufferKsize - conn.rBufferPtr) :
    (pduFraming.Bounded (conn.unread ++ r.data) → ∃ ps conn',
      receive conn r = .ok (true, ps, conn') ∧
        Deframed (conn.unread ++ r.data) ps conn'.rBuffer conn'.rBufferPtr) ∧
    (¬pduFraming.Bounded (conn.unread ++ r.data) → receive conn r = .error .assertion) := by
  obtain ⟨conn₁, hread, hun, hk₁⟩ := readData_good hk hb hfit
  obtain ⟨h1, h2⟩ := readPdus_eq conn₁.rBuffer hk₁
  unfold receive
  rw [hread, ← hun]
  refine ⟨fun hB => ?_, fun hB => ?_⟩
  · obtain ⟨ps, b', ptr', hok, hd⟩ := h1 hB
    refine ⟨ps, { conn₁ with rBuffer := b', rBufferPtr := ptr' }, ?_, hd⟩
    simp only [bind, Except.bind, if_true, hok]
  · simp only [bind, Except.bind, if_true, h2 hB]

/-- A first result that reports the connection broken ends the reading. -/
theorem receives_broken (hk : conn.rBufferPtr ≤ bufferKsize) (hb : r.broken = true)
    (rs : List RecvResult) : receives conn (r :: rs) = .ok (false, [], conn) := by
  rw [receives, receive_broken hk hb]
  rfl

theorem receives_good {ps : List Pdu} {conn' : Connection}
    (h : receive conn r = .ok (true, ps, conn')) {ok : Bool} {qs : List Pdu} {conn'' : Connection}
    (hs : receives conn' rs = .ok (ok, qs, conn'')) :
    receives conn (r :: rs) = .ok (ok, ps ++ qs, conn'') := by
  simp only [receives, h, bind, Except.bind, if_true, hs]

/-- **Reading a connection deframes what it sent**: while the headers are in range, the PDUs
extracted are the frames of all the bytes received, and the rest is in front of the buffer. -/
theorem receives_eq (rs : List RecvResult) : ∀ (conn : Connection),
    conn.rBufferPtr ≤ bufferKsize → Fits conn rs → ¬pduFraming.Whole conn.unread →
    pduFraming.WellHeaded (conn.unread ++ received rs) → ∃ ps conn',
      receives conn rs = .ok (rs.all (!·.broken), ps, conn') ∧
        Deframed (conn.unread ++ received rs) ps conn'.rBuffer conn'.rBufferPtr := by
  induction rs with
  | nil =>
    intro conn hk _ hnw _
    refine ⟨[], conn, rfl, ?_⟩
    rw [received, List.append_nil]
    exact deframed_rest hk rfl hnw
  | cons r rs ih =>
    intro conn hk hfit hnw hW
    cases hb : r.broken with
    | true =>
      refine ⟨[], conn, ?_, ?_⟩
      · rw [receives_broken hk hb, List.all_cons, hb]; rfl
      · rw [received_broken hb, List.append_nil]; exact deframed_rest hk rfl hnw
    | false =>
      rw [received_good hb, ← List.append_assoc] at hW ⊢
      have hW' := (Framing.wellHeaded_append _ _).1 hW
      obtain ⟨ps, conn₁, hrec, hd⟩ := (receive_good hk hb hfit.1).1 hW'.1.bounded
      -- what is left of the bytes so far is in front of the buffer, and the rest is read onto it
      have hun : conn₁.unread = (pduFraming.cut (conn.unread ++ r.data)).2 := hd.2.1
      obtain ⟨qs, conn₂, hrecs, hd'⟩ := ih conn₁ hd.ptr_le (hfit.2 _ _ hrec)
        (by rw [hun]; exact Framing.not_whole_rest _) (by rw [hun]; exact hW'.2)
      refine ⟨ps ++ qs, conn₂, ?_, ?_⟩
      · rw [receives_good hrec hrecs, List.all_cons, hb]; rfl
      · rw [hun] at hd'
        unfold Deframed at hd' ⊢
        rw [Framing.cut_append, List.map_append, hd.1, hd'.1]
        exact ⟨rfl, hd'.2⟩

/-! ## The stream of a well-behaved peer -/

/-- `f` is the frame `write_pdu_to_send_buffer` makes of `p` in some send buffer. -/
def SentAs (p : Pdu) (f : Bytes) : Prop :=
  ∃ b b' : Buffer bufferKsize, writePduToSendBuffer p b = .ok (b', f.length) ∧
    b'.bytes.take f.length = f

/-- The lengths `write_pdu_to_send_buffer` takes. -/
def Pdu.Sendable (p : Pdu) : Prop :=
  pduHeaderLength ≤ p.length ∧ p.length ≤ bufferKsize - pduHeaderLength

theorem Pdu.Sendable.frame_le {p : Pdu} (h : p.Sendable) : p.frame.length ≤ bufferKsize := by
  obtain ⟨-, hmax⟩ := h
  rw [Pdu.frame_length]
  simp only [pduHeaderLength, bufferKsize] at *
  omega

theorem SentAs.eq_frame {p : Pdu} {f : Bytes} (h : SentAs p f) (hp : p.Sendable) : f = p.frame := by
  obtain ⟨b, b', hb, htake⟩ := h
  obtain ⟨b'', hb', htake'⟩ := writePdu_ok hp.1 hp.2 b
  rw [hb'] at hb
  simp only [Except.ok.injEq, Prod.mk.injEq] at hb
  obtain ⟨rfl, hlen⟩ := hb
  rw [← htake, ← htake', hlen]

theorem sentAs_flatten {ps : List Pdu} {fs : List Bytes} (h : List.Forall₂ SentAs ps fs)
    (hps : ∀ p ∈ ps, p.Sendable) : fs.flatten = ((ps.map Pdu.buffer).map pduFraming.frame).flatten := by
  induction h with
  | nil => rfl
  | @cons p f ps fs hf _ ih =>
    rw [List.forall_mem_cons] at hps
    rw [List.flatten_cons, hf.eq_frame hps.1, ih hps.2]
    rfl

theorem sendable_payload {ps : List Pdu} (hps : ∀ p ∈ ps, p.Sendable) :
    ∀ bs ∈ ps.map Pdu.buffer, 0 < bs.length ∧ bs.length ≤ pduFraming.max := by
  intro bs hbs
  obtain ⟨p, hp, rfl⟩ := List.mem_map.1 hbs
  exact ⟨Nat.lt_of_lt_of_le (by decide) (hps p hp).1, (hps p hp).2⟩

theorem map_buffer_injective : Function.Injective (List.map Pdu.buffer) :=
  List.map_injective_iff.2 fun _ _ h => Pdu.ext h

theorem received_chunks {chunks : List Bytes} (hne : ∀ c ∈ chunks, c ≠ []) :
    received (chunks.map .bytes) = chunks.flatten ∧
      (chunks.map RecvResult.bytes).all (!·.broken) = true := by
  induction chunks with
  | nil => exact ⟨rfl, rfl⟩
  | cons c cs ih =>
    rw [List.forall_mem_cons] at hne
    have hb : (RecvResult.bytes c).broken = false := by
      cases c with
      | nil => exact absurd rfl hne.1
      | cons x xs => rfl
    rw [List.map_cons, received_good hb, (ih hne.2).1, List.all_cons, hb, (ih hne.2).2]
    exact ⟨rfl, rfl⟩

theorem fits_take {rs : List RecvResult} {conn : Connection} (h : Fits conn rs) (k : ℕ) :
    Fits conn (rs.take k) := by
  induction rs generalizing conn k with
  | nil => simpa using h
  | cons r rs ih =>
    cases k with
    | zero => trivial
    | succ k => exact ⟨h.1, fun ps conn' hr => ih (h.2 ps conn' hr) k⟩

theorem received_take (rs : List RecvResult) (k : ℕ) :
    received (rs.take k) <+: received rs := by
  induction rs generalizing k with
  | nil => rw [List.take_nil]
  | cons r rs ih =>
    cases k with
    | zero => exact List.nil_prefix
    | succ k =>
      rw [List.take_succ_cons]
      cases hb : r.broken with
      | true => rw [received_broken hb, received_broken hb]
      | false =>
        rw [received_good hb, received_good hb]
        exact (List.prefix_append_right_inj _).2 (ih k)

theorem wellHeaded_of_isPrefix {bs cs : Bytes} (h : pduFraming.WellHeaded cs)
    (hp : bs <+: cs) : pduFraming.WellHeaded bs := by
  obtain ⟨t, rfl⟩ := hp
  exact ((Framing.wellHeaded_append _ _).1 h).1

theorem unread_empty {conn : Connection} (h0 : conn.rBufferPtr = 0) : conn.unread = [] := by
  rw [Connection.unread, h0, List.take_zero]

/-- Reading a connection from its empty buffer, up to the `k`-th `recv`. -/
theorem receives_take {conn : Connection} (h0 : conn.rBufferPtr = 0) {rs : List RecvResult}
    (hfit : Fits conn rs) (hW : pduFraming.WellHeaded (received rs)) (k : ℕ) : ∃ ps conn',
      receives conn (rs.take k) = .ok ((rs.take k).all (!·.broken), ps, conn') ∧
        Deframed (received (rs.take k)) ps conn'.rBuffer conn'.rBufferPtr := by
  have h := receives_eq (rs.take k) conn (by rw [h0]; exact Nat.zero_le _)
    (fits_take hfit k) (by rw [unread_empty h0]; exact Framing.not_whole_nil)
  rw [unread_empty h0, List.nil_append] at h
  exact h (wellHeaded_of_isPrefix hW (received_take rs k))

/-- What is left of a well-headed stream leaves free space in the buffer. -/
theorem Deframed.ptr_lt {bs : Bytes} {ps : List Pdu} {b' : Buffer bufferKsize} {ptr' : ℕ}
    (h : Deframed bs ps b' ptr') (hW : pduFraming.WellHeaded bs) : ptr' < bufferKsize := by
  rw [h.2.2]
  exact ((Framing.completable_cut bs).1 hW).2.length_lt

/-- **Deframing does not depend on how the stream is cut.** Take the frames of a list of PDUs,
cut their concatenation into pieces that each fit the free space of the buffer, and read the
pieces one by one. The PDUs extracted over the whole run are the list. After every read the
PDUs extracted so far begin the list, the bytes in use are what their frames leave of the
bytes received, hold no whole frame, and do not fill the buffer. -/
theorem deframe_chunks {ps : List Pdu} (hps : ∀ p ∈ ps, p.Sendable) {fs : List Bytes}
    (hfs : List.Forall₂ SentAs ps fs) {chunks : List Bytes} (hne : ∀ c ∈ chunks, c ≠ [])
    (hcat : chunks.flatten = fs.flatten) {conn : Connection} (h0 : conn.rBufferPtr = 0)
    (hfit : Fits conn (chunks.map .bytes)) :
    (∃ conn', receives conn (chunks.map .bytes) = .ok (true, ps, conn')) ∧
    ∀ k, ∃ qs conn', receives conn ((chunks.take k).map .bytes) = .ok (true, qs, conn') ∧
      qs <+: ps ∧ (qs.map Pdu.frame).flatten ++ conn'.unread = (chunks.take k).flatten ∧
      ¬pduFraming.Whole conn'.unread ∧ conn'.unread.length = conn'.rBufferPtr ∧
      conn'.rBufferPtr < bufferKsize := by
  have hpay := sendable_payload hps
  have hrec : received (chunks.map .bytes) = ((ps.map Pdu.buffer).map pduFraming.frame).flatten := by
    rw [(received_chunks hne).1, hcat, sentAs_flatten hfs hps]
  have hW : pduFraming.WellHeaded (received (chunks.map .bytes)) := by
    rw [hrec]; exact Framing.wellHeaded_frames (by decide) hpay
  have hcut : pduFraming.cut (received (chunks.map .bytes)) = (ps.map Pdu.buffer, []) := by
    rw [hrec, Framing.cut_payloads hpay]
  -- what has been extracted after each read
  have key : ∀ k, ∃ qs conn', receives conn ((chunks.take k).map .bytes) = .ok (true, qs, conn') ∧
      Deframed (chunks.take k).flatten qs conn'.rBuffer conn'.rBufferPtr := by
    intro k
    obtain ⟨qs, conn', hok, hd⟩ := receives_take h0 hfit hW k
    have hne' : ∀ c ∈ chunks.take k, c ≠ [] := fun c hc => hne c (List.mem_of_mem_take hc)
    rw [← List.map_take, (received_chunks hne').2] at hok
    rw [← List.map_take, (received_chunks hne').1] at hd
    exact ⟨qs, conn', hok, hd⟩
  constructor
  · obtain ⟨qs, conn', hok, hd⟩ := key chunks.length
    rw [List.take_length] at hok hd
    rw [← (received_chunks hne).1] at hd
    have : qs = ps := map_buffer_injective (by rw [hd.1, hcut])
    exact ⟨conn', by rw [hok, this]⟩
  · intro k
    obtain ⟨qs, conn', hok, hd⟩ := key k
    have hpre : (chunks.take k).flatten ++ (chunks.drop k).flatten =
        received (chunks.map .bytes) := by
      rw [(received_chunks hne).1, ← List.flatten_append, List.take_append_drop]
    have hWk : pduFraming.WellHeaded (chunks.take k).flatten := by
      rw [← hpre] at hW; exact ((Framing.wellHeaded_append _ _).1 hW).1
    refine ⟨qs, conn', hok, ?_, ?_, ?_, ?_, hd.ptr_lt hWk⟩
    · -- the PDUs extracted from the whole stream begin with those of its first part
      rw [← hpre, Framing.cut_append, Prod.mk.injEq, ← hd.1] at hcut
      have hq : qs.map Pdu.buffer <+: ps.map Pdu.buffer := ⟨_, hcut.1⟩
      have hlen := hq.length_le
      rw [List.length_map, List.length_map] at hlen
      rw [List.prefix_iff_eq_take, List.length_map, ← List.map_take] at hq
      rw [List.prefix_iff_eq_take]
      exact map_buffer_injective hq
    · have := Framing.join_cut (F := pduFraming) (chunks.take k).flatten
      rw [← hd.1, ← hd.2.1, List.map_map] at this
      exact this
    · rw [Connection.unread, hd.2.1]; exact Framing.not_whole_rest _
    · rw [Connection.unread, hd.2.1, ← hd.2.2]

/-- Reads that deliver no more than the free space altogether fit. -/
theorem fits_of_total {rs : List RecvResult} : ∀ {conn : Connection}, conn.rBufferPtr ≤ bufferKsize →
    (rs.map (·.data.length)).sum ≤ bufferKsize - conn.rBufferPtr → Fits conn rs := by
  induction rs with
  | nil => intro _ _ _; trivial
  | cons r rs ih =>
    intro conn hk hsum
    rw [List.map_cons, List.sum_cons] at hsum
    refine ⟨by omega, ?_⟩
    intro ps conn' hrec
    cases hb : r.broken with
    | true => rw [receive_broken hk hb] at hrec; cases hrec
    | false =>
      have hgood := receive_good hk hb (by omega)
      by_cases hB : pduFraming.Bounded (conn.unread ++ r.data)
      · obtain ⟨qs, conn'', hok, hd⟩ := hgood.1 hB
        rw [hrec] at hok
        cases hok
        have hle := Framing.rest_length_le (F := pduFraming) (conn.unread ++ r.data)
        rw [← hd.2.2, List.length_append, Connection.unread, unread_length hk] at hle
        exact ih hd.ptr_le (by omega)
      · rw [hgood.2 hB] at hrec; cases hrec

/-- A two-byte PDU whose frame arrives with its header split. -/
theorem deframe_chunks_split :
    ∃ conn', receives (allocConnection 1) [.bytes [0], .bytes [2, 7], .bytes [9]] =
      .ok (true, [⟨[7, 9], by decide⟩], conn') := by
  have hs : Pdu.Sendable ⟨[7, 9], by decide⟩ := ⟨by decide, by decide⟩
  obtain ⟨b', hb'⟩ := writePdu_ok hs.1 hs.2 (Buffer.zero _)
  have hps : ∀ p ∈ [(⟨[7, 9], by decide⟩ : Pdu)], p.Sendable := by simpa using hs
  have hfs : List.Forall₂ SentAs [⟨[7, 9], by decide⟩] [[0, 2, 7, 9]] := .cons ⟨_, b', hb'⟩ .nil
  have hne : ∀ c ∈ ([[0], [2, 7], [9]] : List Bytes), c ≠ [] := by decide
  exact (deframe_chunks hps hfs hne (by decide) (rfl : (allocConnection 1).rBufferPtr = 0)
    (fits_of_total (by decide) (by decide))).1

/-! ## The stream of any peer -/

/-- After the reads `rs`, no assertion has failed, and either the connection was reported
broken, or the buffer has free space and starts with a frame later bytes can complete, and
the PDUs extracted account for all other bytes received. -/
def Unharmed (conn : Connection) (rs : List RecvResult) : Prop :=
  ∃ ok ps conn', receives conn rs = .ok (ok, ps, conn') ∧ (ok = true →
    conn'.rBufferPtr < bufferKsize ∧ pduFraming.Completable conn'.unread ∧
      (ps.map Pdu.frame).flatten ++ conn'.unread = received rs)

/-- A buffer that reading leaves completable has received a well-headed stream. -/
theorem wellHeaded_of_unharmed (rs : List RecvResult) : ∀ (conn : Connection),
    conn.rBufferPtr ≤ bufferKsize → Fits conn rs → ¬pduFraming.Whole conn.unread →
    (∀ k, ∃ ok ps conn', receives conn (rs.take k) = .ok (ok, ps, conn') ∧
      (ok = true → pduFraming.Completable conn'.unread)) →
    pduFraming.WellHeaded (conn.unread ++ received rs) := by
  induction rs with
  | nil =>
    intro conn _ _ hnw h
    obtain ⟨ok, ps, conn', hok, hc⟩ := h 0
    cases hok
    rw [received, List.append_nil, Framing.wellHeaded_rest hnw]
    exact hc rfl
  | cons r rs ih =>
    intro conn hk hfit hnw h
    cases hb : r.broken with
    | true =>
      obtain ⟨ok, ps, conn', hok, hc⟩ := h 0
      cases hok
      rw [received_broken hb, List.append_nil, Framing.wellHeaded_rest hnw]
      exact hc rfl
    | false =>
      have hgood := receive_good hk hb hfit.1
      by_cases hB : pduFraming.Bounded (conn.unread ++ r.data)
      · obtain ⟨ps, conn₁, hrec, hd⟩ := hgood.1 hB
        have hun : conn₁.unread = (pduFraming.cut (conn.unread ++ r.data)).2 := hd.2.1
        -- what is left after this read is completed or not by the later ones
        have hW := ih conn₁ hd.ptr_le (hfit.2 _ _ hrec)
          (by rw [hun]; exact Framing.not_whole_rest _) (fun k => by
            obtain ⟨ok, qs, conn', hok, hc⟩ := h (k + 1)
            rw [List.take_succ_cons] at hok
            simp only [receives, hrec, bind, Except.bind, if_true] at hok
            cases hr : receives conn₁ (rs.take k) with
            | error e => rw [hr] at hok; cases hok
            | ok res =>
              obtain ⟨ok', qs', conn''⟩ := res
              rw [hr] at hok
              cases hok
              exact ⟨ok', qs', conn'', rfl, hc⟩)
        obtain ⟨ok, qs, conn', hok, hc⟩ := h 1
        rw [List.take_succ_cons, List.take_zero, receives_good hrec rfl] at hok
        cases hok
        rw [received_good hb, ← List.append_assoc, Framing.wellHeaded_append, ← hun]
        refine ⟨(Framing.completable_cut _).2 ⟨hB, ?_⟩, hW⟩
        rw [← hun]; exact hc rfl
      · obtain ⟨ok, ps, conn', hok, -⟩ := h 1
        rw [List.take_succ_cons, List.take_zero, receives, hgood.2 hB] at hok
        cases hok

/-- **When a peer cannot abort or wedge the deframer.** Whatever a peer sends on a fresh
connection, in whatever pieces: after every read the deframer is unharmed, if and only if
every header in the stream, a last one cut short included, is (the beginning of) a length in
`1..BUFFER_KSIZE - PDU_HEADER_LENGTH`. -/
theorem deframer_safe_iff {conn : Connection} (h0 : conn.rBufferPtr = 0) {rs : List RecvResult}
    (hfit : Fits conn rs) :
    (∀ k, Unharmed conn (rs.take k)) ↔ pduFraming.WellHeaded (received rs) := by
  constructor
  · intro h
    have := wellHeaded_of_unharmed rs conn (by rw [h0]; exact Nat.zero_le _) hfit
      (by rw [unread_empty h0]; exact Framing.not_whole_nil) (fun k => by
        obtain ⟨ok, ps, conn', hok, hc⟩ := h k
        exact ⟨ok, ps, conn', hok, fun ht => (hc ht).2.1⟩)
    rwa [unread_empty h0, List.nil_append] at this
  · intro hW k
    obtain ⟨ps, conn', hok, hd⟩ := receives_take h0 hfit hW k
    have hWk := wellHeaded_of_isPrefix hW (received_take rs k)
    refine ⟨_, ps, conn', hok, fun _ => ⟨hd.ptr_lt hWk, ?_, ?_⟩⟩
    · rw [Connection.unread, hd.2.1]; exact ((Framing.completable_cut _).1 hWk).2
    · have := Framing.join_cut (F := pduFraming) (received (rs.take k))
      rw [← hd.1, ← hd.2.1, List.map_map] at this
      exact this

/-- A stream of one frame leaves the deframer unharmed. -/
theorem deframer_safe_frame :
    Unharmed (allocConnection 1) ([RecvResult.bytes [0, 2, 7, 9]].take 1) := by
  have hp : ∀ p ∈ ([[7, 9]] : List Bytes), 0 < p.length ∧ p.length ≤ pduFraming.max := by decide
  have hW : pduFraming.WellHeaded (received [.bytes [0, 2, 7, 9]]) :=
    Framing.wellHeaded_frames (by decide) hp
  exact (deframer_safe_iff rfl (fits_of_total (by decide) (by decide))).2 hW 1

/-- Two streams that do not: the header 65535 fails an assertion, and the header 0 stays in
front of the buffer for good. -/
theorem deframer_harmed :
    (Fits (allocConnection 1) [.bytes [255, 255]] ∧
      receives (allocConnection 1) [.bytes [255, 255]] = .error .assertion) ∧
    (Fits (allocConnection 1) [.bytes [0, 0]] ∧
      ¬Unharmed (allocConnection 1) [.bytes [0, 0]]) := by
  have hk : (allocConnection 1).rBufferPtr ≤ bufferKsize := Nat.zero_le _
  refine ⟨⟨fits_of_total hk (by decide), ?_⟩, fits_of_total hk (by decide), ?_⟩
  · have hB : ¬pduFraming.Bounded [255, 255] := by
      rw [Framing.bounded_iff]
      exact fun h => absurd (h.1 (by decide)) (by decide)
    have := (receive_good (r := .bytes [255, 255]) hk rfl (by decide)).2 hB
    rw [receives, this]
    rfl
  · rintro ⟨ok, ps, conn', hok, hc⟩
    have hnw : ¬pduFraming.Whole [0, 0] := by decide
    have hB : pduFraming.Bounded [0, 0] := by
      rw [Framing.bounded_iff]
      exact ⟨fun _ => by decide, fun h => absurd h hnw⟩
    obtain ⟨qs, conn₁, hrec, hd⟩ := (receive_good (r := .bytes [0, 0]) hk rfl (by decide)).1 hB
    rw [receives_good hrec rfl] at hok
    cases hok
    have hun : conn'.unread = [0, 0] := by
      rw [Connection.unread, hd.2.1]
      exact congrArg Prod.snd (Framing.cut_rest hnw)
    have hcomp := (hc rfl).2.1
    rw [hun, Framing.completable_iff hnw, Framing.headOK_iff (by decide)] at hcomp
    exact absurd hcomp.1 (by decide)

end Muxer

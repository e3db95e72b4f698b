import Muxer.Proof.Store

/-!
# The reader's part of the store

* `insertConnection_ok`: a client accepted.
* `receiveIn_ok`, `receiveOut_ok`: what is received from a connection, cut into PDUs.
* `readInRound_ok`, `readOutRound_ok`: a PDU becomes a message. Its entry in `pdus` stays there.
-/

namespace Muxer.Memory

open Lib OnHeap

variable {τ : Type} {s s' : Store} {L : Layout τ} {α β : Type}

/-- The program fails as the function on values does, and is related to it where that returns. -/
def Follows (R : β → α → Prop) (x : Except Stop β) : Except Fault α → Prop
  | .ok a => ∃ b, x = .ok b ∧ R b a
  | .error f => x = .error (.fault f)

theorem Follows.code_bind {γ : Type} {R : β → α → Prop} {y : Except Fault γ}
    {f : γ → Except Stop β} {g : γ → Except Fault α} (h : ∀ c, y = .ok c → Follows R (f c) (g c)) :
    Follows R (code y >>= f) (y >>= g) := by
  cases y with
  | ok c => exact h c rfl
  | error e => rfl

theorem Follows.bind {γ δ : Type} {Q : δ → γ → Prop} {R : β → α → Prop} {x : Except Stop δ}
    {y : Except Fault γ} {f : δ → Except Stop β} {g : γ → Except Fault α} (hxy : Follows Q x y)
    (h : ∀ d c, Q d c → Follows R (f d) (g c)) : Follows R (x >>= f) (y >>= g) := by
  cases y with
  | ok c =>
    obtain ⟨d, rfl, hQ⟩ := hxy
    exact h d c hQ
  | error e =>
    cases hxy
    rfl

/-! ## A client accepted -/

theorem insertConnection_ok (hr : Represents s L) (rt : Runtime) {socket : Socket}
    (hs : 0 < socket) : ∃ i : Item Connection, i.value = Muxer.allocConnection socket ∧
      ∃ s', insertConnection rt socket s = .ok s' ∧
        Represents s' { L with connections := L.connections ++ [i] } := by
  set o := rt.addr s.connectionBlocks with o_def
  set s₁ : Store := { s with
    connectionBlocks := s.connectionBlocks.set o (Muxer.allocConnection socket) } with s₁_def
  have hp : Pool s₁.queue s₁.queueEntries L.queue L.loose := hr.pool
  obtain ⟨a, s₂, s', halloc, hput, hq, hp'⟩ := enqueue_ok hp rt o .connections
  refine ⟨⟨a, o, Muxer.allocConnection socket⟩, rfl, s', ?_, ?_⟩
  · simp only [insertConnection, allocConnection, assertThat_ok hs, heap_ok, bind, Except.bind,
      ← o_def, ← s₁_def, halloc, hput]
  · have hblocks : Blocks s₁ { L with
        connections := L.connections ++ [⟨a, o, Muxer.allocConnection socket⟩] } := by
      refine { hr.toBlocks with connectionBlocks := ?_ }
      refine (hr.connectionBlocks.alloc (rt.fresh s.connectionBlocks) _).congr ?_
      simp only [cells_append, cells_cons, cells_nil, connectionCell]
      abel
    refine ⟨hblocks.requeue hq, ?_⟩
    convert hp' using 1
    funext k
    cases k <;> simp [Layout.queue, itemRef]

/-! ## What is received -/

def pduCell (i : Item Pdu) : Addr × Pdu := (i.object, i.value)

/-- PDUs put into `pdus`. -/
def Layout.read (L : Layout τ) (new : List (Item Pdu)) : Layout τ :=
  { L with cut := L.cut ++ new.map itemRef, pdus := L.pdus ++ new.map pduCell }

/-- A PDU cut off, and put into `pdus`. -/
theorem cutPdu_ok (hr : Represents s L) (rt : Runtime) (pdu : Pdu) :
    ∃ a o s₁ s₂ s', newPdu rt pdu s = (some o, s₁) ∧ qAlloc rt (some o) s₁ = .ok (some a, s₂) ∧
      qPut rt .pdus (some a) s₂ = .ok s' ∧ Represents s' (L.read [⟨a, o, pdu⟩]) := by
  obtain ⟨o, s₁, hnew, hr₁⟩ := newPdu_ok hr rt pdu
  have hL : ∀ a, Rearranged { L with pdus := (o, pdu) :: L.pdus } (L.read [⟨a, o, pdu⟩]) := by
    refine fun a => ⟨rfl, rfl, ?_, rfl, rfl, rfl, rfl⟩
    simp only [Layout.pduCells, Layout.read, pduCell, cells_append, cells_cons, cells_nil,
      List.map_cons, List.map_nil]
    abel
  have hqueue : ∀ a, (L.read [⟨a, o, pdu⟩]).queue =
      Function.update L.queue .pdus (L.queue .pdus ++ [(a, o)]) := by
    intro a
    funext k
    cases k <;> simp [Layout.queue, Layout.read, itemRef]
  obtain ⟨a, s₂, s', halloc, hput, hr'⟩ := put_ok hr₁ rt o .pdus hL hqueue fun _ => rfl
  exact ⟨a, o, s₁, s₂, s', hnew, halloc, hput, hr'⟩

theorem Layout.read_read (L : Layout τ) (new new' : List (Item Pdu)) :
    (L.read new).read new' = L.read (new ++ new') := by
  simp [Layout.read]

theorem Layout.read_nil (L : Layout τ) : L.read [] = L := by
  simp [Layout.read]

/-- What the loop has made of the buffer, and the PDUs it has cut off. -/
def CutInto (L : Layout τ) {n : ℕ} (pdus : List Pdu) (x : Buffer n × ℕ × Store)
    (y : List Pdu × Buffer n × ℕ) : Prop :=
  ∃ new : List (Item Pdu), y = (pdus ++ new.map Item.value, x.1, x.2.1) ∧
    Represents x.2.2 (L.read new)

/-- One PDU was cut off before. -/
theorem Follows.cut {n : ℕ} {pdus : List Pdu} {i : Item Pdu}
    {x : Except Stop (Buffer n × ℕ × Store)} {y : Except Fault (List Pdu × Buffer n × ℕ)}
    (h : Follows (CutInto (L.read [i]) (pdus ++ [i.value])) x y) :
    Follows (CutInto L pdus) x y := by
  cases y with
  | error f => exact h
  | ok y =>
    obtain ⟨b, hx, new, hy, hr⟩ := h
    refine ⟨b, hx, i :: new, ?_, ?_⟩
    · rw [hy, List.append_assoc]
      rfl
    · rwa [Layout.read_read] at hr

theorem readPdusLoop_follows (rt : Runtime) {n : ℕ} (usHLen : ℕ) (recvbuf : Buffer n) (ptr : ℕ)
    (pdus : List Pdu) (hr : Represents s L) : Follows (CutInto L pdus)
      (readPdusLoop rt usHLen recvbuf ptr s) (Muxer.readPdusLoop usHLen recvbuf ptr pdus) := by
  fun_induction Muxer.readPdusLoop usHLen recvbuf ptr pdus generalizing s L with
  | case1 usHLen recvbuf ptr pdus hcond ih =>
    rw [readPdusLoop, if_pos hcond]
    refine Follows.code_bind fun pdu _ => ?_
    obtain ⟨a, o, s₁, s₂, s', hnew, halloc, hput, hr'⟩ := cutPdu_ok hr rt pdu
    simp only [hnew]
    refine Follows.code_bind fun rest _ => Follows.code_bind fun recvbuf' _ =>
      Follows.code_bind fun _ _ => ?_
    simp only [halloc, hput, bind, Except.bind]
    split
    · refine Follows.code_bind fun usHLen' _ => Follows.code_bind fun _ _ => ?_
      exact (ih pdu recvbuf' usHLen' hr').cut
    · refine ⟨_, rfl, [⟨a, o, pdu⟩], rfl, hr'⟩
  | case2 usHLen recvbuf ptr pdus hcond =>
    rw [readPdusLoop, if_neg hcond]
    exact ⟨_, rfl, [], by simp, by rwa [Layout.read_nil]⟩

theorem readPdusFromRecvBuffer_follows (hr : Represents s L) (rt : Runtime) {n : ℕ}
    (recvbuf : Buffer n) (ptr : ℕ) : Follows (CutInto L [])
      (readPdusFromRecvBuffer rt recvbuf ptr s) (Muxer.readPdusFromRecvBuffer recvbuf ptr) := by
  unfold readPdusFromRecvBuffer Muxer.readPdusFromRecvBuffer
  refine Follows.code_bind fun _ _ => ?_
  split
  · exact ⟨_, rfl, [], rfl, by rwa [Layout.read_nil]⟩
  · refine Follows.code_bind fun usHLen _ => Follows.code_bind fun _ _ => ?_
    exact readPdusLoop_follows rt usHLen recvbuf ptr [] hr

/-- The entries of an earlier call are left where they are. -/
theorem forgetPdus_ok (hr : Represents s L) : Represents (s.setQueue .empty .pdus)
    { L with cut := [], loose := L.cut.map Prod.fst ++ L.loose } := by
  have hqueue : ({ L with cut := [], loose := L.cut.map Prod.fst ++ L.loose } : Layout τ).queue =
      Function.update L.queue .pdus [] := by
    funext k
    cases k <;> rfl
  refine { hr with pool := ?_ }
  rw [queue_setQueue, queueEntries_setQueue, hqueue]
  exact hr.pool.forget .pdus

/-- What a read of a connection comes to: whether it is good, and the PDUs put into `pdus`. -/
def Received (L : Layout τ) (layout : Connection → Layout τ) (x : Bool × Store)
    (y : Bool × List Pdu × Connection) : Prop :=
  ∃ new : List (Item Pdu), y.1 = x.1 ∧ y.2.1 = new.map Item.value ∧
    Represents x.2 (if x.1 then
      { layout y.2.2 with
        cut := new.map itemRef, pdus := L.pdus ++ new.map pduCell
        loose := L.cut.map Prod.fst ++ L.loose }
      else layout y.2.2)

theorem receiveIn_follows (hr : Represents s L) (rt : Runtime) {xs ys : List (Item Connection)}
    {i : Item Connection} (hL : L.connections = xs ++ i :: ys) (r : RecvResult) :
    Follows (Received L fun conn => { L with connections := xs ++ { i with value := conn } :: ys })
      (receiveIn rt (some i.object) r s) (receive i.value r) := by
  have hi : i ∈ L.connections := by simp [hL]
  unfold receiveIn readDataIn receive
  simp only [load_connection hr hi, heap_ok, bind_assoc, ok_bind]
  refine Follows.code_bind fun x _ => ?_
  obtain ⟨ok, conn⟩ := x
  have hr₁ := setConnection_ok hr hL conn
  simp only [update_connection hr hi, heap_ok, ok_bind]
  cases ok with
  | false => exact ⟨_, rfl, [], rfl, rfl, hr₁⟩
  | true =>
    have hr₂ := forgetPdus_ok hr₁
    have hi₂ : { i with value := conn } ∈ xs ++ { i with value := conn } :: ys := by simp
    have hload := load_connection hr₂ hi₂
    simp only [if_true, readDataFromInBuffer, hload, heap_ok, ok_bind, bind_assoc]
    refine (readPdusFromRecvBuffer_follows hr₂ rt conn.rBuffer conn.rBufferPtr).bind ?_
    rintro ⟨rBuffer, rBufferPtr, s₃⟩ ⟨pdus, y⟩ ⟨new, hy, hr₃⟩
    obtain ⟨rfl, rfl⟩ := Prod.mk.injEq .. ▸ hy
    simp only [update_connection hr₃ hi₂, heap_ok, ok_bind]
    exact ⟨_, rfl, new, rfl, rfl, setConnection_ok hr₃ rfl _⟩

theorem receiveOut_follows (hr : Represents s L) (rt : Runtime) (r : RecvResult) :
    Follows (Received L fun conn => { L with outConnection := conn })
      (receiveOut rt r s) (receive L.outConnection r) := by
  unfold receiveOut readDataOut receive
  simp only [hr.outConnection, bind_assoc, ok_bind]
  refine Follows.code_bind fun x _ => ?_
  obtain ⟨ok, conn⟩ := x
  have hr₁ : Represents { s with outConnection := conn } { L with outConnection := conn } :=
    { hr with outConnection := rfl }
  cases ok with
  | false => exact ⟨_, rfl, [], rfl, rfl, hr₁⟩
  | true =>
    have hr₂ := forgetPdus_ok hr₁
    simp only [if_true, readDataFromOutBuffer, ok_bind, bind_assoc]
    refine (readPdusFromRecvBuffer_follows hr₂ rt conn.rBuffer conn.rBufferPtr).bind ?_
    rintro ⟨rBuffer, rBufferPtr, s₃⟩ ⟨pdus, y⟩ ⟨new, hy, hr₃⟩
    obtain ⟨rfl, rfl⟩ := Prod.mk.injEq .. ▸ hy
    have hconn : s₃.outConnection = conn := hr₃.outConnection
    simp only [hconn]
    exact ⟨_, rfl, new, rfl, rfl, { hr₃ with outConnection := rfl }⟩

/-! ## PDUs become messages -/

section

variable {cut : List (Addr × Addr)} {n : Item Pdu} {new : List (Item Pdu)}

theorem readInRound_ok (hr : Represents s L) (rt : Runtime) {i : Item Connection}
    (hi : i ∈ L.connections) (hs : 0 < i.value.socket)
    (hcut : L.cut = cut ++ itemRef n :: new.map itemRef)
    (hpdus : L.pdus = pduCell n :: new.map pduCell) (tag : τ) :
    ∃ o a s', readInRound rt (some i.object) n.entry s = .ok ((new.map Item.entry).head?, s') ∧
      Represents s' { L with
        rInMessages := L.rInMessages ++ [⟨⟨o, n.object, ⟨i.value.socket, n.value, tag⟩⟩, a⟩]
        pdus := new.map pduCell } := by
  obtain ⟨e, he, href, -⟩ := load_entry (k := .pdus) hr hcut
  obtain ⟨o, s₁, halloc, hr₁⟩ := allocInMessage_ok hr rt hs hpdus tag
  obtain ⟨a, s₂, s', hentry, hput, hr'⟩ := putRIn_ok hr₁ rt rfl
  obtain ⟨e', he', -, hnext⟩ := load_entry (k := .pdus) hr' hcut
  refine ⟨o, a, s', ?_, hr'⟩
  simp only [readInRound, he, href, load_connection hr hi, halloc, hentry, hput, he', hnext,
    head_refs, heap_ok, ok_bind]

theorem readOutRound_ok (hr : Represents s L) (rt : Runtime)
    (hcut : L.cut = cut ++ itemRef n :: new.map itemRef)
    (hpdus : L.pdus = pduCell n :: new.map pduCell) (tag : τ) :
    ∃ o a s', readOutRound rt n.entry s = .ok ((new.map Item.entry).head?, s') ∧
      Represents s' { L with
        rOutMessages := L.rOutMessages ++ [⟨⟨o, n.object, ⟨n.value, tag⟩⟩, a⟩]
        pdus := new.map pduCell } := by
  obtain ⟨e, he, href, -⟩ := load_entry (k := .pdus) hr hcut
  obtain ⟨o, s₁, halloc, hr₁⟩ := allocOutMessage_ok hr rt hpdus tag
  obtain ⟨a, s₂, s', hentry, hput, hr'⟩ := putROut_ok hr₁ rt rfl
  obtain ⟨e', he', -, hnext⟩ := load_entry (k := .pdus) hr' hcut
  refine ⟨o, a, s', ?_, hr'⟩
  simp only [readOutRound, he, href, halloc, hentry, hput, he', hnext, head_refs, heap_ok, ok_bind]

end

end Muxer.Memory

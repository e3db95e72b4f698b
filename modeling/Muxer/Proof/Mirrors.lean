import Muxer.Proof.Reads
import Muxer.Proof.StoreCleanup
import Muxer.Proof.StoreProcessing
import Muxer.Proof.StoreReader
import Muxer.Proof.StoreWriter
import Muxer.System.Memory

/-!
# What is in memory is a session

`Simulates w v L`: the memory of `w` is laid out as `L`, and what is there, with what the threads
hold, is the session `v`.

What the steps do in memory, one lemma for each: where the session takes the step, its function
runs on the memory, and what it leaves there is the session's next state (`Mirrors`).
-/

namespace Muxer.Memory

open Lib OnHeap
open Session (Sound)

/-! ## Along a queue -/

section

variable {τ : Type} {s : Store} {L : Layout τ}

theorem entryFrom_ok (hr : Represents s L) {k : QueueName} (i : ℕ) {xs ys : List (Addr × Addr)}
    (hk : L.queue k = xs ++ ys) :
    entryFrom s i (ys.map Prod.fst).head? = .ok ((ys.map Prod.fst)[i]?) := by
  induction ys generalizing xs i with
  | nil => cases i <;> rfl
  | cons y ys ih =>
    obtain _ | i := i
    · rfl
    · obtain ⟨e, he, -, hnext⟩ := load_entry hr hk
      have hk' : L.queue k = (xs ++ [y]) ++ ys := by simp [hk]
      simp only [List.map_cons, List.head?_cons, entryFrom, he, heap_ok, ok_bind, hnext, ih i hk',
        List.getElem?_cons_succ]

theorem entryAt_ok (hr : Represents s L) (k : QueueName) (i : ℕ) :
    entryFrom s i (s.queue k).head = .ok (((L.queue k).map Prod.fst)[i]?) := by
  rw [(hr.pool.queues k).head]
  exact entryFrom_ok hr i (List.nil_append _).symm

theorem connectionAt_ok (hr : Represents s L) (i : ℕ) :
    connectionAt s i = .ok (L.connections[i]?.map fun c => (some c.object, c.value)) := by
  have hhead : s.connections = s.queue .connections := rfl
  have hk : (L.queue .connections).map Prod.fst = L.connections.map Item.entry := entries_items _
  unfold connectionAt
  rw [hhead, entryAt_ok hr, hk, List.getElem?_map]
  cases hi : L.connections[i]? with
  | none => rfl
  | some c =>
    have hne : some c.object ≠ (none : Ptr) := Option.some_ne_none _
    have hentry : some c.entry ≠ (none : Ptr) := Option.some_ne_none _
    have hmem := List.mem_of_getElem? hi
    obtain ⟨xs, ys, hL⟩ := List.append_of_mem hmem
    obtain ⟨e, he, href, -⟩ := load_connectionEntry hr hL
    simp only [Option.map_some, ok_bind, if_pos hentry, he, href, assertThat_ok hne,
      load_connection hr hmem, heap_ok]

theorem hasClient_iff (hr : Represents s L) (socket : Socket) :
    HasClient s socket ↔ socket ∈ L.mux.connections.map Connection.socket := by
  unfold HasClient
  simp only [connectionAt_ok hr, Except.ok.injEq, Option.map_eq_some_iff]
  constructor
  · rintro ⟨i, p, conn, ⟨c, hc, heq⟩, rfl⟩
    cases heq
    exact List.mem_map_of_mem (List.mem_map_of_mem (List.mem_of_getElem? hc))
  · intro h
    obtain ⟨conn, hconn, rfl⟩ := List.mem_map.1 h
    obtain ⟨c, hc, rfl⟩ := List.mem_map.1 hconn
    obtain ⟨i, hi⟩ := List.getElem?_of_mem hc
    exact ⟨i, some c.object, c.value, ⟨c, hi, rfl⟩, rfl⟩

/-- An item of a list, with those before and after it. -/
theorem split_at {ι : Type} {items : List ι} {i : ℕ} {c : ι} (hi : items[i]? = some c) :
    ∃ xs ys, items = xs ++ c :: ys ∧ xs.length = i := by
  obtain ⟨hlt, hget⟩ := List.getElem?_eq_some_iff.1 hi
  refine ⟨items.take i, items.drop (i + 1), ?_, List.length_take_of_le hlt.le⟩
  rw [← hget, List.getElem_cons_drop, List.take_append_drop]

/-- The `i`-th connection, and what it is to change it. -/
theorem connections_split {i : ℕ} {c : Item Connection} (hi : L.connections[i]? = some c) :
    ∃ xs ys, L.connections = xs ++ c :: ys ∧ L.mux.connections[i]? = some c.value ∧ ∀ conn,
      (xs ++ { c with value := conn } :: ys).map Item.value = L.mux.connections.set i conn := by
  obtain ⟨xs, ys, hL, rfl⟩ := split_at hi
  refine ⟨xs, ys, hL, ?_, fun conn => ?_⟩
  · simp [Layout.mux, hL]
  · simp [Layout.mux, hL]

end

/-! ## What the threads hold -/

/-- The reader is where it is in the session, with its PDUs in hand. -/
inductive ReaderAt (L : Layout ℕ) : ReaderPc → Muxer.ReaderPc → Prop
  | idle : L.pdus = [] → ReaderAt L .idle .idle
  | accepted (s) : L.pdus = [] → ReaderAt L (.accepted s) (.accepted s)
  | puttingIn (i : Item Connection) (cut) (new : List (Item Pdu)) : i ∈ L.connections →
      L.cut = cut ++ new.map itemRef → L.pdus = new.map pduCell → ReaderAt L
        (.puttingIn (some i.object) (new.map Item.entry).head?)
        (.puttingIn i.value.socket (new.map Item.value))
  | puttingOut (cut) (new : List (Item Pdu)) : L.cut = cut ++ new.map itemRef →
      L.pdus = new.map pduCell →
      ReaderAt L (.puttingOut (new.map Item.entry).head?) (.puttingOut (new.map Item.value))

/-- The processing thread is where it is in the session, with its message in hand. -/
inductive ProcessingAt (L : Layout ℕ) : ProcessingPc → Muxer.ProcessingPc → Prop
  | idle : L.ins = [] → L.outs = [] → ProcessingAt L .idle .idle
  | taken (b) : L.ins = [b] → L.outs = [] → ProcessingAt L (.taken (some b.object)) (.taken b.value)
  | mapped (b q) : L.ins = [b] → L.outs = [] →
      ProcessingAt L (.mapped (some b.object) q) (.mapped b.value q)
  | response (b) : L.ins = [] → L.outs = [b] →
      ProcessingAt L (.response (some b.object)) (.response b.value)

/-- The memory, laid out as `L`, is that of the session. -/
structure Simulates (w : State) (v : Session.State) (L : Layout ℕ) : Prop where
  represents : Represents w.store L
  mux : v.mux = L.mux
  opened : v.opened = w.opened
  dropping : v.dropping = w.dropping
  reader : ReaderAt L w.reader v.reader
  processing : ProcessingAt L w.processing v.processing

/-- Nothing is allocated at the start. -/
def Layout.start : Layout ℕ :=
  ⟨[], [], [], [], [], [], [], [], [], [], [], 0, Muxer.allocConnection 0⟩

theorem simulates_start : Simulates .start .start .start := by
  have hqueue : Store.start.queue = fun _ => .empty := by
    funext k
    cases k <;> rfl
  have hentries : Layout.start.queue = fun _ => [] := by
    funext k
    cases k <;> rfl
  refine ⟨⟨⟨.empty, .empty, .empty, .empty, .empty, rfl, rfl⟩, ?_⟩, rfl, rfl, rfl, .idle rfl,
    .idle rfl rfl⟩
  change Pool Store.start.queue .empty Layout.start.queue []
  rw [hqueue, hentries]
  exact Pool.start

/-- The entries that are in no queue but `pdus`: those the reader is along, and those lost. -/
def Layout.left (L : Layout ℕ) : ℕ := L.cut.length + L.loose.length

/-- The PDUs the reader is still to make messages of. -/
def toPut : Muxer.ReaderPc → ℕ
  | .puttingIn _ pdus => pdus.length
  | .puttingOut pdus => pdus.length
  | _ => 0

/-- The PDUs a step makes messages of. -/
def Action.puts : Action → ℕ
  | .putIn => 1
  | .putOut => 1
  | _ => 0

/-- The memory is then that of the session's next state; no entry is lost but that of a PDU. -/
def Mirrors (v : Session.State) (L : Layout ℕ) (a : Action) (v' : Session.State) (w' : State) :
    Prop :=
  ∃ L', Simulates w' v' L' ∧ L'.left + toPut v.reader = L.left + toPut v'.reader + a.puts

section

variable {w w' : State} {v v' : Session.State} {L L' : Layout ℕ} {a : Action}

theorem ReaderAt.congr {r : ReaderPc} {r' : Muxer.ReaderPc} (h : ReaderAt L r r')
    (hpdus : L'.pdus = L.pdus) (hcut : L'.cut = L.cut) (hconns : L'.connections = L.connections) :
    ReaderAt L' r r' := by
  cases h with
  | idle h => exact .idle (hpdus.trans h)
  | accepted s h => exact .accepted s (hpdus.trans h)
  | puttingIn i cut new hi hc hp =>
    exact .puttingIn i cut new (hconns ▸ hi) (hcut.trans hc) (hpdus.trans hp)
  | puttingOut cut new hc hp => exact .puttingOut cut new (hcut.trans hc) (hpdus.trans hp)

/-- The connections may change while the reader is not at one. -/
theorem ReaderAt.free {r : ReaderPc} {r' : Muxer.ReaderPc} (h : ReaderAt L r r')
    (hne : ∀ p qe, r ≠ .puttingIn p qe) (hpdus : L'.pdus = L.pdus) (hcut : L'.cut = L.cut) :
    ReaderAt L' r r' := by
  cases h with
  | idle h => exact .idle (hpdus.trans h)
  | accepted s h => exact .accepted s (hpdus.trans h)
  | puttingIn i cut new => exact absurd rfl (hne _ _)
  | puttingOut cut new hc hp => exact .puttingOut cut new (hcut.trans hc) (hpdus.trans hp)

theorem ProcessingAt.congr {r : ProcessingPc} {r' : Muxer.ProcessingPc} (h : ProcessingAt L r r')
    (hins : L'.ins = L.ins) (houts : L'.outs = L.outs) : ProcessingAt L' r r' := by
  cases h with
  | idle hi ho => exact .idle (hins.trans hi) (houts.trans ho)
  | taken b hi ho => exact .taken b (hins.trans hi) (houts.trans ho)
  | mapped b q hi ho => exact .mapped b q (hins.trans hi) (houts.trans ho)
  | response b hi ho => exact .response b (hins.trans hi) (houts.trans ho)

/-- The head of `pdus`. -/
theorem pdus_head {s : Store} {new : List (Item Pdu)} (hr : Represents s L)
    (hcut : L.cut = new.map itemRef) : s.pdus.head = (new.map Item.entry).head? := by
  have hq := (hr.pool.queues .pdus).head
  rw [Layout.queue, hcut, entries_items] at hq
  exact hq

namespace Simulates

/-! ## Where the threads are -/

theorem drops_iff (h : Simulates w v L) {t : Thread} : w.Drops t ↔ v.Drops t := by
  unfold State.Drops Session.State.Drops
  rw [h.dropping]

theorem reader_idle (h : Simulates w v L) (hi : v.reader = .idle) :
    w.reader = .idle ∧ L.pdus = [] := by
  have hreader := h.reader
  rw [hi] at hreader
  generalize w.reader = r at hreader ⊢
  cases hreader with
  | idle hp => exact ⟨rfl, hp⟩

theorem reader_of_idle (h : Simulates w v L) (hi : w.reader = .idle) : v.reader = .idle := by
  have hreader := h.reader
  rw [hi] at hreader
  generalize v.reader = r at hreader ⊢
  cases hreader with
  | idle hp => rfl

theorem reader_accepted (h : Simulates w v L) {s : Socket} (hi : v.reader = .accepted s) :
    w.reader = .accepted s ∧ L.pdus = [] := by
  have hreader := h.reader
  rw [hi] at hreader
  generalize w.reader = r at hreader ⊢
  cases hreader with
  | accepted s hp => exact ⟨rfl, hp⟩

theorem reader_of_accepted (h : Simulates w v L) {s : Socket} (hi : w.reader = .accepted s) :
    v.reader = .accepted s := by
  have hreader := h.reader
  rw [hi] at hreader
  generalize v.reader = r at hreader ⊢
  cases hreader with
  | accepted s hp => rfl

/-- The reader along `pdus`, from a client: it is at an entry as long as there are PDUs. -/
theorem reader_puttingIn (h : Simulates w v L) {s : Socket} {ps : List Pdu}
    (hi : v.reader = .puttingIn s ps) :
    ∃ (i : Item Connection) (cut : List (Addr × Addr)) (new : List (Item Pdu)),
      i ∈ L.connections ∧ i.value.socket = s ∧ new.map Item.value = ps ∧
      w.reader = .puttingIn (some i.object) (new.map Item.entry).head? ∧
      L.cut = cut ++ new.map itemRef ∧ L.pdus = new.map pduCell := by
  have hreader := h.reader
  rw [hi] at hreader
  generalize w.reader = r at hreader ⊢
  cases hreader with
  | puttingIn i cut new hmem hcut hpdus =>
    exact ⟨i, cut, new, hmem, rfl, rfl, rfl, hcut, hpdus⟩

theorem reader_of_puttingIn (h : Simulates w v L) {p qe : Ptr} (hi : w.reader = .puttingIn p qe) :
    ∃ s ps, v.reader = .puttingIn s ps ∧ (qe = none ↔ ps = []) := by
  have hreader := h.reader
  rw [hi] at hreader
  generalize v.reader = r at hreader ⊢
  cases hreader with
  | puttingIn i cut new => exact ⟨_, _, rfl, by cases new <;> simp⟩

theorem reader_puttingOut (h : Simulates w v L) {ps : List Pdu} (hi : v.reader = .puttingOut ps) :
    ∃ (cut : List (Addr × Addr)) (new : List (Item Pdu)), new.map Item.value = ps ∧
      w.reader = .puttingOut (new.map Item.entry).head? ∧
      L.cut = cut ++ new.map itemRef ∧ L.pdus = new.map pduCell := by
  have hreader := h.reader
  rw [hi] at hreader
  generalize w.reader = r at hreader ⊢
  cases hreader with
  | puttingOut cut new hcut hpdus => exact ⟨cut, new, rfl, rfl, hcut, hpdus⟩

theorem reader_of_puttingOut (h : Simulates w v L) {qe : Ptr} (hi : w.reader = .puttingOut qe) :
    ∃ ps, v.reader = .puttingOut ps ∧ (qe = none ↔ ps = []) := by
  have hreader := h.reader
  rw [hi] at hreader
  generalize v.reader = r at hreader ⊢
  cases hreader with
  | puttingOut cut new => exact ⟨_, rfl, by cases new <;> simp⟩

theorem connectionsFree_iff (h : Simulates w v L) : w.ConnectionsFree ↔ v.ConnectionsFree := by
  unfold State.ConnectionsFree Session.State.ConnectionsFree
  rw [h.dropping]
  refine and_congr_right fun _ => ⟨fun hne s ps heq => ?_, fun hne p qe heq => ?_⟩
  · obtain ⟨i, cut, new, -, -, -, hr, -⟩ := h.reader_puttingIn heq
    exact hne _ _ hr
  · obtain ⟨s, ps, hr, -⟩ := h.reader_of_puttingIn heq
    exact hne _ _ hr

theorem processing_idle (h : Simulates w v L) (hi : v.processing = .idle) :
    w.processing = .idle ∧ L.ins = [] ∧ L.outs = [] := by
  have hprocessing := h.processing
  rw [hi] at hprocessing
  generalize w.processing = r at hprocessing ⊢
  cases hprocessing with
  | idle hins houts => exact ⟨rfl, hins, houts⟩

theorem processing_of_idle (h : Simulates w v L) (hi : w.processing = .idle) :
    v.processing = .idle := by
  have hprocessing := h.processing
  rw [hi] at hprocessing
  generalize v.processing = r at hprocessing ⊢
  cases hprocessing with
  | idle hins houts => rfl

/-- The message in the processing thread's hands. -/
theorem processing_taken (h : Simulates w v L) {r : InMessage ℕ} (hi : v.processing = .taken r) :
    ∃ b : Block (InMessage ℕ), b.value = r ∧ w.processing = .taken (some b.object) ∧
      L.ins = [b] ∧ L.outs = [] := by
  have hprocessing := h.processing
  rw [hi] at hprocessing
  generalize w.processing = pc at hprocessing ⊢
  cases hprocessing with
  | taken b hins houts => exact ⟨b, rfl, rfl, hins, houts⟩

theorem processing_of_taken (h : Simulates w v L) {p : Ptr} (hi : w.processing = .taken p) :
    ∃ r, v.processing = .taken r := by
  have hprocessing := h.processing
  rw [hi] at hprocessing
  generalize v.processing = pc at hprocessing ⊢
  cases hprocessing with
  | taken b hins houts => exact ⟨_, rfl⟩

theorem processing_mapped (h : Simulates w v L) {r : InMessage ℕ} {q : InputType}
    (hi : v.processing = .mapped r q) :
    ∃ b : Block (InMessage ℕ), b.value = r ∧ w.processing = .mapped (some b.object) q ∧
      L.ins = [b] ∧ L.outs = [] := by
  have hprocessing := h.processing
  rw [hi] at hprocessing
  generalize w.processing = pc at hprocessing ⊢
  cases hprocessing with
  | mapped b q hins houts => exact ⟨b, rfl, rfl, hins, houts⟩

theorem processing_of_mapped (h : Simulates w v L) {p : Ptr} {q : InputType}
    (hi : w.processing = .mapped p q) : ∃ r, v.processing = .mapped r q := by
  have hprocessing := h.processing
  rw [hi] at hprocessing
  generalize v.processing = pc at hprocessing ⊢
  cases hprocessing with
  | mapped b q hins houts => exact ⟨_, rfl⟩

theorem processing_response (h : Simulates w v L) {p : OutMessage ℕ}
    (hi : v.processing = .response p) :
    ∃ b : Block (OutMessage ℕ), b.value = p ∧ w.processing = .response (some b.object) ∧
      L.ins = [] ∧ L.outs = [b] := by
  have hprocessing := h.processing
  rw [hi] at hprocessing
  generalize w.processing = pc at hprocessing ⊢
  cases hprocessing with
  | response b hins houts => exact ⟨b, rfl, rfl, hins, houts⟩

theorem processing_of_response (h : Simulates w v L) {p : Ptr} (hi : w.processing = .response p) :
    ∃ r, v.processing = .response r := by
  have hprocessing := h.processing
  rw [hi] at hprocessing
  generalize v.processing = pc at hprocessing ⊢
  cases hprocessing with
  | response b hins houts => exact ⟨_, rfl⟩

theorem nodup (h : Simulates w v L) (hv : Sound v) :
    (L.connections.map (·.value.socket)).Nodup := by
  have hnd := hv.clients.nodup
  rw [Session.State.sockets, h.mux, Layout.mux, List.map_map] at hnd
  exact hnd

/-- The `i`-th connection in memory. -/
theorem connection (h : Simulates w v L) {i : ℕ} {conn : Connection}
    (hi : v.mux.connections[i]? = some conn) :
    ∃ (c : Item Connection) (xs ys : List (Item Connection)), c.value = conn ∧
      L.connections = xs ++ c :: ys ∧
      entryFrom w.store i w.store.connections.head = .ok (some c.entry) ∧
      connectionAt w.store i = .ok (some (some c.object, conn)) ∧
      ∀ conn', (xs ++ { c with value := conn' } :: ys).map Item.value =
        L.mux.connections.set i conn' := by
  rw [h.mux, Layout.mux, List.getElem?_map, Option.map_eq_some_iff] at hi
  obtain ⟨c, hc, rfl⟩ := hi
  obtain ⟨xs, ys, hL, -, hset⟩ := connections_split hc
  have hentry := entryAt_ok h.represents .connections i
  rw [Layout.queue, entries_items, List.getElem?_map, hc] at hentry
  have hat := connectionAt_ok h.represents i
  rw [hc] at hat
  exact ⟨c, xs, ys, rfl, hL, hentry, hat, hset⟩

/-- There is no `i`-th connection in memory. -/
theorem no_connection (h : Simulates w v L) {i : ℕ} (hi : v.mux.connections[i]? = none) :
    entryFrom w.store i w.store.connections.head = .ok none ∧
      connectionAt w.store i = .ok none := by
  rw [h.mux, Layout.mux, List.getElem?_map, Option.map_eq_none_iff] at hi
  have hentry := entryAt_ok h.represents .connections i
  rw [Layout.queue, entries_items, List.getElem?_map, hi] at hentry
  have hat := connectionAt_ok h.represents i
  rw [hi] at hat
  exact ⟨hentry, hat⟩

theorem outConnection (h : Simulates w v L) : v.mux.outConnection = L.outConnection := by
  rw [h.mux, Layout.mux]

/-- What there is in memory changes, and where the threads are does not. -/
theorem mirrors (h : Simulates w v L) {s' : Store} (hr : Represents s' L')
    (hreader : ReaderAt L' w.reader v.reader)
    (hprocessing : ProcessingAt L' w.processing v.processing) (hcut : L'.cut = L.cut)
    (hloose : L'.loose = L.loose) (ha : a.puts = 0) {m : Mux ℕ} (hm : m = L'.mux) :
    Mirrors v L a { v with mux := m } { w with store := s' } :=
  ⟨L', ⟨hr, hm, h.opened, h.dropping, hreader, hprocessing⟩,
    by simp only [Layout.left, hcut, hloose, ha, Nat.add_zero]⟩

/-! ## The reader -/

theorem accept (h : Simulates w v L) {s : Socket} (hi : v.reader = .idle) :
    Mirrors v L (.accept s) { v with opened := s :: v.opened, reader := .accepted s }
      { w with opened := s :: w.opened, reader := .accepted s } := by
  obtain ⟨-, hpdus⟩ := h.reader_idle hi
  refine ⟨L, ⟨h.represents, h.mux, ?_, h.dropping, .accepted s hpdus, h.processing⟩, ?_⟩
  · rw [h.opened]
  · simp [hi, toPut, Action.puts]

theorem insert (h : Simulates w v L) (hv : Sound v) (rt : Runtime) {s : Socket}
    (hi : v.reader = .accepted s) :
    ∃ w', w.insert rt s = .ok w' ∧ Mirrors v L .insert
      { v with
        mux := { v.mux with connections := v.mux.connections ++ [Muxer.allocConnection s] }
        reader := .idle } w' := by
  obtain ⟨-, hpdus⟩ := h.reader_accepted hi
  have hpos := hv.positive.accepted s hi
  obtain ⟨i, hvalue, s', hrun, hr'⟩ := insertConnection_ok h.represents rt hpos
  refine ⟨{ w with store := s', reader := .idle }, ?_, _,
    ⟨hr', ?_, h.opened, h.dropping, .idle hpdus, h.processing.congr rfl rfl⟩, ?_⟩
  · simp only [State.insert, hrun, ok_bind]
  · simp [h.mux, Layout.mux, hvalue]
  · simp [hi, toPut, Action.puts, Layout.left]

theorem recvIn (h : Simulates w v L) (rt : Runtime) {i : ℕ} {r : RecvResult} {conn conn' : Connection}
    {ps : List Pdu} (hi : v.reader = .idle) (hget : v.mux.connections[i]? = some conn)
    (hrec : receive conn r = .ok (true, ps, conn')) :
    ∃ w', w.recvIn rt i r = .ok w' ∧ Mirrors v L (.recvIn i r)
      { v with
        mux := { v.mux with connections := v.mux.connections.set i conn' }
        reader := .puttingIn conn.socket ps } w' := by
  obtain ⟨-, hpdus⟩ := h.reader_idle hi
  obtain ⟨c, xs, ys, rfl, hL, -, hat, hset⟩ := h.connection hget
  have hfollows := receiveIn_follows h.represents rt hL r
  rw [hrec] at hfollows
  obtain ⟨⟨ok, s'⟩, hrun, new, hok, hps, hr'⟩ := hfollows
  cases hok
  simp only at hps
  subst hps
  rw [if_pos rfl, hpdus] at hr'
  refine ⟨{ w with store := s', reader := .puttingIn (some c.object) s'.pdus.head }, ?_, _,
    ⟨hr', ?_, h.opened, h.dropping, ?_, h.processing.congr rfl rfl⟩, ?_⟩
  · simp only [State.recvIn, hat, hrun, ok_bind, if_true]
  · simp only [Layout.mux, hset, h.mux]
  · have hsocket : conn'.socket = c.value.socket := (receive_frame hrec).1
    rw [pdus_head hr' rfl, ← hsocket]
    exact .puttingIn { c with value := conn' } [] new (by simp) rfl rfl
  · simp [Layout.left, hi, toPut, Action.puts]
    omega

/-- The connection is found broken, and nothing changes. -/
theorem recvIn_broken (h : Simulates w v L) (rt : Runtime) {i : ℕ} {r : RecvResult}
    {conn : Connection} (hi : v.reader = .idle) (hget : v.mux.connections[i]? = some conn)
    (hrec : receive conn r = .ok (false, [], conn)) :
    ∃ w', w.recvIn rt i r = .ok w' ∧ Mirrors v L (.recvIn i r) v w' := by
  obtain ⟨-, hpdus⟩ := h.reader_idle hi
  obtain ⟨c, xs, ys, rfl, hL, -, hat, -⟩ := h.connection hget
  have hfollows := receiveIn_follows h.represents rt hL r
  rw [hrec] at hfollows
  obtain ⟨⟨ok, s'⟩, hrun, new, hok, -, hr'⟩ := hfollows
  cases hok
  have hsame : L = { L with connections := xs ++ { c with value := c.value } :: ys } := by rw [← hL]
  refine ⟨{ w with store := s', reader := .idle }, ?_, L,
    ⟨by rw [hsame]; exact hr', h.mux, h.opened, h.dropping, ?_, h.processing⟩, rfl⟩
  · simp only [State.recvIn, hat, hrun, ok_bind, Bool.false_eq_true, if_false]
  · rw [hi]
    exact .idle hpdus

/-- The assertion on a header fails. -/
theorem recvIn_fails (h : Simulates w v L) (rt : Runtime) {i : ℕ} {r : RecvResult}
    {conn : Connection} {f : Fault} (hget : v.mux.connections[i]? = some conn)
    (hrec : receive conn r = .error f) : w.recvIn rt i r = .error (.fault f) := by
  obtain ⟨c, xs, ys, rfl, hL, -, hat, -⟩ := h.connection hget
  have hfollows := receiveIn_follows h.represents rt hL r
  rw [hrec] at hfollows
  simp only [State.recvIn, hat, ok_bind]
  exact congrArg (· >>= _) hfollows

theorem recvOut (h : Simulates w v L) (rt : Runtime) {r : RecvResult} {conn' : Connection}
    {ps : List Pdu} (hi : v.reader = .idle)
    (hrec : receive v.mux.outConnection r = .ok (true, ps, conn')) :
    ∃ w', w.recvOut rt r = .ok w' ∧ Mirrors v L (.recvOut r)
      { v with mux := { v.mux with outConnection := conn' }, reader := .puttingOut ps } w' := by
  obtain ⟨-, hpdus⟩ := h.reader_idle hi
  have hfollows := receiveOut_follows h.represents rt r
  rw [← h.outConnection, hrec] at hfollows
  obtain ⟨⟨ok, s'⟩, hrun, new, hok, hps, hr'⟩ := hfollows
  cases hok
  simp only at hps
  subst hps
  rw [if_pos rfl, hpdus] at hr'
  refine ⟨{ w with store := s', reader := .puttingOut s'.pdus.head }, ?_, _,
    ⟨hr', ?_, h.opened, h.dropping, ?_, h.processing.congr rfl rfl⟩, ?_⟩
  · simp only [State.recvOut, hrun, ok_bind, if_true]
  · simp only [Layout.mux, h.mux]
  · rw [pdus_head hr' rfl]
    exact .puttingOut [] new rfl rfl
  · simp [Layout.left, hi, toPut, Action.puts]
    omega

theorem recvOut_broken (h : Simulates w v L) (rt : Runtime) {r : RecvResult} (hi : v.reader = .idle)
    (hrec : receive v.mux.outConnection r = .ok (false, [], v.mux.outConnection)) :
    ∃ w', w.recvOut rt r = .ok w' ∧ Mirrors v L (.recvOut r) v w' := by
  obtain ⟨-, hpdus⟩ := h.reader_idle hi
  have hfollows := receiveOut_follows h.represents rt r
  rw [← h.outConnection, hrec] at hfollows
  obtain ⟨⟨ok, s'⟩, hrun, new, hok, -, hr'⟩ := hfollows
  cases hok
  have hsame : L = { L with outConnection := v.mux.outConnection } := by rw [h.outConnection]
  refine ⟨{ w with store := s', reader := .idle }, ?_, L,
    ⟨by rw [hsame]; exact hr', h.mux, h.opened, h.dropping, ?_, h.processing⟩, rfl⟩
  · simp only [State.recvOut, hrun, ok_bind, Bool.false_eq_true, if_false]
  · rw [hi]
    exact .idle hpdus

theorem recvOut_fails (h : Simulates w v L) (rt : Runtime) {r : RecvResult} {f : Fault}
    (hrec : receive v.mux.outConnection r = .error f) :
    w.recvOut rt r = .error (.fault f) := by
  have hfollows := receiveOut_follows h.represents rt r
  rw [← h.outConnection, hrec] at hfollows
  simp only [State.recvOut]
  exact congrArg (· >>= _) hfollows

theorem putIn (h : Simulates w v L) (hv : Sound v) (rt : Runtime) {s : Socket} {p : Pdu}
    {ps : List Pdu} (hi : v.reader = .puttingIn s (p :: ps)) (tag : ℕ) :
    ∃ c qe w', w.reader = .puttingIn c (some qe) ∧ w.putIn rt c qe = .ok w' ∧ Mirrors v L .putIn
      { v with
        mux := { v.mux with rInMessages := v.mux.rInMessages ++ [⟨s, p, tag⟩] }
        reader := .puttingIn s ps } w' := by
  have hpos := hv.positive.putting _ _ hi
  obtain ⟨i, cut, new, hmem, rfl, hnew, hreader, hcut, hpdus⟩ := h.reader_puttingIn hi
  cases new with
  | nil => cases hnew
  | cons n new =>
    cases hnew
    obtain ⟨o, a, s', hrun, hr'⟩ := readInRound_ok h.represents rt hmem hpos hcut hpdus tag
    refine ⟨some i.object, n.entry, { w with
      store := s', reader := .puttingIn (some i.object) (new.map Item.entry).head? },
      hreader, ?_, _, ⟨hr', ?_, h.opened, h.dropping, ?_, h.processing.congr rfl rfl⟩, ?_⟩
    · simp only [State.putIn, hrun, ok_bind]
    · simp [Layout.mux, h.mux]
    · exact .puttingIn i (cut ++ [itemRef n]) new hmem (by simp [hcut]) rfl
    · simp [Layout.left, hi, toPut, Action.puts]
      omega

theorem putOut (h : Simulates w v L) (rt : Runtime) {p : Pdu} {ps : List Pdu}
    (hi : v.reader = .puttingOut (p :: ps)) (tag : ℕ) :
    ∃ qe w', w.reader = .puttingOut (some qe) ∧ w.putOut rt qe = .ok w' ∧ Mirrors v L .putOut
      { v with
        mux := { v.mux with rOutMessages := v.mux.rOutMessages ++ [⟨p, tag⟩] }
        reader := .puttingOut ps } w' := by
  obtain ⟨cut, new, hnew, hreader, hcut, hpdus⟩ := h.reader_puttingOut hi
  cases new with
  | nil => cases hnew
  | cons n new =>
    cases hnew
    obtain ⟨o, a, s', hrun, hr'⟩ := readOutRound_ok h.represents rt hcut hpdus tag
    refine ⟨n.entry, { w with store := s', reader := .puttingOut (new.map Item.entry).head? },
      hreader, ?_, _, ⟨hr', ?_, h.opened, h.dropping, ?_, h.processing.congr rfl rfl⟩, ?_⟩
    · simp only [State.putOut, hrun, ok_bind]
    · simp [Layout.mux, h.mux]
    · exact .puttingOut (cut ++ [itemRef n]) new (by simp [hcut]) rfl
    · simp [Layout.left, hi, toPut, Action.puts]
      omega

/-- The reader has put all its PDUs. -/
theorem readInDone (h : Simulates w v L) {s : Socket} (hi : v.reader = .puttingIn s []) :
    (∃ c, w.reader = .puttingIn c none) ∧
      Mirrors v L .readInDone { v with reader := .idle } { w with reader := .idle } := by
  obtain ⟨i, cut, new, -, -, hnew, hreader, -, hpdus⟩ := h.reader_puttingIn hi
  cases List.map_eq_nil_iff.1 hnew
  refine ⟨⟨_, hreader⟩, L,
    ⟨h.represents, h.mux, h.opened, h.dropping, .idle hpdus, h.processing⟩, ?_⟩
  simp [hi, toPut, Action.puts]

theorem readOutDone (h : Simulates w v L) (hi : v.reader = .puttingOut []) :
    w.reader = .puttingOut none ∧
      Mirrors v L .readOutDone { v with reader := .idle } { w with reader := .idle } := by
  obtain ⟨cut, new, hnew, hreader, -, hpdus⟩ := h.reader_puttingOut hi
  cases List.map_eq_nil_iff.1 hnew
  refine ⟨hreader, L, ⟨h.represents, h.mux, h.opened, h.dropping, .idle hpdus, h.processing⟩, ?_⟩
  simp [hi, toPut, Action.puts]

/-! ## The writer -/

theorem loadOut (h : Simulates w v L) {m : Mux ℕ} (hm : Muxer.writeDataToOutBuffer v.mux = .ok m) :
    ∃ w', w.loadOut = .ok w' ∧ Mirrors v L .loadOut { v with mux := m } w' := by
  rw [h.mux] at hm
  obtain ⟨os, conn, s', hrun, hr', rfl⟩ := writeDataToOutBuffer_ok h.represents hm
  refine ⟨{ w with store := s' }, ?_, h.mirrors hr' (h.reader.congr rfl rfl rfl)
    (h.processing.congr rfl rfl) rfl rfl rfl rfl⟩
  simp only [State.loadOut, hrun, ok_bind]

theorem sendOut (h : Simulates w v L) {r : SendResult} {ok : Bool} {out : Bytes} {conn : Connection}
    (hw : writeData v.mux.outConnection r = .ok (ok, out, conn)) :
    ∃ w', w.sendOut r = .ok w' ∧
      Mirrors v L (.sendOut r) { v with mux := { v.mux with outConnection := conn } } w' := by
  rw [h.mux] at hw
  obtain ⟨s', hrun, hr'⟩ := writeDataOut_ok h.represents hw
  refine ⟨{ w with store := s' }, ?_, h.mirrors hr' (h.reader.congr rfl rfl rfl)
    (h.processing.congr rfl rfl) rfl rfl rfl ?_⟩
  · simp only [State.sendOut, hrun, ok_bind]
  · simp only [h.mux, Layout.mux]

theorem loadIn (h : Simulates w v L) {i : ℕ} {conn conn' : Connection} {q : List (InMessage ℕ)}
    (hf : v.ConnectionsFree) (hget : v.mux.connections[i]? = some conn)
    (hload : Muxer.loadConnection conn v.mux.wInMessages = .ok (conn', q)) :
    ∃ w', w.loadIn i = .ok w' ∧ Mirrors v L (.loadIn i)
      { v with mux := { v.mux with
        connections := v.mux.connections.set i conn', wInMessages := q } } w' := by
  obtain ⟨c, xs, ys, rfl, hL, hat, -, hset⟩ := h.connection hget
  have hne : some c.entry ≠ (none : Ptr) := Option.some_ne_none _
  rw [h.mux] at hload
  obtain ⟨s', hrun, ws, hws, hr'⟩ := loadConnection_ok h.represents hL hload
  refine ⟨{ w with store := s' }, ?_, h.mirrors hr'
    (h.reader.free (h.connectionsFree_iff.2 hf).2 rfl rfl) (h.processing.congr rfl rfl) rfl rfl rfl ?_⟩
  · simp only [State.loadIn, hat, ok_bind, if_pos hne, hrun]
  · simp only [Layout.mux, hset, hws, h.mux]

theorem sendIn (h : Simulates w v L) {i : ℕ} {r : SendResult} {conn conn' : Connection} {ok : Bool}
    {out : Bytes} (hf : v.ConnectionsFree) (hget : v.mux.connections[i]? = some conn)
    (hw : writeData conn r = .ok (ok, out, conn')) :
    ∃ w', w.sendIn i r = .ok w' ∧ Mirrors v L (.sendIn i r)
      { v with mux := { v.mux with connections := v.mux.connections.set i conn' } } w' := by
  obtain ⟨c, xs, ys, rfl, hL, -, hat, hset⟩ := h.connection hget
  obtain ⟨s', hrun, hr'⟩ := writeDataIn_ok h.represents hL hw
  refine ⟨{ w with store := s' }, ?_, h.mirrors hr'
    (h.reader.free (h.connectionsFree_iff.2 hf).2 rfl rfl) (h.processing.congr rfl rfl) rfl rfl rfl ?_⟩
  · simp only [State.sendIn, hat, hrun, ok_bind]
  · simp only [Layout.mux, hset, h.mux]

/-- The entry of the `i`-th message to clients. -/
theorem message (h : Simulates w v L) (i : ℕ) :
    entryFrom w.store i w.store.wInMessages.head =
      .ok ((L.wInMessages[i]?).map Queued.entry) := by
  have := entryAt_ok h.represents .wInMessages i
  rwa [Layout.queue, entries_queued, List.getElem?_map] at this

/-- A round of the sweep: the message is freed, or left because its client is there. -/
theorem sweep (h : Simulates w v L) (hv : Sound v) {q q' : List (InMessage ℕ)} {r : InMessage ℕ}
    (hq : v.mux.wInMessages = q ++ r :: q') :
    ∃ w', w.sweep q.length = .ok w' ∧ ((∃ c ∈ v.mux.connections, c.socket = r.socket) ∧ w' = w ∨
      (∀ c ∈ v.mux.connections, c.socket ≠ r.socket) ∧ Mirrors v L (.sweep q.length)
        { v with mux := { v.mux with wInMessages := q ++ q' } } w') := by
  have hconns : v.mux.connections = L.connections.map Item.value := by
    rw [h.mux, Layout.mux]
  have hbuffers : ∀ c ∈ L.connections, c.value.wBufferPtr ≤ bufferKsize := by
    intro c hc
    exact hv.framed.ptrs c.value (by rw [hconns]; exact List.mem_map_of_mem hc)
  rw [h.mux, Layout.mux] at hq
  obtain ⟨xs, zs, hL, rfl, hzs⟩ := List.map_eq_append_iff.1 hq
  obtain ⟨c, ys, rfl, rfl, rfl⟩ := List.map_eq_cons_iff.1 hzs
  have hat := h.message xs.length
  rw [hL, List.getElem?_append_right (Nat.le_refl _), Nat.sub_self] at hat
  obtain ⟨s', hrun, hr'⟩ := freeWInMessagesRound_ok h.represents hbuffers hL
  refine ⟨{ w with store := s' }, ?_, ?_⟩
  · rw [List.length_map]
    simp only [State.sweep, hat, List.getElem?_cons_zero, Option.map_some, hrun, ok_bind]
  · rw [hconns, List.forall_mem_map]
    split at hr'
    · next hgone =>
      obtain ⟨d, hd, heq⟩ := hgone
      exact .inl ⟨⟨d.value, List.mem_map_of_mem hd, heq⟩, by rw [hr']⟩
    · next hgone =>
      refine .inr ⟨fun d hd heq => hgone ⟨d, hd, heq⟩, h.mirrors hr' (h.reader.congr rfl rfl rfl)
        (h.processing.congr rfl rfl) rfl rfl rfl ?_⟩
      simp only [Layout.mux, List.map_append]
      rw [h.mux, Layout.mux]

/-! ## Clients dropped -/

theorem drop (h : Simulates w v L) (t : Thread) {i : ℕ} (closed : Bool) {conn : Connection}
    (hget : v.mux.connections[i]? = some conn) :
    ∃ w', w.drop t i closed = .ok w' ∧ Mirrors v L (.drop t i closed)
      { v with
        opened := if closed then v.opened.filter (· != conn.socket) else v.opened
        dropping := some ⟨t, conn.socket, false⟩ } w' := by
  obtain ⟨c, xs, ys, -, -, -, hat, -⟩ := h.connection hget
  refine ⟨{ w with
    opened := if closed then w.opened.filter (· != conn.socket) else w.opened
    dropping := some ⟨t, conn.socket, false⟩ }, ?_, L,
    ⟨h.represents, h.mux, ?_, rfl, h.reader, h.processing⟩, rfl⟩
  · simp only [State.drop, hat, ok_bind]
  · simp only [h.opened]

theorem unmap (h : Simulates w v L) (t : Thread) (s : Socket) :
    ∃ w', w.unmap t s = .ok w' ∧ Mirrors v L .unmap
      { v with
        mux := Muxer.removeAllMappingsFor s v.mux, dropping := some ⟨t, s, true⟩ } w' := by
  obtain ⟨s', hrun, hr'⟩ := removeAllMappingsFor_ok h.represents s
  refine ⟨{ w with store := s', dropping := some ⟨t, s, true⟩ }, ?_, _,
    ⟨hr', ?_, h.opened, rfl, h.reader.congr rfl rfl rfl, h.processing.congr rfl rfl⟩, rfl⟩
  · simp only [State.unmap, hrun, ok_bind]
  · simp only [Muxer.removeAllMappingsFor, h.mux, Layout.mux, List.filter_map]
    rfl

theorem unlink (h : Simulates w v L) (hv : Sound v) {t : Thread} {s : Socket}
    (hd : v.dropping = some ⟨t, s, true⟩) :
    ∃ w', w.unlink s = .ok w' ∧ Mirrors v L .unlink
      { v with mux := Muxer.unlinkConnection s v.mux, dropping := none } w' := by
  have hne : ∀ p qe, w.reader ≠ .puttingIn p qe := by
    intro p qe heq
    obtain ⟨c, ps, hr, -⟩ := h.reader_of_puttingIn heq
    have hnone := (hv.clients.puttingIn _ _ hr).2
    rw [hd] at hnone
    cases hnone
  obtain ⟨s', hrun, hr'⟩ := unlinkConnection_ok h.represents (h.nodup hv) s
  refine ⟨{ w with store := s', dropping := none }, ?_, _,
    ⟨hr', ?_, h.opened, rfl, h.reader.free hne rfl rfl, h.processing.congr rfl rfl⟩, rfl⟩
  · simp only [State.unlink, hrun, ok_bind]
  · simp only [Muxer.unlinkConnection, h.mux, Layout.mux, List.filter_map]
    rfl

/-! ## The processing thread -/

theorem connect (h : Simulates w v L) (s : Socket) : Mirrors v L (.connect s)
    { v with mux := { v.mux with outConnection := { v.mux.outConnection with socket := s } } }
    { w with store := { w.store with outConnection := { w.store.outConnection with socket := s } } } := by
  set conn : Connection := { w.store.outConnection with socket := s } with conn_def
  have hr : Represents { w.store with outConnection := conn } { L with outConnection := conn } :=
    { h.represents with outConnection := rfl }
  refine h.mirrors hr (h.reader.congr rfl rfl rfl) (h.processing.congr rfl rfl) rfl rfl rfl ?_
  rw [conn_def, h.represents.outConnection, h.mux]
  rfl

theorem takeIn (h : Simulates w v L) (hv : Sound v) (rt : Runtime) {r : InMessage ℕ} {m : Mux ℕ}
    (hi : v.processing = .idle) (htake : Muxer.takeRInMessage v.mux = some (r, m)) :
    ∃ w', w.takeIn rt = .ok w' ∧
      Mirrors v L .takeIn { v with mux := m, processing := .taken r } w' := by
  obtain ⟨-, hins, houts⟩ := h.processing_idle hi
  have hmux := h.mux
  cases hL : L.rInMessages with
  | nil =>
    rw [hmux, Muxer.takeRInMessage, Layout.mux, hL] at htake
    cases htake
  | cons i is =>
    have hq : v.mux.rInMessages = i.value :: is.map (·.value) := by
      rw [hmux, Layout.mux, hL, List.map_cons]
    rw [Muxer.takeRInMessage, hq] at htake
    cases htake
    have hpos := hv.positive.waiting i.value (by rw [hq]; exact List.mem_cons_self)
    obtain ⟨o, p, s', hrun, hr'⟩ := takeRInMessage_ok h.represents rt hL hpos
    have hne : some o ≠ (none : Ptr) := Option.some_ne_none _
    refine ⟨{ w with store := s', processing := .taken (some o) }, ?_, _,
      ⟨hr', ?_, h.opened, h.dropping, h.reader.congr rfl rfl rfl,
        .taken ⟨o, p, i.value⟩ (by simp only [hins]) houts⟩, rfl⟩
    · simp only [State.takeIn, hrun, ok_bind, if_pos hne]
    · simp only [Layout.mux, hmux]

theorem takeOut (h : Simulates w v L) (rt : Runtime) {p : OutMessage ℕ} {m : Mux ℕ}
    (hi : v.processing = .idle) (htake : Muxer.takeROutMessage v.mux = some (p, m)) :
    ∃ w', w.takeOut rt = .ok w' ∧
      Mirrors v L .takeOut { v with mux := m, processing := .response p } w' := by
  obtain ⟨-, hins, houts⟩ := h.processing_idle hi
  have hmux := h.mux
  cases hL : L.rOutMessages with
  | nil =>
    rw [hmux, Muxer.takeROutMessage, Layout.mux, hL] at htake
    cases htake
  | cons i is =>
    have hq : v.mux.rOutMessages = i.value :: is.map (·.value) := by
      rw [hmux, Layout.mux, hL, List.map_cons]
    rw [Muxer.takeROutMessage, hq] at htake
    cases htake
    obtain ⟨o, p, s', hrun, hr'⟩ := takeROutMessage_ok h.represents rt hL
    have hne : some o ≠ (none : Ptr) := Option.some_ne_none _
    refine ⟨{ w with store := s', processing := .response (some o) }, ?_, _,
      ⟨hr', ?_, h.opened, h.dropping, h.reader.congr rfl rfl rfl,
        .response ⟨o, p, i.value⟩ hins (by simp only [houts])⟩, rfl⟩
    · simp only [State.takeOut, hrun, ok_bind, if_pos hne]
    · simp only [Layout.mux, hmux]

theorem mapRequest (h : Simulates w v L) (hv : Sound v) (rt : Runtime) {r : InMessage ℕ}
    {q : InputType} {m : Mux ℕ} (hi : v.processing = .taken r)
    (hm : Muxer.mapRequest r v.mux = .ok (q, m)) :
    ∃ p w', w.processing = .taken p ∧ w.mapRequest rt p = .ok w' ∧
      Mirrors v L .mapRequest { v with mux := m, processing := .mapped r q } w' := by
  have hpos := hv.positive.taken _ hi
  obtain ⟨b, rfl, hw, hins, houts⟩ := h.processing_taken hi
  obtain ⟨q₁, hq, -⟩ := decodeInPdu_total b.value.pdu
  rw [Muxer.mapRequest_ok hpos hq v.mux] at hm
  cases hm
  obtain ⟨o, a, s', hrun, hr'⟩ := mapRequest_ok h.represents rt (b := b) (by simp [hins]) hpos hq
  refine ⟨some b.object, { w with store := s', processing := .mapped (some b.object) q }, hw, ?_, _,
    ⟨hr', ?_, h.opened, h.dropping, h.reader.congr rfl rfl rfl, .mapped b q hins houts⟩, rfl⟩
  · simp only [State.mapRequest, hrun, ok_bind]
  · simp [Layout.mux, h.mux]

theorem forward (h : Simulates w v L) (hv : Sound v) (rt : Runtime) {r : InMessage ℕ}
    {q : InputType} {m : Mux ℕ} (hi : v.processing = .mapped r q)
    (hm : Muxer.forwardRequest q r.tag v.mux = .ok m) :
    ∃ p w', w.processing = .mapped p q ∧ w.forward rt p q = .ok w' ∧
      Mirrors v L .forward { v with mux := m, processing := .idle } w' := by
  have hvalid := hv.framed.mapped _ _ hi
  obtain ⟨b, rfl, hw, hins, houts⟩ := h.processing_mapped hi
  obtain ⟨i, s', hrun, hr', hforward⟩ := forwardRequest_ok h.represents rt hins hvalid
  rw [h.mux, hforward] at hm
  cases hm
  refine ⟨some b.object, { w with store := s', processing := .idle }, hw, ?_, _,
    ⟨hr', ?_, h.opened, h.dropping, h.reader.congr rfl rfl rfl, .idle rfl houts⟩, rfl⟩
  · simp only [State.forward, hrun, ok_bind]
  · simp [Layout.mux]

theorem deliver (h : Simulates w v L) (hv : Sound v) (rt : Runtime) {p : OutMessage ℕ} {m : Mux ℕ}
    (hi : v.processing = .response p) (hm : Muxer.deliverResponse p v.mux = .ok m) :
    ∃ c w', w.processing = .response c ∧ w.deliver rt c = .ok w' ∧
      Mirrors v L .deliver { v with mux := m, processing := .idle } w' := by
  obtain ⟨b, rfl, hw, hins, houts⟩ := h.processing_response hi
  have htable : v.mux.socketToRecvUnicastMsg = L.mappings.map Item.value := by
    rw [h.mux, Layout.mux]
  have hpos : ∀ i ∈ L.mappings, 0 < i.value.socket := fun i hi =>
    hv.positive.table i.value (by rw [htable]; exact List.mem_map_of_mem hi)
  obtain ⟨mappings, rs, s', hrun, hr', hdeliver⟩ := deliverResponse_ok h.represents rt houts hpos
  rw [h.mux, hdeliver] at hm
  cases hm
  refine ⟨some b.object, { w with store := s', processing := .idle }, hw, ?_, _,
    ⟨hr', ?_, h.opened, h.dropping, h.reader.congr rfl rfl rfl, .idle hins rfl⟩, rfl⟩
  · simp only [State.deliver, hrun, ok_bind]
  · simp [Layout.mux]

theorem cleanup (h : Simulates w v L) (hv : Sound v) (closed : Socket → Bool) {m : Mux ℕ}
    (hstop : v.Stopped) (hm : Muxer.cleanup v.mux = .ok m) :
    ∃ w', w.cleanup closed = .ok w' ∧ Mirrors v L (.cleanup closed)
      { v with mux := m, opened := v.opened.filter (!closed ·) } w' := by
  obtain ⟨hreader, hdropping, hprocessing⟩ := hstop
  obtain ⟨hidle, hpdus⟩ := h.reader_idle hreader
  have hne : ∀ p qe, w.reader ≠ .puttingIn p qe := by
    intro p qe heq
    rw [hidle] at heq
    cases heq
  rw [Muxer.cleanup_ok hv.clients.nodup] at hm
  cases hm
  obtain ⟨s', hrun, hr'⟩ := cleanup_ok h.represents (h.nodup hv)
  refine ⟨{ w with store := s', opened := w.opened.filter (!closed ·) }, ?_, _,
    ⟨hr', ?_, ?_, h.dropping, h.reader.free hne rfl rfl, h.processing.congr rfl rfl⟩, rfl⟩
  · simp only [State.cleanup, hrun, ok_bind]
  · simp only [Layout.mux, h.mux, others, List.filter_map, List.map_nil, List.map_map]
    rfl
  · rw [h.opened]

end Simulates

end

end Muxer.Memory

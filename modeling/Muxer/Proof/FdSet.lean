import Muxer.Lib.Bounded
import Muxer.Spec.FdSet

/-!
# Which sockets `select` watches

* `watched_iff`: the sets of the reader and of the writer hold every socket they should exactly when
  there are at most `FD_SETSIZE` different ones, those of the listener and of the server included.
* `watched_fails`: with 63 clients there are more.
-/

namespace Muxer

open Lib

variable {listenerSocket : Option Socket} {isOutConnectionOK : Bool} {outConnection : Connection}
  {connections : List Connection} {rFd wFd eFd set : List Socket} {x : Socket}

theorem fdSet_eq : fdSet = put fdSetsize := rfl

theorem mem_fdClr {s t : Socket} : t ∈ fdClr set s ↔ t ∈ set ∧ t ≠ s := by
  simp [fdClr]

theorem fdClr_of_not_mem {s : Socket} (h : s ∉ set) : fdClr set s = set := by
  refine List.filter_eq_self.2 fun t ht => ?_
  have hne : t ≠ s := fun heq => h (heq ▸ ht)
  simpa using hne

/-- The connections there is room to read from. -/
def Readable (connections : List Connection) : List Connection :=
  connections.filter fun p => p.rBufferPtr < bufferKsize

theorem setupRConnections_eq : setupRConnections (rFd, eFd) connections =
    (((Readable connections).map Connection.socket).foldl fdSet rFd,
      (connections.map Connection.socket).foldl fdSet eFd) := by
  induction connections generalizing rFd eFd with
  | nil => rfl
  | cons p connections ih =>
    rw [setupRConnections, ih]
    by_cases hp : p.rBufferPtr < bufferKsize
    · simp [Readable, hp]
    · simp [Readable, hp]

theorem setupWConnections_eq : setupWConnections (wFd, eFd) connections =
    ((connections.map Connection.socket).foldl fdSet wFd,
      (connections.map Connection.socket).foldl fdSet eFd) := by
  induction connections generalizing wFd eFd with
  | nil => rfl
  | cons p connections ih =>
    rw [setupWConnections, ih]
    rfl

/-- The sockets to watch: the listener's, the server's and those of clients. -/
def handles (listenerSocket : Option Socket) (isOutConnectionOK : Bool)
    (outConnection : Connection) (connections : List Connection) : List Socket :=
  listenerSocket.toList ++
    ((if isOutConnectionOK then [outConnection.socket] else []) ++
      connections.map Connection.socket)

theorem setupRFdSet_eq :
    setupRFdSet listenerSocket isOutConnectionOK outConnection connections =
      ((handles listenerSocket isOutConnectionOK outConnection (Readable connections)).foldl fdSet [],
        (handles listenerSocket isOutConnectionOK outConnection connections).foldl fdSet []) := by
  unfold setupRFdSet handles
  cases listenerSocket <;> cases isOutConnectionOK <;> exact setupRConnections_eq

theorem setupWFdSet_eq : setupWFdSet isOutConnectionOK outConnection connections =
    ((handles none isOutConnectionOK outConnection connections).foldl fdSet [],
      (handles none isOutConnectionOK outConnection connections).foldl fdSet []) := by
  unfold setupWFdSet handles
  cases isOutConnectionOK <;> exact setupWConnections_eq

theorem mem_handles :
    x ∈ handles listenerSocket isOutConnectionOK outConnection connections ↔
      listenerSocket = some x ∨ (isOutConnectionOK = true ∧ outConnection.socket = x) ∨
        ∃ c ∈ connections, c.socket = x := by
  unfold handles
  rw [List.mem_append, List.mem_append, Option.mem_toList, List.mem_map]
  cases isOutConnectionOK
  · simp
  · simp [eq_comm]

/-- `setup_r_fd_set` registers the listener, the server and every client it should. -/
structure WatchedForReading (listenerSocket : Option Socket) (isOutConnectionOK : Bool)
    (outConnection : Connection) (connections : List Connection) (rFd eFd : List Socket) :
    Prop where
  listener : ∀ s, listenerSocket = some s → s ∈ rFd ∧ s ∈ eFd
  server : isOutConnectionOK = true → outConnection.socket ∈ rFd ∧ outConnection.socket ∈ eFd
  readable : ∀ c ∈ connections, c.rBufferPtr < bufferKsize → c.socket ∈ rFd
  clients : ∀ c ∈ connections, c.socket ∈ eFd

/-- `setup_w_fd_set` registers the server and every client. -/
structure WatchedForWriting (isOutConnectionOK : Bool) (outConnection : Connection)
    (connections : List Connection) (wFd eFd : List Socket) : Prop where
  server : isOutConnectionOK = true → outConnection.socket ∈ wFd ∧ outConnection.socket ∈ eFd
  clients : ∀ c ∈ connections, c.socket ∈ wFd ∧ c.socket ∈ eFd

/-- Every socket is watched by the reader and by the writer. -/
def Watched (listenerSocket : Option Socket) (isOutConnectionOK : Bool)
    (outConnection : Connection) (connections : List Connection) : Prop :=
  WatchedForReading listenerSocket isOutConnectionOK outConnection connections
      (setupRFdSet listenerSocket isOutConnectionOK outConnection connections).1
      (setupRFdSet listenerSocket isOutConnectionOK outConnection connections).2 ∧
    WatchedForWriting isOutConnectionOK outConnection connections
      (setupWFdSet isOutConnectionOK outConnection connections).1
      (setupWFdSet isOutConnectionOK outConnection connections).2

theorem handles_readable_subset :
    handles listenerSocket isOutConnectionOK outConnection (Readable connections) ⊆
      handles listenerSocket isOutConnectionOK outConnection connections := by
  intro x hx
  rw [mem_handles] at hx ⊢
  refine hx.imp_right (Or.imp_right ?_)
  rintro ⟨c, hc, rfl⟩
  exact ⟨c, List.mem_of_mem_filter hc, rfl⟩

theorem handles_none_subset : handles none isOutConnectionOK outConnection connections ⊆
    handles listenerSocket isOutConnectionOK outConnection connections := by
  intro x hx
  rw [mem_handles] at hx ⊢
  exact .inr (hx.resolve_left nofun)

/-- Fewer sockets to watch fit as well. -/
theorem mem_foldl_handles
    (h : (handles listenerSocket isOutConnectionOK outConnection connections).toFinset.card ≤
      fdSetsize)
    (hsub : set ⊆ handles listenerSocket isOutConnectionOK outConnection connections)
    (hx : x ∈ set) : x ∈ set.foldl fdSet [] := by
  rw [fdSet_eq]
  refine mem_foldl_put_iff.2 (Nat.le_trans (Finset.card_le_card ?_) h) x hx
  intro y hy
  rw [List.mem_toFinset] at hy ⊢
  exact hsub hy

/-- With room for all sockets, the reader watches what it should. -/
theorem watchedForReading
    (h : (handles listenerSocket isOutConnectionOK outConnection connections).toFinset.card ≤
      fdSetsize) :
    WatchedForReading listenerSocket isOutConnectionOK outConnection connections
      (setupRFdSet listenerSocket isOutConnectionOK outConnection connections).1
      (setupRFdSet listenerSocket isOutConnectionOK outConnection connections).2 := by
  have hr := fun x => mem_foldl_handles (x := x) h handles_readable_subset
  have he := fun x => mem_foldl_handles (x := x) h (List.Subset.refl _)
  rw [setupRFdSet_eq]
  constructor
  · intro s hs
    exact ⟨hr s (mem_handles.2 (.inl hs)), he s (mem_handles.2 (.inl hs))⟩
  · intro hok
    exact ⟨hr _ (mem_handles.2 (.inr (.inl ⟨hok, rfl⟩))),
      he _ (mem_handles.2 (.inr (.inl ⟨hok, rfl⟩)))⟩
  · intro c hc hroom
    have hreadable : c ∈ Readable connections := List.mem_filter.2 ⟨hc, decide_eq_true hroom⟩
    exact hr _ (mem_handles.2 (.inr (.inr ⟨c, hreadable, rfl⟩)))
  · intro c hc
    exact he _ (mem_handles.2 (.inr (.inr ⟨c, hc, rfl⟩)))

/-- With room for all sockets, the writer watches what it should. -/
theorem watchedForWriting
    (h : (handles listenerSocket isOutConnectionOK outConnection connections).toFinset.card ≤
      fdSetsize) :
    WatchedForWriting isOutConnectionOK outConnection connections
      (setupWFdSet isOutConnectionOK outConnection connections).1
      (setupWFdSet isOutConnectionOK outConnection connections).2 := by
  have hw := fun x => mem_foldl_handles (x := x) h handles_none_subset
  rw [setupWFdSet_eq]
  constructor
  · intro hok
    have hmem := hw _ (mem_handles.2 (.inr (.inl ⟨hok, rfl⟩)))
    exact ⟨hmem, hmem⟩
  · intro c hc
    have hmem := hw _ (mem_handles.2 (.inr (.inr ⟨c, hc, rfl⟩)))
    exact ⟨hmem, hmem⟩

/-- **Every socket is watched exactly when** there are at most `FD_SETSIZE` different ones. -/
theorem watched_iff : Watched listenerSocket isOutConnectionOK outConnection connections ↔
    (handles listenerSocket isOutConnectionOK outConnection connections).toFinset.card ≤
      fdSetsize := by
  refine ⟨?_, fun h => ⟨watchedForReading h, watchedForWriting h⟩⟩
  rintro ⟨hr, -⟩
  rw [setupRFdSet_eq] at hr
  refine mem_foldl_put_iff.1 fun x hx => ?_
  rw [← fdSet_eq]
  rcases mem_handles.1 hx with hx | ⟨hok, rfl⟩ | ⟨c, hc, rfl⟩
  · exact (hr.listener x hx).2
  · exact (hr.server hok).2
  · exact hr.clients c hc

/-- With the listener, the server and 63 clients there are 65 sockets. -/
theorem watched_fails : ∃ connections : List Connection,
    (connections.map Connection.socket).Nodup ∧
      ¬Watched (some 1) true (allocConnection 2) connections := by
  refine ⟨(List.range 63).map fun i => allocConnection (i + 3), by decide, ?_⟩
  rw [watched_iff]
  decide

end Muxer

import Muxer.Spec.Config
import Mathlib.Data.List.TakeWhile

/-!
# What is read of the configuration file

`read_line` stores what is before a byte that ends a line (`Ends`): a line feed, but also the byte
255. Its buffer has the `capacity` the bytes stored have needed, and so no place for the `NUL` after
a line whose length is a multiple of `MAX_BUF_LEN`.

* `readLine_ok`, `readLine_fails`: a line that fits is returned, up to a `NUL` in it; `read_line`
  does not return from others.
* `readConfigLines_iff`: of a file without the bytes 0 and 255, `read_config` reads the lines if
  and only if all of them fit.
* `readConfig_iff`: the exact condition, for any content.
-/

namespace Muxer.Config

variable {ch : UInt8} {b b' : LineBuffer} {w line tail : Bytes}

/-- A byte that ends a line: a line feed, or the one with the value of `EOF`. -/
def Ends (ch : UInt8) : Prop := ch = newline ∨ ch = 255

theorem charValue_eq_newline : charValue ch = charValue newline ↔ ch = newline := by
  constructor
  · intro h
    have hlt := ch.toNat_lt
    have hvalue : charValue newline = 10 := by decide
    rw [hvalue, charValue] at h
    apply UInt8.toNat_inj.1
    rw [show newline.toNat = 10 from rfl]
    split at h <;> omega
  · rintro rfl
    rfl

theorem charValue_eq_eof : charValue ch = eof ↔ ch = 255 := by
  constructor
  · intro h
    have hlt := ch.toNat_lt
    rw [charValue, eof] at h
    apply UInt8.toNat_inj.1
    rw [show (255 : UInt8).toNat = 255 from rfl]
    split at h <;> omega
  · rintro rfl
    decide

theorem goes_on_iff : charValue ch ≠ charValue newline ∧ charValue ch ≠ eof ↔ ¬Ends ch := by
  rw [ne_eq, ne_eq, charValue_eq_newline, charValue_eq_eof, Ends, not_or]

/-- A byte that is read is stored as it is. -/
@[simp] theorem toChar_toNat (ch : UInt8) : toChar ch.toNat = ch := by
  have hlt := ch.toNat_lt
  have hmod : ((ch.toNat : ℤ) % 256).toNat = ch.toNat := by omega
  rw [toChar, hmod, UInt8.ofNat_toNat]

/-- The size of the buffer with `n` bytes stored. -/
def capacity (n : ℕ) : ℕ := maxBufLen * max 1 ((n + maxBufLen - 1) / maxBufLen)

/-- The buffer has grown as far as the bytes `w`, stored from its start, needed it. -/
structure Stored (b : LineBuffer) (w : Bytes) : Prop where
  size : b.maxLineLen = capacity w.length
  bytes : b.bytes.bytes.take w.length = w

theorem length_le_capacity (n : ℕ) : n ≤ capacity n := by
  simp only [capacity, maxBufLen]
  omega

theorem capacity_succ (n : ℕ) :
    capacity (n + 1) = if n = capacity n then capacity n + maxBufLen else capacity n := by
  by_cases hn : n = capacity n
  · rw [if_pos hn]
    simp only [capacity, maxBufLen] at *
    omega
  · rw [if_neg hn]
    simp only [capacity, maxBufLen] at *
    omega

theorem Stored.alloc : Stored .alloc [] := ⟨rfl, rfl⟩

/-- A byte stored behind the others, where there is a place for it. -/
theorem store_ok (hbytes : b.bytes.bytes.take w.length = w) (hlt : w.length < b.maxLineLen)
    (ch : UInt8) :
    ∃ b', b.store w.length ch = .ok b' ∧ b'.maxLineLen = b.maxLineLen ∧
      b'.bytes.bytes.take (w ++ [ch]).length = w ++ [ch] := by
  obtain ⟨bytes, hwrite, hwritten⟩ := b.bytes.write_ok w.length [ch] hlt
  refine ⟨⟨b.maxLineLen, bytes⟩, by rw [LineBuffer.store, hwrite], rfl, ?_⟩
  rw [hwritten, hbytes]
  exact List.take_left' rfl

theorem store_full {n : ℕ} (hfull : n = b.maxLineLen) (ch : UInt8) :
    b.store n ch = .error (.fault .bounds) := by
  have hnot : ¬n + [ch].length ≤ b.maxLineLen := by
    rw [List.length_singleton]
    omega
  rw [LineBuffer.store, Buffer.write, dif_neg hnot]

/-- The buffer grows where it is full. -/
theorem Stored.grow (hb : Stored b w) (hfull : w.length = b.maxLineLen)
    (hmax : capacity (w.length + 1) ≤ intMax) :
    ∃ b', b.grow = .ok b' ∧ w.length < b'.maxLineLen ∧ b'.maxLineLen = capacity (w.length + 1) ∧
      b'.bytes.bytes.take w.length = w := by
  have hsize := hb.size
  have hsucc := capacity_succ w.length
  rw [if_pos (hfull.trans hsize), ← hsize] at hsucc
  rw [hsucc] at hmax ⊢
  rw [LineBuffer.grow, if_pos hmax]
  refine ⟨_, rfl, ?_, rfl, ?_⟩
  · simp only [maxBufLen]
    omega
  · have hlength := b.bytes.size_eq
    rw [List.take_append_of_le_length (by omega), hb.bytes]

/-- **A round of the loop** stores the byte, while the length of the buffer is an `int`. -/
theorem Stored.append (hb : Stored b w) (hmax : capacity (w.length + 1) ≤ intMax) (ch : UInt8) :
    ∃ b', b.append w.length ch = .ok b' ∧ Stored b' (w ++ [ch]) := by
  have hsize := hb.size
  have hle := length_le_capacity w.length
  have hlength : (w ++ [ch]).length = w.length + 1 := List.length_append
  by_cases hfull : w.length = b.maxLineLen
  · obtain ⟨b₁, hgrow, hlt, hsize₁, hbytes₁⟩ := hb.grow hfull hmax
    obtain ⟨b', hstore, hsize', hbytes⟩ := store_ok hbytes₁ hlt ch
    refine ⟨b', ?_, by rw [hsize', hsize₁, hlength], hbytes⟩
    simp only [LineBuffer.append, if_pos hfull, hgrow, hstore, bind, Except.bind]
  · have hlt : w.length < b.maxLineLen := by omega
    obtain ⟨b', hstore, hsize', hbytes⟩ := store_ok hb.bytes hlt ch
    refine ⟨b', ?_, ?_, hbytes⟩
    · simp only [LineBuffer.append, if_neg hfull, hstore, bind, Except.bind]
    · rw [hlength, capacity_succ, if_neg (by omega), hsize', hsize]

/-- The round in which the length would leave the range of `int`. -/
theorem Stored.append_exit (hb : Stored b w) (hle : capacity w.length ≤ intMax)
    (hmax : intMax < capacity (w.length + 1)) (ch : UInt8) :
    b.append w.length ch = .error .exit := by
  have hsucc := capacity_succ w.length
  have hsize := hb.size
  by_cases hfull : w.length = capacity w.length
  · rw [if_pos hfull, ← hsize] at hsucc
    have hgrow : b.grow = .error .exit := if_neg (by omega)
    simp only [LineBuffer.append, if_pos (hfull.trans hsize.symm), hgrow, bind, Except.bind]
  · rw [if_neg hfull] at hsucc
    omega

/-- What follows a line: nothing, or a byte that ends it. -/
def Ended (tail : Bytes) : Prop := ∀ x ∈ tail.head?, Ends x

/-- `read_line` has the first byte of what is left, or `EOF`. -/
def nextChar (s : Bytes) : UInt8 := toChar (getc ⟨s, false⟩).1

/-- The file past a line. -/
def after (tail : Bytes) : File := ⟨tail.tail, tail.isEmpty⟩

theorem getc_file (s : Bytes) : (getc ⟨s, false⟩).2 = after s := by
  cases s <;> rfl

/-- Behind the line, the loop ends. -/
theorem readLineLoop_end (htail : Ended tail) (b : LineBuffer) (n : ℕ) :
    readLineLoop (after tail) (nextChar tail) b n = .ok (after tail, b, n) := by
  have hends : Ends (nextChar tail) := by
    obtain _ | ⟨x, tail⟩ := tail
    · exact .inr (by decide)
    · have hx := htail x rfl
      rwa [nextChar, getc, toChar_toNat]
  rw [readLineLoop, if_neg fun hgo => goes_on_iff.1 hgo hends]

/-- A byte of the line is stored, and the next one read. -/
theorem readLineLoop_cons {x : UInt8} (hx : ¬Ends x) (s : Bytes) (b : LineBuffer) (n : ℕ) :
    readLineLoop (after (x :: s)) (nextChar (x :: s)) b n =
      b.append n x >>= fun b' => readLineLoop (after s) (nextChar s) b' (n + 1) := by
  have hchar : nextChar (x :: s) = x := toChar_toNat x
  rw [readLineLoop, hchar, if_pos (goes_on_iff.2 hx)]
  show (b.append n x >>= fun b' => readLineLoop (getc ⟨s, false⟩).2 (nextChar s) b' (n + 1)) = _
  rw [getc_file]

theorem capacity_mono {m n : ℕ} (h : m ≤ n) : capacity m ≤ capacity n := by
  simp only [capacity, maxBufLen]
  omega

/-- **The loop of `read_line`** stores the line. -/
theorem readLineLoop_ok (hb : Stored b w) (hline : ∀ x ∈ line, ¬Ends x) (htail : Ended tail)
    (hmax : capacity (w ++ line).length ≤ intMax) :
    ∃ b', readLineLoop (after (line ++ tail)) (nextChar (line ++ tail)) b w.length =
      .ok (after tail, b', (w ++ line).length) ∧ Stored b' (w ++ line) := by
  induction line generalizing b w with
  | nil =>
    rw [List.append_nil, List.nil_append]
    exact ⟨b, readLineLoop_end htail b w.length, hb⟩
  | cons x line ih =>
    rw [List.forall_mem_cons] at hline
    rw [List.append_cons] at hmax ⊢
    have hle : w.length + 1 ≤ (w ++ [x] ++ line).length := by simp
    obtain ⟨b₁, happend, hb₁⟩ := hb.append (Nat.le_trans (capacity_mono hle) hmax) x
    obtain ⟨b', hloop, hb'⟩ := ih hb₁ hline.2 hmax
    rw [List.length_append, List.length_singleton] at hloop
    refine ⟨b', ?_, hb'⟩
    rw [List.cons_append, readLineLoop_cons hline.1, happend]
    exact hloop

/-- A line too long for an `int`. -/
theorem readLineLoop_exit (tail : Bytes) (hb : Stored b w) (hline : ∀ x ∈ line, ¬Ends x)
    (hle : capacity w.length ≤ intMax) (hmax : intMax < capacity (w ++ line).length) :
    readLineLoop (after (line ++ tail)) (nextChar (line ++ tail)) b w.length = .error .exit := by
  induction line generalizing b w with
  | nil =>
    rw [List.append_nil] at hmax
    omega
  | cons x line ih =>
    rw [List.forall_mem_cons] at hline
    rw [List.append_cons] at hmax
    rw [List.cons_append, readLineLoop_cons hline.1]
    by_cases hnext : capacity (w.length + 1) ≤ intMax
    · obtain ⟨b₁, happend, hb₁⟩ := hb.append hnext x
      have hlength : (w ++ [x]).length = w.length + 1 := List.length_append
      have hloop := ih hb₁ hline.2 (hlength ▸ hnext) hmax
      rw [hlength] at hloop
      rw [happend]
      exact hloop
    · rw [hb.append_exit hle (by omega) x]
      rfl

/-- `read_line`, at the start of a line. -/
theorem readLine_eq (s : Bytes) : readLine ⟨s, false⟩ =
    readLineLoop (after s) (nextChar s) .alloc ([] : Bytes).length >>= fun r =>
      r.2.1.store r.2.2 0 >>= fun b =>
        .ok (strncpyS b.bytes.bytes (r.2.2 + 1), r.1) := by
  rw [readLine, getc_file]
  rfl

/-- The line, and the `NUL` behind it, have a place in a buffer that can be had. -/
def Fits (line : Bytes) : Prop :=
  ¬(0 < line.length ∧ maxBufLen ∣ line.length) ∧ line.length + maxBufLen ≤ intMax

instance (line : Bytes) : Decidable (Fits line) := by unfold Fits; infer_instance

theorem fits_iff : Fits line ↔
    capacity line.length ≤ intMax ∧ line.length < capacity line.length := by
  simp only [Fits, capacity, maxBufLen, intMax]
  omega

/-- The string a buffer holds ends with its first `NUL`. -/
theorem strncpyS_eq {src : Bytes} (hsrc : src.take (line.length + 1) = line ++ [0]) :
    strncpyS src (line.length + 1) = line.takeWhile (· ≠ 0) := by
  rw [strncpyS, hsrc, List.takeWhile_append]
  split
  · next hlength =>
    have hself := (List.takeWhile_prefix (p := (· ≠ 0)) (l := line)).eq_of_length hlength
    rw [hself, List.takeWhile_cons_of_neg (by decide), List.append_nil]
  · rfl

/-- `read_line` returns a line that fits, up to a `NUL` in it. -/
theorem readLine_ok (hline : ∀ x ∈ line, ¬Ends x) (htail : Ended tail) (hfits : Fits line) :
    readLine ⟨line ++ tail, false⟩ = .ok (line.takeWhile (· ≠ 0), after tail) := by
  obtain ⟨hmax, hlt⟩ := fits_iff.1 hfits
  obtain ⟨b, hloop, hb⟩ := readLineLoop_ok Stored.alloc hline htail hmax
  obtain ⟨b', hstore, -, hbytes⟩ := store_ok hb.bytes (hb.size ▸ hlt) 0
  rw [List.length_append, List.length_singleton] at hbytes
  rw [readLine_eq]
  rw [List.nil_append] at *
  simp only [hloop, hstore, bind, Except.bind, strncpyS_eq hbytes]

/-- **The terminator outside the buffer**: the line is as long as the buffer has grown. -/
theorem readLine_bounds (hline : ∀ x ∈ line, ¬Ends x) (htail : Ended tail)
    (hmax : capacity line.length ≤ intMax) (hfull : line.length = capacity line.length) :
    readLine ⟨line ++ tail, false⟩ = .error (.fault .bounds) := by
  obtain ⟨b, hloop, hb⟩ := readLineLoop_ok Stored.alloc hline htail hmax
  rw [List.nil_append] at hloop hb
  have hstore := store_full (hfull.trans hb.size.symm) 0
  simp only [readLine_eq, hloop, hstore, bind, Except.bind]

/-- Of a line that does not fit, `read_line` does not return. -/
theorem readLine_fails (hline : ∀ x ∈ line, ¬Ends x) (htail : Ended tail) (hfits : ¬Fits line) :
    ∃ e, readLine ⟨line ++ tail, false⟩ = .error e := by
  by_cases hmax : capacity line.length ≤ intMax
  · have hnot : ¬line.length < capacity line.length := fun hlt => hfits (fits_iff.2 ⟨hmax, hlt⟩)
    have hle := length_le_capacity line.length
    exact ⟨_, readLine_bounds hline htail hmax (by omega)⟩
  · have hloop := readLineLoop_exit tail Stored.alloc hline (by decide) (Nat.lt_of_not_le hmax)
    refine ⟨.exit, ?_⟩
    simp only [readLine_eq, hloop, bind, Except.bind]

/-! ## `read_config` -/

theorem readConfigLines_atEof (s : Bytes) : readConfigLines ⟨s, true⟩ = .ok [] := by
  rw [readConfigLines, dif_pos rfl]

theorem readConfigLines_ok {s : Bytes} {file : File} (h : readLine ⟨s, false⟩ = .ok (line, file)) :
    readConfigLines ⟨s, false⟩ = readConfigLines file >>= fun lines => .ok (line :: lines) := by
  rw [readConfigLines, dif_neg (by simp)]
  split
  · simp_all
  · next hline =>
    rw [h] at hline
    simp only [Except.ok.injEq, Prod.mk.injEq] at hline
    rw [hline.1, hline.2]

theorem readConfigLines_fails {s : Bytes} {e : Stop} (h : readLine ⟨s, false⟩ = .error e) :
    readConfigLines ⟨s, false⟩ = .error e := by
  rw [readConfigLines, dif_neg (by simp)]
  split <;> simp_all

theorem cons_bind_eq_ok {x : Except Stop (List Bytes)} {r : List Bytes} :
    (x >>= fun lines => .ok (line :: lines)) = .ok r ↔ ∃ ls, x = .ok ls ∧ r = line :: ls := by
  cases x <;> simp [bind, Except.bind, eq_comm]

/-- What is left of a file is a line and what follows it. -/
theorem exists_line (s : Bytes) : ∃ line tail, s = line ++ tail ∧ (∀ x ∈ line, ¬Ends x) ∧
    Ended tail := by
  induction s with
  | nil => exact ⟨[], [], rfl, nofun, nofun⟩
  | cons x s ih =>
    by_cases hx : Ends x
    · refine ⟨[], x :: s, rfl, nofun, fun y hy => ?_⟩
      obtain rfl : x = y := by simpa using hy
      exact hx
    · obtain ⟨line, tail, rfl, hline, htail⟩ := ih
      exact ⟨x :: line, tail, rfl, List.forall_mem_cons.2 ⟨hx, hline⟩, htail⟩

/-- No byte of a line is lost but those that end the lines. -/
theorem mem_splitOn {x : UInt8} {s : Bytes} (hx : x ∈ s) (hne : x ≠ newline) :
    ∃ l ∈ s.splitOn newline, x ∈ l := by
  induction s with
  | nil => simp at hx
  | cons y s ih =>
    rw [List.splitOn_cons_eq_if_modifyHead]
    split
    · next hy =>
      obtain rfl := eq_of_beq hy
      obtain ⟨l, hl, hxl⟩ := ih ((List.mem_cons.1 hx).resolve_left hne)
      exact ⟨l, List.mem_cons_of_mem _ hl, hxl⟩
    · obtain ⟨r, ls, hsplit⟩ := List.exists_cons_of_ne_nil (List.splitOn_ne_nil newline s)
      rw [hsplit, List.modifyHead_cons]
      rcases List.mem_cons.1 hx with rfl | hx
      · exact ⟨x :: r, List.mem_cons_self, List.mem_cons_self⟩
      · obtain ⟨l, hl, hxl⟩ := ih hx
        rw [hsplit] at hl
        rcases List.mem_cons.1 hl with rfl | hl
        · exact ⟨y :: l, List.mem_cons_self, List.mem_cons_of_mem y hxl⟩
        · exact ⟨l, List.mem_cons_of_mem _ hl, hxl⟩

theorem tail_length_lt {s : Bytes} {x : UInt8} (h : s = line ++ x :: tail) :
    tail.length < s.length := by
  rw [h, List.length_append, List.length_cons]
  omega

/-- **What is returned has no `NUL` and no byte with the value of `EOF`**, and is read from the
file. -/
theorem readConfigLines_mem {s : Bytes} {r : List Bytes} (h : readConfigLines ⟨s, false⟩ = .ok r) :
    ∀ l ∈ r, ∀ x ∈ l, x ∈ s ∧ x ≠ 0 ∧ x ≠ 255 := by
  induction hn : s.length using Nat.strong_induction_on generalizing s r with
  | _ n ih =>
    obtain ⟨line, tail, hs, hline, htail⟩ := exists_line s
    have hread : ∀ x ∈ line.takeWhile (· ≠ 0), x ∈ s ∧ x ≠ 0 ∧ x ≠ 255 := by
      intro x hx
      have hmem := (List.takeWhile_prefix _).subset hx
      have hzero := List.mem_takeWhile_imp hx
      refine ⟨hs ▸ List.mem_append_left tail hmem, by simpa using hzero, fun h255 => ?_⟩
      exact hline x hmem (.inr h255)
    by_cases hfits : Fits line
    · rw [hs, readConfigLines_ok (readLine_ok hline htail hfits), cons_bind_eq_ok] at h
      obtain ⟨ls, hrest, rfl⟩ := h
      rw [List.forall_mem_cons]
      refine ⟨hread, ?_⟩
      obtain _ | ⟨x, tail⟩ := tail
      · obtain rfl : ls = [] := by simpa [after, readConfigLines_atEof] using hrest.symm
        exact nofun
      · intro l hl y hy
        have hlt : tail.length < n := hn ▸ tail_length_lt hs
        obtain ⟨hmem, hne⟩ := ih tail.length hlt hrest rfl l hl y hy
        exact ⟨hs ▸ List.mem_append_right line (List.mem_cons_of_mem x hmem), hne⟩
    · obtain ⟨e, he⟩ := readLine_fails hline htail hfits
      rw [hs, readConfigLines_fails he] at h
      simp at h

/-- **Where no byte is `NUL` or has the value of `EOF`**, the lines are returned exactly where all
of them fit. -/
theorem readConfigLines_iff {s : Bytes} (hclean : ∀ x ∈ s, x ≠ 0 ∧ x ≠ 255) :
    readConfigLines ⟨s, false⟩ = .ok (s.splitOn newline) ↔ ∀ l ∈ s.splitOn newline, Fits l := by
  induction hn : s.length using Nat.strong_induction_on generalizing s with
  | _ n ih =>
    obtain ⟨line, tail, hs, hline, htail⟩ := exists_line s
    have hnot : newline ∉ line := fun hmem => hline newline hmem (.inl rfl)
    -- no `NUL` cuts the line short
    have hstring : line.takeWhile (· ≠ 0) = line := by
      rw [List.takeWhile_eq_self_iff]
      intro x hx
      have hmem : x ∈ s := hs ▸ List.mem_append_left tail hx
      simpa using (hclean x hmem).1
    -- no byte is taken for the end of the file
    have hnewline : ∀ x ∈ tail.head?, x = newline := by
      intro x hx
      have hmem : x ∈ s := hs ▸ List.mem_append_right line (List.mem_of_head? hx)
      exact (htail x hx).resolve_right (hclean x hmem).2
    by_cases hfits : Fits line
    · rw [hs, readConfigLines_ok (readLine_ok hline htail hfits), hstring]
      obtain _ | ⟨x, tail⟩ := tail
      · -- the last line
        rw [List.append_nil, List.splitOn_eq_singleton hnot, after, List.tail_nil,
          List.isEmpty_nil, readConfigLines_atEof]
        simp [bind, Except.bind, hfits]
      · obtain rfl := hnewline x rfl
        have hclean' : ∀ y ∈ tail, y ≠ 0 ∧ y ≠ 255 := fun y hy => hclean y (hs ▸ by simp [hy])
        -- the others are read as a file of their own
        have hrest := ih tail.length (hn ▸ tail_length_lt hs) hclean' rfl
        rw [List.splitOn_append_cons_self_of_not_mem hnot, List.forall_mem_cons, cons_bind_eq_ok,
          ← hrest]
        constructor
        · rintro ⟨ls, hls, heq⟩
          rw [(List.cons.inj heq).2]
          exact ⟨hfits, hls⟩
        · rintro ⟨-, hls⟩
          exact ⟨_, hls, rfl⟩
    · obtain ⟨e, he⟩ := readLine_fails hline htail hfits
      have hfirst : line ∈ s.splitOn newline := by
        obtain _ | ⟨x, tail⟩ := tail
        · rw [hs, List.append_nil, List.splitOn_eq_singleton hnot]
          exact List.mem_cons_self
        · obtain rfl := hnewline x rfl
          rw [hs, List.splitOn_append_cons_self_of_not_mem hnot]
          exact List.mem_cons_self
      rw [hs, readConfigLines_fails he, ← hs]
      exact ⟨nofun, fun hall => absurd (hall line hfirst) hfits⟩

/-- A byte of the file is read, but for a carriage return. -/
theorem mem_crlf {x : UInt8} {s : Bytes} (hx : x ∈ s) (hne : x ≠ 13) : x ∈ crlf s := by
  fun_induction crlf s with
  | case1 s ih =>
    rcases List.mem_cons.1 hx with rfl | hx
    · exact absurd rfl hne
    rcases List.mem_cons.1 hx with rfl | hx
    · exact List.mem_cons_self
    · exact List.mem_cons_of_mem _ (ih hx)
  | case2 y s _ ih =>
    rcases List.mem_cons.1 hx with rfl | hx
    · exact List.mem_cons_self
    · exact List.mem_cons_of_mem _ (ih hx)
  | case3 => simp at hx

theorem mem_of_mem_crlf {x : UInt8} {s : Bytes} (hx : x ∈ crlf s) : x ∈ s := by
  fun_induction crlf s with
  | case1 s ih =>
    rcases List.mem_cons.1 hx with rfl | hx
    · simp
    · exact List.mem_cons_of_mem _ (List.mem_cons_of_mem _ (ih hx))
  | case2 y s _ ih =>
    rcases List.mem_cons.1 hx with rfl | hx
    · exact List.mem_cons_self
    · exact List.mem_cons_of_mem _ (ih hx)
  | case3 => simp at hx

/-- The lines of a file: what is between its line ends. -/
def lines (content : Bytes) : List Bytes := (crlf content).splitOn newline

/-- A content without the bytes that end a line or the file early, or the string returned. -/
def Plain (content : Bytes) : Prop := ∀ x ∈ content, x ≠ 0 ∧ x ≠ ctrlZ ∧ x ≠ 255

/-- **What `read_config` reads.** It writes inside its buffers and reads exactly the lines of the
file if and only if the content is plain and all lines fit. -/
theorem readConfig_iff (content : Bytes) :
    readConfig content = .ok (lines content) ↔
      Plain content ∧ ∀ line ∈ lines content, Fits line := by
  rw [readConfig, fopen]
  have hplain : Plain content → content.takeWhile (· ≠ ctrlZ) = content := by
    intro hplain
    rw [List.takeWhile_eq_self_iff]
    intro x hx
    simpa using (hplain x hx).2.1
  have hclean : Plain content → ∀ x ∈ crlf content, x ≠ 0 ∧ x ≠ 255 := by
    intro hplain x hx
    obtain ⟨hzero, -, h255⟩ := hplain x (mem_of_mem_crlf hx)
    exact ⟨hzero, h255⟩
  constructor
  · intro hread
    have hcontent : Plain content := by
      intro x hx
      by_contra hbad
      -- such a byte is in a line of the file, and in no line that is returned
      have hne : x ≠ 13 ∧ x ≠ newline := by
        constructor <;> rintro rfl <;> exact hbad (by decide)
      obtain ⟨l, hl, hxl⟩ := mem_splitOn (mem_crlf hx hne.1) hne.2
      obtain ⟨hmem, hzero, h255⟩ := readConfigLines_mem hread l hl x hxl
      have hctrlZ := List.mem_takeWhile_imp (mem_of_mem_crlf hmem)
      exact hbad ⟨hzero, by simpa using hctrlZ, h255⟩
    rw [hplain hcontent] at hread
    exact ⟨hcontent, (readConfigLines_iff (hclean hcontent)).1 hread⟩
  · rintro ⟨hcontent, hfits⟩
    rw [hplain hcontent]
    exact (readConfigLines_iff (hclean hcontent)).2 hfits

/-- A line of 128 bytes, and a byte with the value of `EOF` in a line. -/
theorem readConfig_misreads :
    readConfig (List.replicate 128 97) = .error (.fault .bounds) ∧
      (readConfig [97, 255, 98] = .ok [[97], [98]] ∧
        lines [97, 255, 98] = [[97, 255, 98]]) ∧
      ¬∀ content, readConfig content = .ok (lines content) := by
  -- the byte that ends the string is written behind the buffer
  have hlong : readConfig (List.replicate 128 97) = .error (.fault .bounds) := by
    have hline : ∀ x ∈ List.replicate 128 (97 : UInt8), ¬Ends x := by
      intro x hx
      rw [List.eq_of_mem_replicate hx]
      simp [Ends, newline]
    have hcapacity : capacity (List.replicate 128 (97 : UInt8)).length = 128 := by
      rw [List.length_replicate]
      rfl
    have hbounds := readLine_bounds hline (show Ended [] from nofun)
      (by rw [hcapacity]; decide) (by rw [hcapacity, List.length_replicate])
    have hopen : fopen (List.replicate 128 97) = ⟨List.replicate 128 97 ++ [], false⟩ := rfl
    rw [readConfig, hopen, readConfigLines_fails hbounds]
  refine ⟨hlong, ⟨?_, by decide⟩, fun hall => ?_⟩
  · have hfirst : readLine ⟨[97] ++ [255, 98], false⟩ = .ok ([97], ⟨[98], false⟩) :=
      readLine_ok (by simp [Ends, newline]) (by simp [Ended, Ends]) (by decide)
    have hsecond : readLine ⟨[98], false⟩ = .ok ([98], ⟨[], true⟩) :=
      show readLine ⟨[98] ++ [], false⟩ = _ from
        readLine_ok (by simp [Ends, newline]) nofun (by decide)
    have hopen : fopen [97, 255, 98] = ⟨[97] ++ [255, 98], false⟩ := rfl
    rw [readConfig, hopen, readConfigLines_ok hfirst, readConfigLines_ok hsecond,
      readConfigLines_atEof]
    rfl
  · have hcontra := hall (List.replicate 128 97)
    rw [hlong] at hcontra
    simp at hcontra

end Muxer.Config

import Muxer.Spec.Mem
import Mathlib.Data.Int.Notation

/-!
# Reading the configuration file (`common/config.c`, `global.c`)

`fopen_s` opens the file with `"r"`, which on Windows is a text stream: a carriage return and line
feed are read as one line feed, and the byte 26 (Ctrl-Z) ends the file. `char` is signed, so that
the byte 255 has the value of `EOF`. `memalloc` is taken to succeed, and `memrealloc` for lengths
that are an `int`. What `read_config_line` makes of a line is in `Muxer.Spec.Settings`: it does not
touch the file.
-/

namespace Muxer.Config

/-- What ends the process before the file is read. -/
inductive Stop
  | fault (f : Fault)
  /-- `exit(1)`. -/
  | exit
deriving DecidableEq, Repr

/-- `MAX_BUF_LEN`. -/
def maxBufLen : ℕ := 128

/-- `INT_MAX`. -/
def intMax : ℕ := 2147483647

def eof : ℤ := -1

/-- `'\n'`. -/
def newline : UInt8 := 10

/-- The byte that ends a file in text mode. -/
def ctrlZ : UInt8 := 26

/-- The value of a `char`. -/
def charValue (ch : UInt8) : ℤ := if ch.toNat < 128 then ch.toNat else ch.toNat - 256

/-- An `int` stored in a `char`. -/
def toChar (c : ℤ) : UInt8 := UInt8.ofNat (c % 256).toNat

/-- Line ends, as they are read. -/
def crlf : Bytes → Bytes
  | 13 :: 10 :: bs => 10 :: crlf bs
  | b :: bs => b :: crlf bs
  | [] => []

/-- A `FILE`: what is still to be read, and whether the end was met. -/
structure File where
  rest : Bytes
  atEof : Bool

/-- `fopen_s(.., "r")` of a file with this content. -/
def fopen (content : Bytes) : File := ⟨crlf (content.takeWhile (· ≠ ctrlZ)), false⟩

def getc (file : File) : ℤ × File :=
  match file.rest with
  | [] => (eof, { file with atEof := true })
  | b :: rest => (b.toNat, { file with rest := rest })

/-- `line_buffer`, of `max_line_len` bytes. -/
structure LineBuffer where
  maxLineLen : ℕ
  bytes : Buffer maxLineLen

/-- `memalloc`. What is in the memory is never read, and taken to be zero. -/
def LineBuffer.alloc : LineBuffer := ⟨maxBufLen, .zero maxBufLen⟩

/-- `memrealloc` to `max_line_len + MAX_BUF_LEN`, which is a negative `int` past `INT_MAX`. -/
def LineBuffer.grow (b : LineBuffer) : Except Stop LineBuffer :=
  if b.maxLineLen + maxBufLen ≤ intMax then
    .ok ⟨b.maxLineLen + maxBufLen, b.bytes.bytes ++ List.replicate maxBufLen 0, by
      rw [List.length_append, List.length_replicate, b.bytes.size_eq]⟩
  else .error .exit

/-- `line_buffer[i] = ch`. -/
def LineBuffer.store (b : LineBuffer) (i : ℕ) (ch : UInt8) : Except Stop LineBuffer :=
  match b.bytes.write i [ch] with
  | .ok bytes => .ok ⟨b.maxLineLen, bytes⟩
  | .error f => .error (.fault f)

/-- A round of the loop of `read_line`, up to the next `getc`: a full buffer grows first. -/
def LineBuffer.append (b : LineBuffer) (count : ℕ) (ch : UInt8) : Except Stop LineBuffer := do
  let b ← if count = b.maxLineLen then b.grow else .ok b
  b.store count ch

/-- `strncpy_s(line, n, src, n)`: the string in the first `n` bytes. -/
def strncpyS (src : Bytes) (n : ℕ) : Bytes := (src.take n).takeWhile (· ≠ 0)

theorem charValue_toChar_eof : charValue (toChar eof) = eof := by decide

/-- The loop of `read_line`. -/
def readLineLoop (file : File) (ch : UInt8) (lineBuffer : LineBuffer) (count : ℕ) :
    Except Stop (File × LineBuffer × ℕ) :=
  if charValue ch ≠ charValue newline ∧ charValue ch ≠ eof then do
    let lineBuffer ← lineBuffer.append count ch
    readLineLoop (getc file).2 (toChar (getc file).1) lineBuffer (count + 1)
  else .ok (file, lineBuffer, count)
termination_by file.rest.length + if charValue ch = eof then 0 else 1
decreasing_by
  have hch : charValue ch ≠ eof := (‹_ ∧ charValue ch ≠ eof›).2
  rw [if_neg hch]
  unfold getc
  split
  · next hrest =>
    rw [if_pos charValue_toChar_eof, hrest]
    simp
  · next b rest hrest =>
    rw [hrest]
    simp only [List.length_cons]
    split <;> omega

/-- `read_line`: the string returned. -/
def readLine (file : File) : Except Stop (Bytes × File) := do
  let (file, lineBuffer, count) ← readLineLoop (getc file).2 (toChar (getc file).1) .alloc 0
  let lineBuffer ← lineBuffer.store count 0
  .ok (strncpyS lineBuffer.bytes.bytes (count + 1), file)

/-- How often `getc` can be called before the end of the file has been met. -/
def File.left (file : File) : ℕ := file.rest.length + if file.atEof then 0 else 1

theorem getc_left (file : File) : (getc file).2.left ≤ file.left := by
  unfold getc File.left
  split
  · next hrest => simp [hrest]
  · next hrest =>
    rw [hrest, List.length_cons]
    simp only
    omega

theorem getc_left_lt {file : File} (h : file.atEof = false) : (getc file).2.left < file.left := by
  unfold getc File.left
  split
  · next hrest => simp [hrest, h]
  · next hrest =>
    rw [hrest, List.length_cons]
    simp only
    omega

theorem readLineLoop_left {file file' : File} {ch : UInt8} {b b' : LineBuffer} {count n : ℕ}
    (h : readLineLoop file ch b count = .ok (file', b', n)) : file'.left ≤ file.left := by
  fun_induction readLineLoop file ch b count with
  | case1 file ch b count _ ih =>
    cases hb : b.append count ch with
    | error e => simp [hb, bind, Except.bind] at h
    | ok b₁ =>
      simp only [hb, bind, Except.bind] at h
      exact Nat.le_trans (ih b₁ h) (getc_left file)
  | case2 file =>
    simp only [Except.ok.injEq, Prod.mk.injEq] at h
    exact Nat.le_of_eq (by rw [h.1])

theorem readLine_left {file file' : File} {line : Bytes} (hfile : file.atEof = false)
    (h : readLine file = .ok (line, file')) : file'.left < file.left := by
  unfold readLine at h
  cases hloop : readLineLoop (getc file).2 (toChar (getc file).1) .alloc 0 with
  | error e => simp [hloop, bind, Except.bind] at h
  | ok s =>
    obtain ⟨file₁, b, count⟩ := s
    have hleft := readLineLoop_left hloop
    cases hb : b.store count 0 with
    | error e => simp [hloop, hb, bind, Except.bind] at h
    | ok b₁ =>
      simp only [hloop, hb, bind, Except.bind, Except.ok.injEq, Prod.mk.injEq] at h
      rw [← h.2]
      exact Nat.lt_of_le_of_lt hleft (getc_left_lt hfile)

/-- The loop of `read_config`: the lines it passes to `read_config_line`. -/
def readConfigLines (file : File) : Except Stop (List Bytes) :=
  if _hfile : file.atEof then .ok []
  else
    match _hline : readLine file with
    | .error e => .error e
    | .ok (line, file') => do
      let lines ← readConfigLines file'
      .ok (line :: lines)
termination_by file.left
decreasing_by exact readLine_left (Bool.eq_false_iff.2 _hfile) _hline

/-- `read_config`, of a file with this content. -/
def readConfig (content : Bytes) : Except Stop (List Bytes) := readConfigLines (fopen content)

end Muxer.Config

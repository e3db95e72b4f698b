import Muxer.Proof.Config
import Muxer.Spec.Settings
import Mathlib.Data.List.DropRight

/-!
# What a configuration file means

A line sets something if there is a `=` in it, with the text before it for the key and the text
behind it for the value, both without the white space around them. Of the lines with a key, the last
one that sets something counts.

* `trimWs_ok`, `split_singleton`: what the functions on strings do.
* `readConfigLine_iff`: what a line sets.
* `readSettings_iff`: what a file of lines that fit sets. It is read, unless an address in it is too
  long.
-/

namespace Muxer.Settings

open Muxer.Config

/-! ## Strings -/

/-- No `char` of the string is negative. -/
def Ascii (s : Bytes) : Prop := ∀ ch ∈ s, ch < 128

instance (s : Bytes) : Decidable (Ascii s) := List.decidableBAll _ s

/-- A string without the white space around it. -/
def strip (s : Bytes) : Bytes := (s.dropWhile isSpace).rdropWhile isSpace

/-- The parts of a string before and behind the first `d`. -/
def cut (d : UInt8) (s : Bytes) : Option (Bytes × Bytes) :=
  if d ∈ s then some (s.takeWhile (· ≠ d), (s.dropWhile (· ≠ d)).tail) else none

variable {s t : Bytes} {d : UInt8}

theorem Ascii.subset (h : Ascii s) (hsub : t ⊆ s) : Ascii t := fun ch hch => h ch (hsub hch)

theorem isspace_ok {ch : UInt8} (h : ch < 128) : isspace ch = .ok (isSpace ch) := by
  have hlt : ch.toNat < 128 := h
  have hpos : ¬charValue ch < eof := by
    rw [charValue, if_pos hlt, eof]
    omega
  rw [isspace, if_neg hpos]

theorem trimFront_ok (h : Ascii s) : trimFront s = .ok (s.dropWhile isSpace) := by
  induction s with
  | nil => rfl
  | cons ch s ih =>
    rw [Ascii, List.forall_mem_cons] at h
    simp only [trimFront, isspace_ok h.1, bind, Except.bind]
    by_cases hspace : isSpace ch = true
    · rw [if_pos hspace, ih h.2, List.dropWhile_cons_of_pos hspace]
    · rw [if_neg hspace, List.dropWhile_cons_of_neg hspace]

/-- The loop from the end of the string comes to a byte that is no space. -/
theorem trimBack_ok (h : Ascii s) (hlast : ∀ ch ∈ s.getLast?, ¬isSpace ch = true) :
    trimBack s = .ok (s.dropWhile isSpace) := by
  induction s with
  | nil => rfl
  | cons ch s ih =>
    rw [Ascii, List.forall_mem_cons] at h
    obtain _ | ⟨ch', s⟩ := s
    · rw [List.dropWhile_cons_of_neg (hlast ch rfl)]
      rfl
    · simp only [trimBack, isspace_ok h.1, bind, Except.bind]
      rw [List.getLast?_cons_cons] at hlast
      by_cases hspace : isSpace ch = true
      · rw [if_pos hspace, ih h.2 hlast, List.dropWhile_cons_of_pos hspace]
      · rw [if_neg hspace, List.dropWhile_cons_of_neg hspace]

/-- **`trim_ws` strips the string.** -/
theorem trimWs_ok (h : Ascii s) : trimWs s = .ok (strip s) := by
  have hfront : Ascii (s.dropWhile isSpace).reverse :=
    fun ch hch => h ch (List.dropWhile_subset _ (List.mem_reverse.1 hch))
  have hlast : ∀ ch ∈ (s.dropWhile isSpace).reverse.getLast?, ¬isSpace ch = true := by
    intro ch hch
    rw [List.getLast?_reverse] at hch
    have hnot := List.head?_dropWhile_not isSpace s
    rw [hch] at hnot
    simpa using hnot
  simp only [trimWs, trimFront_ok h, trimBack_ok hfront hlast, bind, Except.bind]
  rfl

theorem strstr_singleton (d : UInt8) (s : Bytes) :
    strstr [d] s = if d ∈ s then some (s.takeWhile (· ≠ d)).length else none := by
  induction s with
  | nil => simp [strstr]
  | cons ch s ih =>
    rw [strstr]
    by_cases hd : ch = d
    · subst hd
      simp
    · have hnot : ¬[d] <+: ch :: s := by
        rw [List.singleton_prefix_cons_iff]
        exact fun heq => hd heq.symm
      rw [if_neg hnot, ih]
      by_cases hmem : d ∈ s
      · simp [hmem, hd]
      · simp [hmem, Ne.symm hd]

/-- **`split` cuts the string.** -/
theorem split_singleton (d : UInt8) (s : Bytes) : split s [d] = cut d s := by
  rw [split, strstr_singleton, cut]
  by_cases hmem : d ∈ s
  · rw [if_pos hmem, if_pos hmem]
    have hsplit := List.takeWhile_append_dropWhile (p := (· ≠ d)) (l := s)
    generalize s.takeWhile (· ≠ d) = front at *
    generalize s.dropWhile (· ≠ d) = back at *
    subst hsplit
    have hback : (front ++ back).drop (front.length + 1) = back.tail := by
      rw [List.drop_append, List.drop_of_length_le (Nat.le_succ _), List.nil_append,
        Nat.add_sub_cancel_left, List.drop_one]
    have hall : (front ++ back).length - [d].length - front.length = back.tail.length := by
      rw [List.length_append, List.length_singleton, List.length_tail]
      omega
    simp only [List.length_singleton] at hall ⊢
    rw [List.take_left, hback, hall, List.take_length]
  · rw [if_neg hmem, if_neg hmem]

/-! ## Lines -/

/-- What a line sets: a key and a value. -/
def entry (line : Bytes) : Option (Bytes × Bytes) :=
  (cut 61 line).map fun (key, value) => (strip key, strip value)

/-- The value a line has for a key. -/
def valueFor (key line : Bytes) : Option Bytes :=
  (entry line).bind fun e => if e.1 = key then some e.2 else none

def flagFor (key line : Bytes) : Option Bool := (valueFor key line).map fun v => decide (v = strTrue)

/-- The address in a value: there is a `:` in it. -/
def addressIn (value : Bytes) : Option (Bytes × UInt16) :=
  (cut 58 value).map fun (ip, port) => (strip ip, UInt16.ofNat (atoi (strip port) % 65536).toNat)

def addressFor (key line : Bytes) : Option (Bytes × UInt16) := (valueFor key line).bind addressIn

/-- No address in the line is too long. -/
def AddressesFit (line : Bytes) : Prop :=
  ∀ key ∈ [keyConnIn, keyConnOut], ∀ a ∈ addressFor key line, a.1.length < maxIpAddrLen

instance (line : Bytes) : Decidable (AddressesFit line) := by
  unfold AddressesFit
  infer_instance

/-- The last line that sets something counts. -/
def lastFor {α : Type} (f : Bytes → Option α) (lines : List Bytes) : Option α :=
  (lines.filterMap f).getLast?

def IpAddress.pair (a : IpAddress) : Bytes × UInt16 := (a.ip, a.port)

/-- The lines make `config'` of `config`. -/
structure Sets (lines : List Bytes) (config config' : Config) : Prop where
  connectionIn : config'.connectionIn.pair =
    (lastFor (addressFor keyConnIn) lines).getD config.connectionIn.pair
  connectionOut : config'.connectionOut.pair =
    (lastFor (addressFor keyConnOut) lines).getD config.connectionOut.pair
  logInfo : config'.logInfo = (lastFor (flagFor keyLogInfo) lines).getD config.logInfo
  logDebug : config'.logDebug = (lastFor (flagFor keyLogDebug) lines).getD config.logDebug
  logError : config'.logError = (lastFor (flagFor keyLogError) lines).getD config.logError

variable {line key value : Bytes} {config config' : Config}

theorem cut_subset (h : cut d s = some (key, value)) : key ⊆ s ∧ value ⊆ s := by
  unfold cut at h
  split at h
  · cases h
    exact ⟨(List.takeWhile_sublist _).subset,
      ((List.tail_sublist _).trans (List.dropWhile_sublist _)).subset⟩
  · cases h

/-- **`read_ip_address`** sets the address that there is in its text, if it fits. -/
theorem readIpAddress_iff (h : Ascii s) (a : IpAddress) :
    (∀ a', readIpAddress s a = .ok a' → a'.pair = (addressIn s).getD a.pair) ∧
      ((∃ a', readIpAddress s a = .ok a') ↔ ∀ x ∈ addressIn s, x.1.length < maxIpAddrLen) := by
  have htoken : colToken = [58] := by decide
  rw [addressIn]
  cases hcut : cut 58 s with
  | none => simp [readIpAddress, htoken, split_singleton, hcut]
  | some parts =>
    obtain ⟨ip, port⟩ := parts
    obtain ⟨hip, hport⟩ := cut_subset hcut
    have hread : readIpAddress s a = IpAddress.set (strip ip) (atoi (strip port)) := by
      simp only [readIpAddress, htoken, split_singleton, hcut, trimWs_ok (h.subset hip),
        trimWs_ok (h.subset hport), bind, Except.bind]
    rw [hread, IpAddress.set]
    by_cases hlt : (strip ip).length < maxIpAddrLen
    · rw [dif_pos hlt]
      simp [hlt, IpAddress.pair]
    · rw [dif_neg hlt]
      simp [hlt]

theorem lastFor_singleton {α : Type} (f : Bytes → Option α) (line : Bytes) :
    lastFor f [line] = f line := by
  rw [lastFor, List.filterMap_cons]
  cases f line <;> rfl

theorem lastFor_append {α : Type} (f : Bytes → Option α) (xs ys : List Bytes) :
    lastFor f (xs ++ ys) = (lastFor f ys).or (lastFor f xs) := by
  rw [lastFor, List.filterMap_append, List.getLast?_append]
  rfl

theorem setFlags_same (config : Config) (key value : Bytes) :
    (setFlags config key value).connectionIn = config.connectionIn ∧
      (setFlags config key value).connectionOut = config.connectionOut := by
  unfold setFlags
  split_ifs <;> exact ⟨rfl, rfl⟩

theorem readConfigLine_none (h : cut 61 line = none) : readConfigLine config line = .ok config := by
  have htoken : eqToken = [61] := by decide
  simp only [readConfigLine, htoken, split_singleton, h]

theorem readConfigLine_some {k v : Bytes} (hascii : Ascii line) (h : cut 61 line = some (k, v)) :
    readConfigLine config line =
      if strip k = keyConnIn then
        readIpAddress (strip v) config.connectionIn >>= fun a =>
          .ok { setFlags config (strip k) (strip v) with connectionIn := a }
      else if strip k = keyConnOut then
        readIpAddress (strip v) config.connectionOut >>= fun a =>
          .ok { setFlags config (strip k) (strip v) with connectionOut := a }
      else .ok (setFlags config (strip k) (strip v)) := by
  have htoken : eqToken = [61] := by decide
  have hne : keyConnIn ≠ keyConnOut := by decide
  obtain ⟨hk, hv⟩ := cut_subset h
  obtain ⟨hin, hout⟩ := setFlags_same config (strip k) (strip v)
  simp only [readConfigLine, htoken, split_singleton, h, trimWs_ok (hascii.subset hk),
    trimWs_ok (hascii.subset hv), bind, Except.bind, hin]
  by_cases hkin : strip k = keyConnIn
  · have hkout : ¬strip k = keyConnOut := fun hkout => hne (hkin.symm.trans hkout)
    rw [if_pos hkin, if_pos hkin]
    cases readIpAddress (strip v) config.connectionIn with
    | error e => rfl
    | ok a => simp only [if_neg hkout]
  · rw [if_neg hkin, if_neg hkin]
    by_cases hkout : strip k = keyConnOut
    · simp only [if_pos hkout, hout]
    · simp only [if_neg hkout]

theorem strip_subset (s : Bytes) : strip s ⊆ s :=
  ((List.rdropWhile_prefix isSpace _).sublist.trans (List.dropWhile_sublist isSpace)).subset

theorem setFlags_flags (config : Config) (key value : Bytes) :
    (setFlags config key value).logInfo =
        (if key = keyLogInfo then decide (value = strTrue) else config.logInfo) ∧
      (setFlags config key value).logDebug =
        (if key = keyLogDebug then decide (value = strTrue) else config.logDebug) ∧
      (setFlags config key value).logError =
        (if key = keyLogError then decide (value = strTrue) else config.logError) := by
  unfold setFlags
  split_ifs <;> exact ⟨rfl, rfl, rfl⟩

/-- **`read_config_line`** sets what the line says, unless it has an address that is too long. -/
theorem readConfigLine_iff (hascii : Ascii line) (config : Config) :
    (∀ config', readConfigLine config line = .ok config' → Sets [line] config config') ∧
      ((∃ config', readConfigLine config line = .ok config') ↔ AddressesFit line) := by
  cases hcut : cut 61 line with
  | none =>
    -- a line without a sign has no value for any key
    have hvalue : ∀ key, valueFor key line = none := by simp [valueFor, entry, hcut]
    rw [readConfigLine_none hcut]
    refine ⟨?_, by simp [AddressesFit, addressFor, hvalue]⟩
    rintro config' ⟨⟩
    constructor <;> simp [lastFor_singleton, addressFor, flagFor, hvalue]
  | some parts =>
    obtain ⟨k, v⟩ := parts
    have hv : Ascii (strip v) := hascii.subset (List.Subset.trans (strip_subset v) (cut_subset hcut).2)
    -- the line has one key, whose value is what is after the sign
    have hvalue : ∀ key, valueFor key line = if strip k = key then some (strip v) else none := by
      simp [valueFor, entry, hcut]
    rw [readConfigLine_some hascii hcut]
    -- the flags are set first and cannot fail; an address may be too long
    obtain ⟨hsameIn, hsameOut⟩ := setFlags_same config (strip k) (strip v)
    obtain ⟨hinfo, hdebug, herror⟩ := setFlags_flags config (strip k) (strip v)
    have hflag : ∀ key b, (if strip k = key then decide (strip v = strTrue) else b) =
        (lastFor (flagFor key) [line]).getD b := by
      intro key b
      rw [lastFor_singleton, flagFor, hvalue]
      split_ifs <;> rfl
    rw [hflag] at hinfo hdebug herror
    have haddress : ∀ key, addressFor key line =
        if strip k = key then addressIn (strip v) else none := by
      intro key
      rw [addressFor, hvalue]
      split_ifs <;> rfl
    have hne : keyConnIn ≠ keyConnOut := by decide
    by_cases hin : strip k = keyConnIn
    -- the second test of the source fails then
    · have hout : ¬strip k = keyConnOut := fun hout => hne (hin.symm.trans hout)
      obtain ⟨hread, hfits⟩ := readIpAddress_iff hv config.connectionIn
      have hall : AddressesFit line ↔ ∀ x ∈ addressIn (strip v), x.1.length < maxIpAddrLen := by
        simp [AddressesFit, haddress, hin, hne]
      rw [if_pos hin, hall, ← hfits]
      cases hr : readIpAddress (strip v) config.connectionIn with
      | error e => simp [bind, Except.bind]
      | ok a =>
        refine ⟨?_, iff_of_true ⟨_, rfl⟩ ⟨a, rfl⟩⟩
        rintro config' ⟨⟩
        refine ⟨?_, ?_, hinfo, hdebug, herror⟩
        · rw [lastFor_singleton, haddress, if_pos hin, ← hread a hr]
        · rw [lastFor_singleton, haddress, if_neg hout, hsameOut]
          rfl
    by_cases hout : strip k = keyConnOut
    · obtain ⟨hread, hfits⟩ := readIpAddress_iff hv config.connectionOut
      have hall : AddressesFit line ↔ ∀ x ∈ addressIn (strip v), x.1.length < maxIpAddrLen := by
        simp [AddressesFit, haddress, hout, hne.symm]
      rw [if_neg hin, if_pos hout, hall, ← hfits]
      cases hr : readIpAddress (strip v) config.connectionOut with
      | error e => simp [bind, Except.bind]
      | ok a =>
        refine ⟨?_, iff_of_true ⟨_, rfl⟩ ⟨a, rfl⟩⟩
        rintro config' ⟨⟩
        refine ⟨?_, ?_, hinfo, hdebug, herror⟩
        · rw [lastFor_singleton, haddress, if_neg hin, hsameIn]
          rfl
        · rw [lastFor_singleton, haddress, if_pos hout, ← hread a hr]
    -- neither key: only the flags may change
    · have hall : AddressesFit line := by simp [AddressesFit, haddress, hin, hout]
      rw [if_neg hin, if_neg hout]
      refine ⟨?_, iff_of_true ⟨_, rfl⟩ hall⟩
      rintro config' ⟨⟩
      refine ⟨?_, ?_, hinfo, hdebug, herror⟩
      · rw [lastFor_singleton, haddress, if_neg hin, hsameIn]
        rfl
      · rw [lastFor_singleton, haddress, if_neg hout, hsameOut]
        rfl

/-! ## The file -/

variable {lines xs ys : List Bytes} {config₁ : Config}

theorem Sets.nil (config : Config) : Sets [] config config := ⟨rfl, rfl, rfl, rfl, rfl⟩

theorem lastFor_getD {α : Type} (f : Bytes → Option α) (xs ys : List Bytes) (a : α) :
    (lastFor f (xs ++ ys)).getD a = (lastFor f ys).getD ((lastFor f xs).getD a) := by
  rw [lastFor_append]
  cases lastFor f ys <;> rfl

theorem Sets.append (h : Sets xs config config₁) (h' : Sets ys config₁ config') :
    Sets (xs ++ ys) config config' where
  connectionIn := by rw [h'.connectionIn, h.connectionIn, lastFor_getD]
  connectionOut := by rw [h'.connectionOut, h.connectionOut, lastFor_getD]
  logInfo := by rw [h'.logInfo, h.logInfo, lastFor_getD]
  logDebug := by rw [h'.logDebug, h.logDebug, lastFor_getD]
  logError := by rw [h'.logError, h.logError, lastFor_getD]

/-- The lines, one after the other. -/
theorem foldlM_readConfigLine_iff (hascii : ∀ line ∈ lines, Ascii line) (config : Config) :
    (∀ config', lines.foldlM readConfigLine config = .ok config' → Sets lines config config') ∧
      ((∃ config', lines.foldlM readConfigLine config = .ok config') ↔
        ∀ line ∈ lines, AddressesFit line) := by
  induction lines generalizing config with
  | nil =>
    refine ⟨?_, iff_of_true ⟨config, rfl⟩ (by simp)⟩
    rintro config' ⟨⟩
    exact .nil config
  | cons line lines ih =>
    rw [List.forall_mem_cons] at hascii
    obtain ⟨hsets, hfits⟩ := readConfigLine_iff hascii.1 config
    rw [List.foldlM_cons, List.forall_mem_cons, ← hfits]
    cases hline : readConfigLine config line with
    | error e => simp [bind, Except.bind]
    | ok config₁ =>
      obtain ⟨hrest, hrestFits⟩ := ih hascii.2 config₁
      refine ⟨fun config' h => (hsets config₁ hline).append (hrest config' h), ?_⟩
      rw [← hrestFits]
      simp [bind, Except.bind]

/-- The loop of `read_config` goes through the lines it reads. -/
theorem readSettings_lines {file : File} (h : readConfigLines file = .ok lines) (config : Config) :
    readSettings config file = lines.foldlM readConfigLine config := by
  fun_induction readConfigLines file generalizing config lines with
  | case1 file hfile =>
    cases h
    rw [readSettings, dif_pos hfile]
    rfl
  | case2 file hfile e hline => cases h
  | case3 file hfile line file' hline ih =>
    cases hrest : readConfigLines file' with
    | error e => simp [hrest, bind, Except.bind] at h
    | ok ls =>
      simp only [hrest, bind, Except.bind, Except.ok.injEq] at h
      subst h
      rw [readSettings, dif_neg hfile, List.foldlM_cons]
      split
      · simp_all
      · next line₁ file₁ hline₁ =>
        rw [hline] at hline₁
        cases hline₁
        cases readConfigLine config line with
        | error e => rfl
        | ok config₁ => exact ih hrest config₁

variable {content : Bytes}

/-- A text of lines that fit is gone through line by line. -/
theorem readSettings_eq (hplain : Plain content) (hfits : ∀ line ∈ Config.lines content, Fits line)
    (config : Config) : readSettings config (fopen content) =
      (Config.lines content).foldlM readConfigLine config ∧
        ∀ line ∈ Config.lines content, line ⊆ content := by
  have htake : content.takeWhile (· ≠ ctrlZ) = content := by
    rw [List.takeWhile_eq_self_iff]
    intro x hx
    simpa using (hplain x hx).2.1
  have hclean : ∀ x ∈ crlf content, x ≠ 0 ∧ x ≠ 255 := by
    intro x hx
    obtain ⟨hzero, -, h255⟩ := hplain x (mem_of_mem_crlf hx)
    exact ⟨hzero, h255⟩
  have hread : readConfigLines (fopen content) = .ok (Config.lines content) := by
    rw [fopen, htake]
    exact (readConfigLines_iff hclean).2 hfits
  refine ⟨readSettings_lines hread config, fun line hline x hx => ?_⟩
  rw [fopen, htake] at hread
  exact mem_of_mem_crlf (readConfigLines_mem hread line hline x hx).1

/-- **What a configuration file means.** Every setting is that of the last line that has one, or stays
as it was; and the file is read, unless it has an address that is too long. -/
theorem readSettings_iff (hplain : Plain content) (hascii : Ascii content)
    (hfits : ∀ line ∈ Config.lines content, Fits line) (config : Config) :
    (∀ config', readSettings config (fopen content) = .ok config' →
        Sets (Config.lines content) config config') ∧
      ((∃ config', readSettings config (fopen content) = .ok config') ↔
        ∀ line ∈ Config.lines content, AddressesFit line) := by
  obtain ⟨heq, hsub⟩ := readSettings_eq hplain hfits config
  rw [heq]
  exact foldlM_readConfigLine_iff (fun line hline => hascii.subset (hsub line hline)) config

/-- The file `muxer.config`. -/
def muxerConfig : Bytes := ascii "LOG_ERROR = TRUE\nCONNECTION_IN = 127.0.0.1:27014"

theorem readSettings_iff_muxerConfig : ∃ config,
    readSettings globalConfig (fopen muxerConfig) = .ok config ∧ config.logError = true ∧
      config.logDebug = true := by
  have hplain : Plain muxerConfig := List.forall_iff_forall_mem.1 (by decide)
  obtain ⟨hsets, hiff⟩ := readSettings_iff hplain (by decide) (by decide) globalConfig
  obtain ⟨config, hread⟩ := hiff.2 (by decide)
  have hs := hsets config hread
  exact ⟨config, hread, hs.logError.trans (by decide), hs.logDebug.trans (by decide)⟩

end Muxer.Settings

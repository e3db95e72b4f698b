import Muxer.Proof.Settings
import Mathlib.Data.Nat.Digits.Defs

/-!
# Writing a configuration

A text with a line for each setting, and white space around every word.

* `strip_padded`, `cut_mid`, `atoi_decimal`: the words and numbers of a text are found in it.
* `readSettings_write`: a configuration that is written is read back.
-/

namespace Muxer.Settings

open Muxer.Config

variable {s t : Bytes} {d : UInt8} {config : Config} {lines : List Bytes}

/-- A number in decimal. -/
def decimal (n : ℕ) : Bytes :=
  if n = 0 then [48] else (Nat.digits 10 n).reverse.map fun d => UInt8.ofNat (48 + d)

/-- A line, with the same white space at all places. -/
def settingText (pad key value : Bytes) : Bytes := pad ++ key ++ pad ++ 61 :: (pad ++ value ++ pad)

def flagText (b : Bool) : Bytes := if b then strTrue else ascii "FALSE"

def addressText (pad : Bytes) (a : IpAddress) : Bytes :=
  a.ip ++ pad ++ 58 :: (pad ++ decimal a.port.toNat)

/-- A line for each setting. -/
def configText (pad : Bytes) (config : Config) : List Bytes :=
  [settingText pad keyConnIn (addressText pad config.connectionIn),
    settingText pad keyConnOut (addressText pad config.connectionOut),
    settingText pad keyLogInfo (flagText config.logInfo),
    settingText pad keyLogDebug (flagText config.logDebug),
    settingText pad keyLogError (flagText config.logError)]

/-- Blanks and tabs. -/
def Blank (pad : Bytes) : Prop := ∀ ch ∈ pad, ch = 32 ∨ ch = 9

/-- No space, and nothing that is not printed. -/
def Word (s : Bytes) : Prop := ∀ ch ∈ s, 33 ≤ ch ∧ ch < 127

instance (s : Bytes) : Decidable (Word s) := List.decidableBAll _ s

/-- A host name or an address: it ends before a `:`. -/
def Host (a : IpAddress) : Prop := Word a.ip ∧ 58 ∉ a.ip

variable {pad p q x y : Bytes}

theorem Blank.isSpace (h : Blank pad) : ∀ ch ∈ pad, isSpace ch = true := by
  intro ch hch
  rcases h ch hch with rfl | rfl <;> decide

theorem Word.not_isSpace (h : Word s) : ∀ ch ∈ s, ¬isSpace ch = true := by
  intro ch hch
  obtain ⟨hlo, -⟩ := h ch hch
  have hlo' : 33 ≤ ch.toNat := hlo
  simp only [Settings.isSpace, Bool.or_eq_true, Bool.and_eq_true, decide_eq_true_eq, not_or, not_and]
  refine ⟨fun heq => ?_, fun _ hle => ?_⟩
  · rw [heq] at hlo'
    exact absurd hlo' (by decide)
  · have hle' : ch.toNat ≤ 13 := hle
    omega

theorem dropWhile_mid (hd : ¬isSpace d = true) (x y : Bytes) :
    (x ++ d :: y).dropWhile isSpace = x.dropWhile isSpace ++ d :: y := by
  rw [List.dropWhile_append]
  split
  · next hnil =>
    rw [List.isEmpty_iff] at hnil
    rw [hnil, List.nil_append, List.dropWhile_cons_of_neg hd]
  · rfl

theorem rdropWhile_mid (hd : ¬isSpace d = true) (x y : Bytes) :
    (x ++ d :: y).rdropWhile isSpace = x ++ d :: y.rdropWhile isSpace := by
  have hrev : (x ++ d :: y).reverse = y.reverse ++ d :: x.reverse := by simp
  rw [List.rdropWhile, hrev, dropWhile_mid hd, List.rdropWhile]
  simp

/-- White space is stripped up to the first and from the last other byte. -/
theorem strip_mid (hd : ¬isSpace d = true) (x y : Bytes) :
    strip (x ++ d :: y) = x.dropWhile isSpace ++ d :: y.rdropWhile isSpace := by
  rw [strip, dropWhile_mid hd, rdropWhile_mid hd]

theorem dropWhile_padded (hp : Blank p) (hs : Word s) (q : Bytes) (hne : s ≠ []) :
    (p ++ s ++ q).dropWhile isSpace = s ++ q := by
  rw [List.append_assoc, List.dropWhile_append_of_pos hp.isSpace]
  obtain ⟨ch, s, rfl⟩ := List.exists_cons_of_ne_nil hne
  rw [List.cons_append, List.dropWhile_cons_of_neg (hs.not_isSpace ch List.mem_cons_self)]

theorem rdropWhile_padded (hq : Blank q) (hs : Word s) (p : Bytes) (hne : s ≠ []) :
    (p ++ s ++ q).rdropWhile isSpace = p ++ s := by
  have hrev : (p ++ s ++ q).reverse = q.reverse ++ s.reverse ++ p.reverse := by simp
  have hq' : Blank q.reverse := fun ch hch => hq ch (List.mem_reverse.1 hch)
  have hs' : Word s.reverse := fun ch hch => hs ch (List.mem_reverse.1 hch)
  rw [List.rdropWhile, hrev, dropWhile_padded hq' hs' _ (by simpa using hne)]
  simp

theorem strip_padded (hp : Blank p) (hq : Blank q) (hs : Word s) : strip (p ++ s ++ q) = s := by
  by_cases hne : s = []
  · subst hne
    have hall : ∀ ch ∈ p ++ [] ++ q, isSpace ch = true := by
      intro ch hch
      rw [List.append_nil, List.mem_append] at hch
      exact hch.elim (hp.isSpace ch) (hq.isSpace ch)
    rw [strip, List.dropWhile_eq_nil_iff.2 hall, List.rdropWhile_nil]
  · rw [strip, dropWhile_padded hp hs q hne]
    have hback := rdropWhile_padded hq hs [] hne
    rwa [List.nil_append] at hback

theorem cut_mid (hd : d ∉ x) (y : Bytes) : cut d (x ++ d :: y) = some (x, y) := by
  have hne : ∀ ch ∈ x, decide (ch ≠ d) = true := by
    intro ch hch
    exact decide_eq_true fun heq => hd (heq ▸ hch)
  rw [cut, if_pos (by simp), List.takeWhile_append_of_pos hne, List.dropWhile_append_of_pos hne]
  simp

/-! ### Numbers -/

theorem decimal_ne_nil (n : ℕ) : decimal n ≠ [] := by
  unfold decimal
  split
  · simp
  · next hn => simpa [Nat.digits_ne_nil_iff_ne_zero] using hn

theorem isDigit_ofNat {m : ℕ} (hm : m < 10) :
    isDigit (UInt8.ofNat (48 + m)) = true ∧ (UInt8.ofNat (48 + m)).toNat - 48 = m := by
  have hall : ∀ m < 10, isDigit (UInt8.ofNat (48 + m)) = true ∧
      (UInt8.ofNat (48 + m)).toNat - 48 = m := by decide
  exact hall m hm

theorem decimal_digits (n : ℕ) : ∀ ch ∈ decimal n, isDigit ch = true := by
  intro ch hch
  unfold decimal at hch
  split at hch
  · rw [List.mem_singleton.1 hch]
    decide
  · obtain ⟨m, hm, rfl⟩ := List.mem_map.1 hch
    exact (isDigit_ofNat (Nat.digits_lt_base (by decide) (List.mem_reverse.1 hm))).1

theorem leadingNumber_decimal (n : ℕ) : leadingNumber (decimal n) = n := by
  rw [leadingNumber, List.takeWhile_eq_self_iff.2 (decimal_digits n)]
  unfold decimal
  split
  · next hn =>
    rw [hn]
    rfl
  · have hfold : ∀ ds : List ℕ, (∀ m ∈ ds, m < 10) →
        (ds.reverse.map fun m => UInt8.ofNat (48 + m)).foldl
          (fun n ch => 10 * n + (ch.toNat - 48)) 0 = Nat.ofDigits 10 ds := by
      intro ds hds
      induction ds with
      | nil => rfl
      | cons m ds ih =>
        rw [List.forall_mem_cons] at hds
        rw [List.reverse_cons, List.map_append, List.foldl_append, ih hds.2, Nat.ofDigits_cons]
        simp only [List.map_cons, List.map_nil, List.foldl_cons, List.foldl_nil,
          (isDigit_ofNat hds.1).2]
        simp [Nat.add_comm]
    rw [hfold _ fun m hm => Nat.digits_lt_base (by decide) hm, Nat.ofDigits_digits]

theorem Word.of_digits (h : ∀ ch ∈ s, isDigit ch = true) : Word s := by
  intro ch hch
  have hdigit := h ch hch
  simp only [isDigit, Bool.and_eq_true, decide_eq_true_eq] at hdigit
  have hlo : 48 ≤ ch.toNat := hdigit.1
  have hhi : ch.toNat ≤ 57 := hdigit.2
  exact ⟨show 33 ≤ ch.toNat by omega, show ch.toNat < 127 by omega⟩

theorem atoi_decimal {n : ℕ} (hn : n ≤ intMax) : atoi (decimal n) = n := by
  have hword := Word.of_digits (decimal_digits n)
  obtain ⟨ch, t, ht⟩ := List.exists_cons_of_ne_nil (decimal_ne_nil n)
  have hnumber := leadingNumber_decimal n
  have hdigit := decimal_digits n ch (by rw [ht]; exact List.mem_cons_self)
  have hspace := hword.not_isSpace ch (by rw [ht]; exact List.mem_cons_self)
  rw [ht] at hnumber ⊢
  rw [atoi, List.dropWhile_cons_of_neg hspace]
  split
  · next heq =>
    cases heq
    exact absurd hdigit (by decide)
  · next heq =>
    cases heq
    exact absurd hdigit (by decide)
  · rw [hnumber]
    exact_mod_cast Nat.min_eq_left hn

/-! ### Texts -/

theorem addressIn_text (hpad : Blank pad) {a : IpAddress} (ha : Host a) :
    addressIn (strip (pad ++ addressText pad a ++ pad)) = some a.pair := by
  obtain ⟨hword, hcolon⟩ := ha
  have hdigits := Word.of_digits (decimal_digits a.port.toNat)
  have hsplit : pad ++ addressText pad a ++ pad =
      (pad ++ a.ip ++ pad) ++ 58 :: (pad ++ decimal a.port.toNat ++ pad) := by
    simp [addressText]
  have hfront : 58 ∉ (pad ++ a.ip ++ pad).dropWhile isSpace := by
    intro hmem
    have hmem := (List.dropWhile_sublist _).subset hmem
    rw [List.mem_append, List.mem_append] at hmem
    have hnot : (58 : UInt8) ∉ pad := fun h58 => by
      rcases hpad 58 h58 with h | h <;> exact absurd h (by decide)
    exact hmem.elim (fun h => h.elim hnot hcolon) hnot
  rw [hsplit, strip_mid (by decide), addressIn, cut_mid hfront,
    rdropWhile_padded hpad hdigits pad (decimal_ne_nil _)]
  have hip : strip ((pad ++ a.ip ++ pad).dropWhile isSpace) = a.ip := by
    rw [strip, List.dropWhile_idempotent, ← strip, strip_padded hpad hpad hword]
  have hport : strip (pad ++ decimal a.port.toNat) = decimal a.port.toNat := by
    have hstrip := strip_padded (q := []) hpad (fun _ h => absurd h List.not_mem_nil) hdigits
    rwa [List.append_nil] at hstrip
  have hlt := a.port.toNat_lt
  have hatoi : atoi (decimal a.port.toNat) = a.port.toNat := by
    refine atoi_decimal ?_
    rw [intMax]
    omega
  have hmod : ((a.port.toNat : ℤ) % 65536).toNat = a.port.toNat := by omega
  simp only [Option.map_some, hip, hport, hatoi, hmod, UInt16.ofNat_toNat, IpAddress.pair]

theorem valueFor_text (hpad : Blank pad) {k : Bytes} (hk : Word k) (heq : 61 ∉ k) (key v : Bytes) :
    valueFor key (settingText pad k v) = if k = key then some (strip (pad ++ v ++ pad)) else none := by
  have hnot : (61 : UInt8) ∉ pad := fun h61 => by
    rcases hpad 61 h61 with h | h <;> exact absurd h (by decide)
  have hcut : cut 61 (settingText pad k v) = some (pad ++ k ++ pad, pad ++ v ++ pad) := by
    refine cut_mid ?_ _
    rw [List.mem_append, List.mem_append]
    exact fun hmem => hmem.elim (fun h => h.elim hnot heq) hnot
  simp only [valueFor, entry, hcut, Option.map_some, Option.bind_some, strip_padded hpad hpad hk]

theorem flagFor_text (hpad : Blank pad) (b : Bool) :
    decide (strip (pad ++ flagText b ++ pad) = strTrue) = b := by
  have hword : ∀ b, Word (flagText b) := by
    intro b
    cases b <;> decide
  rw [strip_padded hpad hpad (hword b)]
  cases b <;> decide

/-- Blanks, tabs and what is printed. -/
def Text (s : Bytes) : Prop := ∀ ch ∈ s, ch = 9 ∨ 32 ≤ ch ∧ ch < 127

theorem Blank.text (h : Blank s) : Text s := by
  intro ch hch
  rcases h ch hch with rfl | rfl
  · exact .inr (by decide)
  · exact .inl rfl

theorem Word.text (h : Word s) : Text s := by
  intro ch hch
  obtain ⟨hlo, hhi⟩ := h ch hch
  have hlo' : 33 ≤ ch.toNat := hlo
  exact .inr ⟨show 32 ≤ ch.toNat by omega, hhi⟩

theorem Text.append (hs : Text s) (ht : Text t) : Text (s ++ t) := by
  intro ch hch
  exact (List.mem_append.1 hch).elim (hs ch) (ht ch)

theorem Text.cons (hd : 32 ≤ d ∧ d < 127) (hs : Text s) : Text (d :: s) := by
  intro ch hch
  rcases List.mem_cons.1 hch with rfl | hch
  · exact .inr hd
  · exact hs ch hch

theorem settingText_text (hpad : Blank pad) {k v : Bytes} (hk : Word k) (hv : Text v) :
    Text (settingText pad k v) := by
  have hblank := hpad.text
  exact ((hblank.append hk.text).append hblank).append
    (.cons (by decide) ((hblank.append hv).append hblank))

theorem addressText_text (hpad : Blank pad) {a : IpAddress} (ha : Host a) :
    Text (addressText pad a) :=
  (ha.1.text.append hpad.text).append
    (.cons (by decide) (hpad.text.append (Word.of_digits (decimal_digits _)).text))

theorem flagText_text (b : Bool) : Text (flagText b) := by
  cases b
  · exact Word.text (s := ascii "FALSE") (by decide)
  · exact Word.text (s := strTrue) (by decide)

theorem configText_text (hpad : Blank pad) (hin : Host config.connectionIn)
    (hout : Host config.connectionOut) : ∀ line ∈ configText pad config, Text line := by
  simp only [configText, List.forall_mem_cons]
  refine ⟨?_, ?_, ?_, ?_, ?_, by simp⟩
  · exact settingText_text hpad (by decide) (addressText_text hpad hin)
  · exact settingText_text hpad (by decide) (addressText_text hpad hout)
  · exact settingText_text hpad (by decide) (flagText_text _)
  · exact settingText_text hpad (by decide) (flagText_text _)
  · exact settingText_text hpad (by decide) (flagText_text _)

theorem crlf_eq_self (h : 13 ∉ s) : crlf s = s := by
  fun_induction crlf s with
  | case1 s ih => simp at h
  | case2 b s hnot ih => rw [ih fun hmem => h (List.mem_cons_of_mem b hmem)]
  | case3 => rfl

/-- A text is the lines it is made of. -/
theorem splitOn_intercalate {ls : List Bytes} (hne : ls ≠ []) (h : ∀ line ∈ ls, newline ∉ line) :
    ([newline].intercalate ls).splitOn newline = ls := by
  induction ls with
  | nil => exact absurd rfl hne
  | cons line ls ih =>
    rw [List.forall_mem_cons] at h
    by_cases hnil : ls = []
    · rw [hnil, List.intercalate_singleton, List.splitOn_eq_singleton h.1]
    · rw [List.intercalate_cons_of_ne_nil hnil, List.append_assoc, List.singleton_append,
        List.splitOn_append_cons_self_of_not_mem h.1, ih hnil h.2]

theorem mem_intercalate {ls : List Bytes} {ch : UInt8} (h : ch ∈ [newline].intercalate ls) :
    ch = newline ∨ ∃ line ∈ ls, ch ∈ line := by
  induction ls with
  | nil => simp at h
  | cons line ls ih =>
    by_cases hnil : ls = []
    · rw [hnil, List.intercalate_singleton] at h
      exact .inr ⟨line, List.mem_cons_self, h⟩
    · rw [List.intercalate_cons_of_ne_nil hnil, List.mem_append, List.mem_append,
        List.mem_singleton] at h
      rcases h with (h | h) | h
      · exact .inr ⟨line, List.mem_cons_self, h⟩
      · exact .inl h
      · rcases ih h with h | ⟨l, hl, hch⟩
        · exact .inl h
        · exact .inr ⟨l, List.mem_cons_of_mem line hl, hch⟩

/-- What is found in one of some lines is found in whatever order they are. -/
theorem lastFor_perm {α : Type} {f : Bytes → Option α} {ls : List Bytes} (hperm : ls.Perm lines)
    {a : α} (h : lines.filterMap f = [a]) : lastFor f ls = some a := by
  have hfound := hperm.filterMap f
  rw [h, List.perm_singleton] at hfound
  rw [lastFor, hfound]
  rfl

/-- What the lines of a configuration set, in any order, is the configuration. -/
theorem configText_sets (hpad : Blank pad) {c : Config} (hin : Host c.connectionIn)
    (hout : Host c.connectionOut) {ls : List Bytes} (hls : ls.Perm (configText pad c)) :
    lastFor (addressFor keyConnIn) ls = some c.connectionIn.pair ∧
      lastFor (addressFor keyConnOut) ls = some c.connectionOut.pair ∧
      lastFor (flagFor keyLogInfo) ls = some c.logInfo ∧
      lastFor (flagFor keyLogDebug) ls = some c.logDebug ∧
      lastFor (flagFor keyLogError) ls = some c.logError := by
  have hvalue : ∀ k ∈ [keyConnIn, keyConnOut, keyLogInfo, keyLogDebug, keyLogError], ∀ key v,
      valueFor key (settingText pad k v) =
        if k = key then some (strip (pad ++ v ++ pad)) else none := by
    have hkeys : ∀ k ∈ [keyConnIn, keyConnOut, keyLogInfo, keyLogDebug, keyLogError],
        Word k ∧ 61 ∉ k := by decide
    exact fun k hk => valueFor_text hpad (hkeys k hk).1 (hkeys k hk).2
  have hne : [keyConnIn, keyConnOut, keyLogInfo, keyLogDebug, keyLogError].Nodup := by decide
  have hne' : [keyLogError, keyLogDebug, keyLogInfo, keyConnOut, keyConnIn].Nodup := by decide
  simp only [List.forall_mem_cons] at hvalue
  obtain ⟨hvIn, hvOut, hvInfo, hvDebug, hvError, -⟩ := hvalue
  simp only [List.nodup_cons, List.mem_cons, not_or, List.not_mem_nil, not_false_eq_true] at hne hne'
  refine ⟨lastFor_perm hls ?_, lastFor_perm hls ?_, lastFor_perm hls ?_, lastFor_perm hls ?_,
    lastFor_perm hls ?_⟩ <;>
    simp [-List.append_assoc, configText, addressFor, flagFor, hvIn, hvOut, hvInfo, hvDebug,
      hvError, hne, hne', addressIn_text hpad hin, addressIn_text hpad hout, flagFor_text hpad]

theorem addressesFit_text (hpad : Blank pad) {c : Config} (hin : Host c.connectionIn)
    (hout : Host c.connectionOut) : ∀ line ∈ configText pad c, AddressesFit line := by
  have hfits : ∀ {k v}, Word k → 61 ∉ k →
      (k ∈ [keyConnIn, keyConnOut] → ∃ a : IpAddress, Host a ∧ v = addressText pad a) →
      AddressesFit (settingText pad k v) := by
    intro k v hk heq ha key hkey x hx
    rw [addressFor, valueFor_text hpad hk heq] at hx
    by_cases hsame : k = key
    · obtain ⟨a, hhost, rfl⟩ := ha (hsame ▸ hkey)
      rw [if_pos hsame, Option.bind_some, addressIn_text hpad hhost] at hx
      cases hx
      exact a.length_lt
    · rw [if_neg hsame] at hx
      cases hx
  simp only [configText, List.forall_mem_cons]
  refine ⟨?_, ?_, ?_, ?_, ?_, by simp⟩
  · exact hfits (by decide) (by decide) fun _ => ⟨_, hin, rfl⟩
  · exact hfits (by decide) (by decide) fun _ => ⟨_, hout, rfl⟩
  · exact hfits (by decide) (by decide) fun hmem => absurd hmem (by decide)
  · exact hfits (by decide) (by decide) fun hmem => absurd hmem (by decide)
  · exact hfits (by decide) (by decide) fun hmem => absurd hmem (by decide)

theorem IpAddress.eq_of_pair {a b : IpAddress} (h : a.pair = b.pair) : a = b := by
  obtain ⟨ip, port, hlt⟩ := a
  obtain ⟨ip', port', hlt'⟩ := b
  cases h
  rfl

end Muxer.Settings

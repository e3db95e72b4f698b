import Mathlib.Data.List.Infix
import Mathlib.Tactic.Set

/-!
# Length-prefixed frames on a stream

A frame is a fixed-size header holding the length of the payload, then the payload
(`Framing`). `cut` takes the whole frames off the front of what has been received and
returns the payloads and the rest.

* `join_cut`: the payloads framed again, followed by the rest, are the bytes received.
* `cut_append`: cutting does not depend on how the stream arrives: cutting a first piece,
  then the rest of it together with the next piece, gives what cutting both at once gives.
* `wellHeaded_append`: the same for the test that every header met is in range.
* `completable_cut`: a stream is well headed exactly when no header met is too large and
  later bytes can complete what is left of it.
-/

namespace Muxer.Lib

/-- How a payload length is written in a header, for lengths up to `max`. -/
structure Framing (α : Type*) where
  head : ℕ
  max : ℕ
  enc : ℕ → List α
  dec : List α → ℕ
  head_pos : 0 < head
  enc_length : ∀ n, (enc n).length = head
  dec_enc : ∀ n, n ≤ max → dec (enc n) = n
  enc_dec : ∀ h, h.length = head → enc (dec h) = h

namespace Framing

variable {α : Type*} (F : Framing α)

/-- The frame of a payload. -/
def frame (p : List α) : List α := F.enc p.length ++ p

/-- The length the first header of a stream announces. -/
def header (bs : List α) : ℕ := F.dec (bs.take F.head)

/-- The stream starts with a header and everything it announces. -/
def Whole (bs : List α) : Prop :=
  F.head ≤ bs.length ∧ 0 < F.header bs ∧ F.header bs ≤ bs.length - F.head

instance (bs : List α) : Decidable (F.Whole bs) := by unfold Whole; infer_instance

/-- What follows the first frame. -/
def next (bs : List α) : List α := bs.drop (F.head + F.header bs)

variable {F}

theorem Whole.next_lt {bs : List α} (h : F.Whole bs) : (F.next bs).length < bs.length := by
  have := F.head_pos
  have := h.1
  simp only [next, List.length_drop]
  omega

variable (F)

/-- The payloads of the whole frames at the front, and the rest. -/
def cut (bs : List α) : List (List α) × List α :=
  if _h : F.Whole bs then
    (((bs.drop F.head).take (F.header bs)) :: (cut (F.next bs)).1, (cut (F.next bs)).2)
  else ([], bs)
termination_by bs.length
decreasing_by all_goals exact Whole.next_lt ‹_›

/-- No header met while cutting is above `max`. -/
def Bounded (bs : List α) : Prop :=
  (F.head ≤ bs.length → F.header bs ≤ F.max) ∧ (F.Whole bs → Bounded (F.next bs))
termination_by bs.length
decreasing_by exact Whole.next_lt ‹_›

/-- What there is of the first header begins the header of a length in `1..max`. -/
def HeadOK (bs : List α) : Prop := ∃ n, 0 < n ∧ n ≤ F.max ∧ bs.take F.head <+: F.enc n

/-- Every header met while cutting, a last one cut short included, is in `1..max`. -/
def WellHeaded (bs : List α) : Prop :=
  F.HeadOK bs ∧ (F.Whole bs → WellHeaded (F.next bs))
termination_by bs.length
decreasing_by exact Whole.next_lt ‹_›

/-- Later bytes turn `r` into a frame of a payload of length `1..max`. -/
def Completable (r : List α) : Prop :=
  ∃ p t, t ≠ [] ∧ 0 < p.length ∧ p.length ≤ F.max ∧ r ++ t = F.frame p

variable {F}

theorem frame_length (p : List α) : (F.frame p).length = F.head + p.length := by
  simp [frame, F.enc_length]

theorem cut_whole {bs : List α} (h : F.Whole bs) :
    F.cut bs = (((bs.drop F.head).take (F.header bs)) :: (F.cut (F.next bs)).1,
      (F.cut (F.next bs)).2) := by
  rw [cut, dif_pos h]

theorem cut_rest {bs : List α} (h : ¬F.Whole bs) : F.cut bs = ([], bs) := by
  rw [cut, dif_neg h]

/-- The induction every fact about `cut` goes by: a whole frame off the front, or the end. -/
theorem cutInduct {P : List α → Prop} (hw : ∀ bs, F.Whole bs → P (F.next bs) → P bs)
    (hp : ∀ bs, ¬F.Whole bs → P bs) (bs : List α) : P bs := by
  by_cases h : F.Whole bs
  · exact hw bs h (cutInduct hw hp (F.next bs))
  · exact hp bs h
termination_by bs.length
decreasing_by exact h.next_lt

theorem not_whole_rest (bs : List α) : ¬F.Whole (F.cut bs).2 := by
  induction bs using cutInduct (F := F) with
  | hw bs h ih => rw [cut_whole h]; exact ih
  | hp bs h => rw [cut_rest h]; exact h

/-- The first frame of a stream that starts with a whole one. -/
theorem Whole.frame_eq {bs : List α} (h : F.Whole bs) :
    F.frame ((bs.drop F.head).take (F.header bs)) ++ F.next bs = bs := by
  obtain ⟨h1, -, h3⟩ := h
  have hlen : ((bs.drop F.head).take (F.header bs)).length = F.header bs := by
    simp only [List.length_take, List.length_drop]; omega
  have hhead : F.enc (F.header bs) = bs.take F.head :=
    F.enc_dec _ (by simp only [List.length_take]; omega)
  rw [frame, hlen, hhead, next, ← List.drop_drop, List.append_assoc, List.take_append_drop,
    List.take_append_drop]

/-- **Cutting loses nothing.** -/
theorem join_cut (bs : List α) :
    ((F.cut bs).1.map F.frame).flatten ++ (F.cut bs).2 = bs := by
  induction bs using cutInduct (F := F) with
  | hw bs h ih =>
    rw [cut_whole h]
    simp only [List.map_cons, List.flatten_cons, List.append_assoc, ih]
    exact h.frame_eq
  | hp bs h => simp [cut_rest h]

theorem rest_length_le (bs : List α) : (F.cut bs).2.length ≤ bs.length := by
  have := congrArg List.length (join_cut (F := F) bs)
  rw [List.length_append] at this
  omega

/-- More bytes behind a header do not change it. -/
theorem header_append {bs : List α} (h : F.head ≤ bs.length) (t : List α) :
    F.header (bs ++ t) = F.header bs := by
  unfold header
  rw [List.take_append_of_le_length h]

theorem Whole.append {bs : List α} (h : F.Whole bs) (t : List α) : F.Whole (bs ++ t) := by
  obtain ⟨h1, h2, h3⟩ := h
  refine ⟨by simp only [List.length_append]; omega, ?_, ?_⟩
  · rw [header_append h1]; exact h2
  · rw [header_append h1]; simp only [List.length_append]; omega

theorem Whole.next_append {bs : List α} (h : F.Whole bs) (t : List α) :
    F.next (bs ++ t) = F.next bs ++ t := by
  unfold next
  rw [header_append h.1, List.drop_append_of_le_length (by have := h.2.2; have := h.1; omega)]

/-- **Cutting does not depend on how the stream arrives.** -/
theorem cut_append (xs ys : List α) :
    F.cut (xs ++ ys) = ((F.cut xs).1 ++ (F.cut ((F.cut xs).2 ++ ys)).1,
      (F.cut ((F.cut xs).2 ++ ys)).2) := by
  induction xs using cutInduct (F := F) with
  | hw xs h ih =>
    have hlen : F.header xs ≤ (xs.drop F.head).length := by
      have := h.2.2; simp only [List.length_drop]; omega
    rw [cut_whole (h.append ys), h.next_append, ih, cut_whole h, header_append h.1,
      List.drop_append_of_le_length h.1, List.take_append_of_le_length hlen]
    rfl
  | hp xs h => simp [cut_rest h]

theorem header_frame {p : List α} (hp : p.length ≤ F.max) (t : List α) :
    F.header (F.frame p ++ t) = p.length := by
  have h : (F.frame p ++ t).take F.head = F.enc p.length := by
    rw [frame, List.append_assoc, ← F.enc_length p.length, List.take_left]
  rw [header, h, F.dec_enc _ hp]

theorem whole_frame {p : List α} (h0 : 0 < p.length) (hp : p.length ≤ F.max) (t : List α) :
    F.Whole (F.frame p ++ t) := by
  refine ⟨?_, ?_, ?_⟩
  · rw [List.length_append, frame_length]; omega
  · rw [header_frame hp]; exact h0
  · rw [header_frame hp, List.length_append, frame_length]; omega

theorem next_frame {p : List α} (hp : p.length ≤ F.max) (t : List α) :
    F.next (F.frame p ++ t) = t := by
  rw [next, header_frame hp, ← frame_length, List.drop_left]

/-- The first frame is cut off whole. -/
theorem cut_frame {p : List α} (h0 : 0 < p.length) (hp : p.length ≤ F.max) (t : List α) :
    F.cut (F.frame p ++ t) = (p :: (F.cut t).1, (F.cut t).2) := by
  have hd : (F.frame p ++ t).drop F.head = p ++ t := by
    rw [frame, List.append_assoc, ← F.enc_length p.length, List.drop_left]
  rw [cut_whole (whole_frame h0 hp t), next_frame hp, header_frame hp, hd, List.take_left]

/-- **Frames are cut back into their payloads**, in order, and what follows them is left. -/
theorem cut_frames {ps : List (List α)} (hps : ∀ p ∈ ps, 0 < p.length ∧ p.length ≤ F.max)
    (t : List α) : F.cut ((ps.map F.frame).flatten ++ t) = (ps ++ (F.cut t).1, (F.cut t).2) := by
  induction ps with
  | nil => simp
  | cons p ps ih =>
    rw [List.forall_mem_cons] at hps
    rw [List.map_cons, List.flatten_cons, List.append_assoc, cut_frame hps.1.1 hps.1.2, ih hps.2]
    rfl

theorem not_whole_nil : ¬F.Whole [] := by
  intro h
  have := F.head_pos
  have := h.1
  simp only [List.length_nil] at this
  omega

/-- A stream of whole frames is cut without a rest. -/
theorem cut_payloads {ps : List (List α)} (hps : ∀ p ∈ ps, 0 < p.length ∧ p.length ≤ F.max) :
    F.cut (ps.map F.frame).flatten = (ps, []) := by
  have h := cut_frames hps []
  rwa [List.append_nil, cut_rest not_whole_nil, List.append_nil] at h

theorem bounded_iff (bs : List α) : F.Bounded bs ↔
    (F.head ≤ bs.length → F.header bs ≤ F.max) ∧ (F.Whole bs → F.Bounded (F.next bs)) := by
  rw [Bounded]

theorem wellHeaded_iff (bs : List α) :
    F.WellHeaded bs ↔ F.HeadOK bs ∧ (F.Whole bs → F.WellHeaded (F.next bs)) := by
  rw [WellHeaded]

/-- A header that is all there is in range. -/
theorem headOK_iff {bs : List α} (h : F.head ≤ bs.length) :
    F.HeadOK bs ↔ 0 < F.header bs ∧ F.header bs ≤ F.max := by
  have hlen : (bs.take F.head).length = F.head := by simp only [List.length_take]; omega
  constructor
  · rintro ⟨n, h0, hn, hpre⟩
    have heq := hpre.eq_of_length (by rw [hlen, F.enc_length])
    rw [header, heq, F.dec_enc _ hn]
    exact ⟨h0, hn⟩
  · rintro ⟨h0, hn⟩
    refine ⟨F.header bs, h0, hn, ?_⟩
    rw [header, F.enc_dec _ hlen]

theorem HeadOK.of_append {xs : List α} (ys : List α) (h : F.HeadOK (xs ++ ys)) : F.HeadOK xs := by
  obtain ⟨n, h0, hn, hpre⟩ := h
  refine ⟨n, h0, hn, List.IsPrefix.trans ?_ hpre⟩
  rw [List.take_append]
  exact List.prefix_append _ _

theorem Whole.headOK_append {bs : List α} (h : F.Whole bs) (t : List α) :
    F.HeadOK (bs ++ t) ↔ F.HeadOK bs := by
  rw [headOK_iff h.1, headOK_iff (h.append t).1, header_append h.1]

theorem wellHeaded_nil (hmax : 0 < F.max) : F.WellHeaded [] := by
  rw [wellHeaded_iff]
  exact ⟨⟨1, Nat.one_pos, hmax, by simp⟩, fun h => absurd h not_whole_nil⟩

theorem WellHeaded.bounded {bs : List α} (h : F.WellHeaded bs) : F.Bounded bs := by
  induction bs using cutInduct (F := F) with
  | hw bs hw ih =>
    rw [wellHeaded_iff] at h; rw [bounded_iff]
    exact ⟨fun hh => ((headOK_iff hh).1 h.1).2, fun _ => ih (h.2 hw)⟩
  | hp bs hp =>
    rw [wellHeaded_iff] at h; rw [bounded_iff]
    exact ⟨fun hh => ((headOK_iff hh).1 h.1).2, fun hw => absurd hw hp⟩

theorem Bounded.rest {bs : List α} (h : F.Bounded bs) : F.Bounded (F.cut bs).2 := by
  induction bs using cutInduct (F := F) with
  | hw bs hw ih =>
    rw [bounded_iff] at h
    rw [cut_whole hw]
    exact ih (h.2 hw)
  | hp bs hp =>
    rw [cut_rest hp]
    exact h

/-- **The test of the headers does not depend on how the stream arrives.** -/
theorem wellHeaded_append (xs ys : List α) :
    F.WellHeaded (xs ++ ys) ↔ F.WellHeaded xs ∧ F.WellHeaded ((F.cut xs).2 ++ ys) := by
  induction xs using cutInduct (F := F) with
  | hw xs h ih =>
    rw [wellHeaded_iff (xs ++ ys), wellHeaded_iff xs, cut_whole h, h.headOK_append,
      h.next_append, imp_iff_right h, imp_iff_right (h.append ys), ih, and_assoc]
  | hp xs h =>
    rw [cut_rest h]
    refine ⟨fun hxy => ⟨?_, hxy⟩, fun hxy => hxy.2⟩
    rw [wellHeaded_iff] at hxy ⊢
    exact ⟨hxy.1.of_append ys, fun hw => absurd hw h⟩

/-- What can be completed is shorter than the longest frame. -/
theorem Completable.length_lt {r : List α} (h : F.Completable r) : r.length < F.head + F.max := by
  obtain ⟨p, t, ht, -, hp, heq⟩ := h
  have hlen : r.length + t.length = F.head + p.length := by
    rw [← List.length_append, heq, frame_length]
  have := List.length_pos_iff.2 ht
  omega

/-- A partial frame can be completed exactly when what there is of its header is in range. -/
theorem completable_iff [Inhabited α] {r : List α} (hr : ¬F.Whole r) :
    F.Completable r ↔ F.HeadOK r := by
  constructor
  -- the frame that completes `r` has its header in range
  · rintro ⟨p, t, -, h0, hp, heq⟩
    refine HeadOK.of_append t ⟨p.length, h0, hp, ?_⟩
    rw [heq, frame, ← F.enc_length p.length, List.take_left]
  · rintro ⟨n, h0, hn, s, hs⟩
    have hl := congrArg List.length hs
    rw [List.length_append, F.enc_length, List.length_take] at hl
    -- the missing part of the header, then padding up to the announced length
    set pad : List α := List.replicate (n - (r.drop F.head).length) default
    have hshort : (r.drop F.head).length < n := by
      by_contra hc
      simp only [List.length_drop] at hc
      have hh : F.head ≤ r.length := by omega
      obtain ⟨h1, h2⟩ := (headOK_iff hh).1 ⟨n, h0, hn, s, hs⟩
      have hsn : s = [] := List.eq_nil_of_length_eq_zero (by omega)
      have : F.header r = n := by
        rw [header, ← F.dec_enc n hn, ← hs, hsn, List.append_nil]
      exact hr ⟨hh, h1, by omega⟩
    have hpl : (r.drop F.head ++ pad).length = n := by
      simp only [pad, List.length_append, List.length_replicate]; omega
    refine ⟨r.drop F.head ++ pad, s ++ pad, ?_, by omega, by omega, ?_⟩
    · intro ht
      have := congrArg List.length ht
      simp only [pad, List.length_append, List.length_replicate, List.length_nil] at this
      omega
    · rw [frame, hpl, ← hs]
      by_cases hh : F.head ≤ r.length
      · have hsn : s = [] := List.eq_nil_of_length_eq_zero (by omega)
        rw [hsn, List.nil_append, List.append_nil, ← List.append_assoc, List.take_append_drop]
      · rw [List.take_of_length_le (by omega), List.drop_of_length_le (by omega),
          List.nil_append, List.append_assoc]

/-- A partial frame is well headed exactly when it can be completed. -/
theorem wellHeaded_rest [Inhabited α] {r : List α} (hr : ¬F.Whole r) :
    F.WellHeaded r ↔ F.Completable r := by
  rw [wellHeaded_iff, completable_iff hr]
  exact ⟨fun h => h.1, fun h => ⟨h, fun hw => absurd hw hr⟩⟩

/-- Frames in range are well headed. -/
theorem wellHeaded_frames {ps : List (List α)} (hmax : 0 < F.max)
    (hps : ∀ p ∈ ps, 0 < p.length ∧ p.length ≤ F.max) :
    F.WellHeaded (ps.map F.frame).flatten := by
  induction ps with
  | nil => exact wellHeaded_nil hmax
  | cons p ps ih =>
    rw [List.forall_mem_cons] at hps
    obtain ⟨⟨h0, hp⟩, htl⟩ := hps
    rw [List.map_cons, List.flatten_cons, wellHeaded_iff, next_frame hp]
    have hw := whole_frame h0 hp (ps.map F.frame).flatten
    refine ⟨(headOK_iff hw.1).2 ?_, fun _ => ih htl⟩
    rw [header_frame hp]
    exact ⟨h0, hp⟩

/-- **A stream is well headed exactly when no header met is too large and later bytes can
complete what is left of it.** -/
theorem completable_cut [Inhabited α] (bs : List α) :
    F.WellHeaded bs ↔ F.Bounded bs ∧ F.Completable (F.cut bs).2 := by
  induction bs using cutInduct (F := F) with
  | hw bs h ih =>
    rw [wellHeaded_iff, bounded_iff, imp_iff_right h, imp_iff_right h, imp_iff_right h.1, ih,
      cut_whole h, headOK_iff h.1]
    -- the header of a whole frame is there and positive, so both sides bound it
    have := h.2.1
    tauto
  | hp bs h =>
    rw [cut_rest h, ← wellHeaded_rest h]
    exact ⟨fun hW => ⟨hW.bounded, hW⟩, fun hW => hW.2⟩

end Framing

end Muxer.Lib

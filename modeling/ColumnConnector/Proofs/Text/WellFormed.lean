import ColumnConnector.Proofs.Text.Utf8

/-!
# Well-formed byte strings

The grammar of UTF-8, row by row as the standard tabulates it: which bytes a character may consist
of, with no mention of what the bytes stand for.  A byte string is well formed when it falls apart
into such sequences.

The encoder writes one sequence for each character (`sequence_encodeChar`), and the decoder passes
over each sequence it meets (`Sequence.decodeFrom`), so that it accepts the well-formed byte strings
and no others (`wellFormed_iff`).
-/

namespace ColumnConnector.Utf8

/-- The byte is one of those in a range. -/
def Within (low high : Nat) (b : UInt8) : Prop := low ≤ b.toNat ∧ b.toNat ≤ high

/-- A byte that continues a character, where nothing more is asked of it. -/
def Tail (b : UInt8) : Prop := Within 0x80 0xbf b

/-- The byte sequences of a single character. -/
inductive Sequence : Bytes → Prop where
  | one {a : UInt8} : Within 0x00 0x7f a → Sequence [a]
  | two {a b : UInt8} : Within 0xc2 0xdf a → Tail b → Sequence [a, b]
  | threeLow {b c : UInt8} : Within 0xa0 0xbf b → Tail c → Sequence [0xe0, b, c]
  | three {a b c : UInt8} : Within 0xe1 0xec a → Tail b → Tail c → Sequence [a, b, c]
  | threeBelowSurrogates {b c : UInt8} : Within 0x80 0x9f b → Tail c → Sequence [0xed, b, c]
  | threeHigh {a b c : UInt8} : Within 0xee 0xef a → Tail b → Tail c → Sequence [a, b, c]
  | fourLow {b c d : UInt8} : Within 0x90 0xbf b → Tail c → Tail d → Sequence [0xf0, b, c, d]
  | four {a b c d : UInt8} : Within 0xf1 0xf3 a → Tail b → Tail c → Tail d → Sequence [a, b, c, d]
  | fourHigh {b c d : UInt8} : Within 0x80 0x8f b → Tail c → Tail d → Sequence [0xf4, b, c, d]

/-- A byte string that falls apart into sequences of single characters. -/
inductive WellFormed : Bytes → Prop where
  | nil : WellFormed []
  | append {sequence rest : Bytes} :
      Sequence sequence → WellFormed rest → WellFormed (sequence ++ rest)

/-! ### What is decoded -/

theorem isContinuation_iff {b : UInt8} : isContinuation b = true ↔ Tail b := by
  simp only [isContinuation, Tail, Within, Bool.and_eq_true, decide_eq_true_eq]
  omega

/-- The decoder asks the second byte for the range that the table has for the lead. -/
theorem mayFollow_of_within {a b : UInt8} {low high : Nat} (hb : Within low high b)
    (hlow : 0x80 ≤ low) (hhigh : high ≤ 0xbf) (he0 : a.toNat = 0xe0 → 0xa0 ≤ low)
    (hed : a.toNat = 0xed → high ≤ 0x9f) (hf0 : a.toNat = 0xf0 → 0x90 ≤ low)
    (hf4 : a.toNat = 0xf4 → high ≤ 0x8f) : mayFollow a b = true := by
  obtain ⟨hge, hle⟩ := hb
  unfold mayFollow isContinuation
  split_ifs with h1 h2 h3 h4
  all_goals
    simp only [Bool.and_eq_true, decide_eq_true_eq]
    omega

/-- After the other leads every continuation may come. -/
theorem mayFollow_of_tail {a b : UInt8} (hb : Tail b) (he0 : a.toNat ≠ 0xe0)
    (hed : a.toNat ≠ 0xed) (hf0 : a.toNat ≠ 0xf0) (hf4 : a.toNat ≠ 0xf4) : mayFollow a b = true :=
  mayFollow_of_within hb (by decide) (by decide) (absurd · he0) (absurd · hed) (absurd · hf0)
    (absurd · hf4)

/-- A sequence is decoded as one character, whatever follows it. -/
theorem Sequence.decodeFrom {sequence : Bytes} (h : Sequence sequence) (index : Nat) :
    ∃ c index', ∀ rest, Utf8.decodeFrom index (sequence ++ rest) =
      (c :: ·) <$> Utf8.decodeFrom index' rest := by
  cases h with
  | one ha => exact ⟨_, _, fun rest => decodeFrom_one index rest (Nat.lt_succ_of_le ha.2)⟩
  | @two a b ha hb =>
    obtain ⟨hlow, hhigh⟩ := ha
    have hfollow : mayFollow a b = true :=
      mayFollow_of_tail hb (by omega) (by omega) (by omega) (by omega)
    exact ⟨_, _, fun rest => decodeFrom_two index rest hlow (by omega) hfollow⟩
  | @threeLow b c hb hc =>
    have hfollow : mayFollow 0xe0 b = true := by
      apply mayFollow_of_within hb <;> decide
    exact ⟨_, _, fun rest =>
      decodeFrom_three index rest (by decide) (by decide) hfollow (isContinuation_iff.2 hc)⟩
  | @threeBelowSurrogates b c hb hc =>
    have hfollow : mayFollow 0xed b = true := by
      apply mayFollow_of_within hb <;> decide
    exact ⟨_, _, fun rest =>
      decodeFrom_three index rest (by decide) (by decide) hfollow (isContinuation_iff.2 hc)⟩
  | @three a b c ha hb hc | @threeHigh a b c ha hb hc =>
    obtain ⟨hlow, hhigh⟩ := ha
    have hfollow : mayFollow a b = true :=
      mayFollow_of_tail hb (by omega) (by omega) (by omega) (by omega)
    exact ⟨_, _, fun rest =>
      decodeFrom_three index rest (by omega) (by omega) hfollow (isContinuation_iff.2 hc)⟩
  | @fourLow b c d hb hc hd =>
    have hfollow : mayFollow 0xf0 b = true := by
      apply mayFollow_of_within hb <;> decide
    exact ⟨_, _, fun rest => decodeFrom_four index rest (by decide) (by decide) hfollow
      (isContinuation_iff.2 hc) (isContinuation_iff.2 hd)⟩
  | @fourHigh b c d hb hc hd =>
    have hfollow : mayFollow 0xf4 b = true := by
      apply mayFollow_of_within hb <;> decide
    exact ⟨_, _, fun rest => decodeFrom_four index rest (by decide) (by decide) hfollow
      (isContinuation_iff.2 hc) (isContinuation_iff.2 hd)⟩
  | @four a b c d ha hb hc hd =>
    obtain ⟨hlow, hhigh⟩ := ha
    have hfollow : mayFollow a b = true :=
      mayFollow_of_tail hb (by omega) (by omega) (by omega) (by omega)
    exact ⟨_, _, fun rest => decodeFrom_four index rest (by omega) (by omega) hfollow
      (isContinuation_iff.2 hc) (isContinuation_iff.2 hd)⟩

theorem WellFormed.exists_decodeFrom {raw : Bytes} (h : WellFormed raw) (index : Nat) :
    ∃ cs, Utf8.decodeFrom index raw = .ok cs := by
  induction h generalizing index with
  | nil => exact ⟨[], rfl⟩
  | append hsequence _ ih =>
    obtain ⟨c, index', hfirst⟩ := hsequence.decodeFrom index
    obtain ⟨cs, hrest⟩ := ih index'
    exact ⟨c :: cs, by rw [hfirst, hrest]; rfl⟩

/-! ### What is encoded -/

theorem within_ofNat {low high n : Nat} (hlow : low ≤ n) (hhigh : n ≤ high) (h : high ≤ 0xff) :
    Within low high (UInt8.ofNat n) := by
  unfold Within
  rw [toNat_ofNat (by omega)]
  exact ⟨hlow, hhigh⟩

theorem tail_ofNat {n : Nat} (h : n < 64) : Tail (UInt8.ofNat (0x80 + n)) :=
  within_ofNat (by omega) (by omega) (by omega)

/-- The lead and the bounds of the second byte tell which row of the table a character is of. -/
theorem sequence_encodeChar (c : Char) : Sequence (encodeChar c) := by
  have hvalid := toNat_valid c
  unfold encodeChar
  dsimp only
  split_ifs with h1 h2 h3
  · exact .one (within_ofNat (by omega) (by omega) (by omega))
  · exact .two (within_ofNat (by omega) (by omega) (by omega)) (tail_ofNat (by omega))
  · have hb : c.toNat / 64 % 64 < 64 := by omega
    have hc : c.toNat % 64 < 64 := by omega
    rcases (by omega : c.toNat / 4096 = 0 ∨ (1 ≤ c.toNat / 4096 ∧ c.toNat / 4096 ≤ 12) ∨
      c.toNat / 4096 = 13 ∨ 14 ≤ c.toNat / 4096) with hlead | hlead | hlead | hlead
    · rw [hlead]
      exact .threeLow (within_ofNat (by omega) (by omega) (by omega)) (tail_ofNat hc)
    · exact .three (within_ofNat (by omega) (by omega) (by omega)) (tail_ofNat hb) (tail_ofNat hc)
    · rw [hlead]
      exact .threeBelowSurrogates (within_ofNat (by omega) (by omega) (by omega)) (tail_ofNat hc)
    · exact .threeHigh (within_ofNat (by omega) (by omega) (by omega)) (tail_ofNat hb)
        (tail_ofNat hc)
  · have hb : c.toNat / 4096 % 64 < 64 := by omega
    have hc : c.toNat / 64 % 64 < 64 := by omega
    have hd : c.toNat % 64 < 64 := by omega
    rcases (by omega : c.toNat / 262144 = 0 ∨ (1 ≤ c.toNat / 262144 ∧ c.toNat / 262144 ≤ 3) ∨
      c.toNat / 262144 = 4) with hlead | hlead | hlead
    · rw [hlead]
      exact .fourLow (within_ofNat (by omega) (by omega) (by omega)) (tail_ofNat hc) (tail_ofNat hd)
    · exact .four (within_ofNat (by omega) (by omega) (by omega)) (tail_ofNat hb) (tail_ofNat hc)
        (tail_ofNat hd)
    · rw [hlead]
      exact .fourHigh (within_ofNat (by omega) (by omega) (by omega)) (tail_ofNat hc)
        (tail_ofNat hd)

theorem wellFormed_encodeChars (cs : List Char) : WellFormed (encodeChars cs) := by
  induction cs with
  | nil => exact .nil
  | cons c rest ih =>
    rw [encodeChars_cons]
    exact .append (sequence_encodeChar c) ih

/-- The well-formed byte strings are those that are decoded. -/
theorem wellFormed_iff {raw : Bytes} : WellFormed raw ↔ ∃ s, decode raw = .ok s := by
  constructor
  · intro h
    obtain ⟨cs, hcs⟩ := h.exists_decodeFrom 0
    exact ⟨String.ofList cs, map_eq_ok_iff.2 ⟨cs, hcs, rfl⟩⟩
  · rintro ⟨s, hs⟩
    rw [← encode_of_decode hs]
    exact wellFormed_encodeChars s.toList

end ColumnConnector.Utf8

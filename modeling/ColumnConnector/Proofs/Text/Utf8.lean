import ColumnConnector.Proofs.Outcomes
import ColumnConnector.Text.Utf8

/-!
# Text through UTF-8 and back

A character is decoded from its bytes, whatever follows them: one lemma for each width says what
the decoder does with a well-formed sequence (`decodeFrom_two` and so on), and the encoder writes
such sequences.  Hence every text is decoded from its bytes, and different texts have different
bytes.

The other way round, whatever is decoded has the bytes that it was decoded from
(`encode_of_decode`), so the decoder accepts the bytes of texts and no others.
-/

namespace ColumnConnector.Utf8

theorem toNat_ofNat {n : Nat} (h : n < 256) : (UInt8.ofNat n).toNat = n :=
  UInt8.toNat_ofNat_of_lt' h

/-- The code points are those below the surrogates and those above. -/
theorem toNat_valid (c : Char) : c.toNat < 0xd800 ∨ 0xdfff < c.toNat ∧ c.toNat < 0x110000 :=
  c.valid

/-! ### Well-formed sequences -/

section Sequences

variable (index : Nat) {a b c d : UInt8} (rest : Bytes)

theorem decodeFrom_one (ha : a.toNat < 0x80) :
    decodeFrom index (a :: rest) = (Char.ofNat a.toNat :: ·) <$> decodeFrom (index + 1) rest := by
  rw [decodeFrom.eq_def]
  exact if_pos ha

theorem decodeFrom_two (ha : 0xc2 ≤ a.toNat) (ha' : a.toNat < 0xe0) (hb : mayFollow a b = true) :
    decodeFrom index (a :: b :: rest) =
      (Char.ofNat ((a.toNat - 0xc0) * 64 + (b.toNat - 0x80)) :: ·) <$>
        decodeFrom (index + 2) rest := by
  have hlong : ¬ a.toNat < 0x80 := by omega
  have hlead : ¬ (a.toNat < 0xc2 ∨ 0xf4 < a.toNat) := by omega
  rw [decodeFrom.eq_def]
  dsimp only
  rw [if_neg hlong, if_neg hlead]
  simp only [hb, Bool.not_true, Bool.false_eq_true, if_false, if_pos ha']

theorem decodeFrom_three (ha : 0xe0 ≤ a.toNat) (ha' : a.toNat < 0xf0) (hb : mayFollow a b = true)
    (hc : isContinuation c = true) :
    decodeFrom index (a :: b :: c :: rest) =
      (Char.ofNat ((a.toNat - 0xe0) * 4096 + (b.toNat - 0x80) * 64 + (c.toNat - 0x80)) :: ·) <$>
        decodeFrom (index + 3) rest := by
  have hlong : ¬ a.toNat < 0x80 := by omega
  have hlead : ¬ (a.toNat < 0xc2 ∨ 0xf4 < a.toNat) := by omega
  have htwo : ¬ a.toNat < 0xe0 := by omega
  rw [decodeFrom.eq_def]
  dsimp only
  rw [if_neg hlong, if_neg hlead]
  simp only [hb, hc, Bool.not_true, Bool.false_eq_true, if_false, if_neg htwo, if_pos ha']

theorem decodeFrom_four (ha : 0xf0 ≤ a.toNat) (ha' : a.toNat ≤ 0xf4) (hb : mayFollow a b = true)
    (hc : isContinuation c = true) (hd : isContinuation d = true) :
    decodeFrom index (a :: b :: c :: d :: rest) =
      (Char.ofNat ((a.toNat - 0xf0) * 262144 + (b.toNat - 0x80) * 4096 + (c.toNat - 0x80) * 64 +
        (d.toNat - 0x80)) :: ·) <$> decodeFrom (index + 4) rest := by
  have hlong : ¬ a.toNat < 0x80 := by omega
  have hlead : ¬ (a.toNat < 0xc2 ∨ 0xf4 < a.toNat) := by omega
  have htwo : ¬ a.toNat < 0xe0 := by omega
  have hthree : ¬ a.toNat < 0xf0 := by omega
  rw [decodeFrom.eq_def]
  dsimp only
  rw [if_neg hlong, if_neg hlead]
  simp only [hb, hc, hd, Bool.not_true, Bool.false_eq_true, if_false, if_neg htwo, if_neg hthree]

end Sequences

theorem isContinuation_ofNat {n : Nat} (h : n < 64) :
    isContinuation (UInt8.ofNat (0x80 + n)) = true := by
  rw [isContinuation, toNat_ofNat (by omega)]
  simp only [Bool.and_eq_true, decide_eq_true_eq]
  omega

/-- Which second bytes a lead allows. -/
theorem mayFollow_ofNat {m n : Nat} (hm : m < 256) (hn : n < 64) (he0 : m = 0xe0 → 32 ≤ n)
    (hed : m = 0xed → n < 32) (hf0 : m = 0xf0 → 16 ≤ n) (hf4 : m = 0xf4 → n < 16) :
    mayFollow (UInt8.ofNat m) (UInt8.ofNat (0x80 + n)) = true := by
  unfold mayFollow
  rw [isContinuation_ofNat hn, toNat_ofNat hm, toNat_ofNat (show 0x80 + n < 256 by omega)]
  split
  · next h =>
    have := he0 h
    simp only [Bool.and_eq_true, decide_eq_true_eq]
    omega
  split
  · next h =>
    have := hed h
    simp only [Bool.and_eq_true, decide_eq_true_eq]
    omega
  split
  · next h =>
    have := hf0 h
    simp only [Bool.and_eq_true, decide_eq_true_eq]
    omega
  split
  · next h =>
    have := hf4 h
    simp only [Bool.and_eq_true, decide_eq_true_eq]
    omega
  · rfl

/-! ### Texts -/

/-- A character is decoded from its bytes. -/
theorem decodeFrom_encodeChar (index : Nat) (c : Char) (rest : Bytes) :
    ∃ index', decodeFrom index (encodeChar c ++ rest) = (c :: ·) <$> decodeFrom index' rest := by
  have hvalid := toNat_valid c
  have hchar : ∀ n, n = c.toNat → Char.ofNat n = c := by
    intro n hn
    rw [hn, Char.ofNat_toNat]
  unfold encodeChar
  dsimp only
  split
  · next h1 =>
    refine ⟨index + 1, ?_⟩
    have ha := toNat_ofNat (show c.toNat < 256 by omega)
    rw [List.singleton_append, decodeFrom_one index rest (by omega), ha, Char.ofNat_toNat]
  split
  · next h1 h2 =>
    refine ⟨index + 2, ?_⟩
    have ha := toNat_ofNat (show 0xc0 + c.toNat / 64 < 256 by omega)
    have hb := toNat_ofNat (show 0x80 + c.toNat % 64 < 256 by omega)
    have hfollow := mayFollow_ofNat (m := 0xc0 + c.toNat / 64) (n := c.toNat % 64) (by omega)
      (by omega) (by omega) (by omega) (by omega) (by omega)
    rw [List.cons_append, List.singleton_append,
      decodeFrom_two index rest (by omega) (by omega) hfollow, ha, hb, hchar _ (by omega)]
  split
  · next h1 h2 h3 =>
    refine ⟨index + 3, ?_⟩
    have ha := toNat_ofNat (show 0xe0 + c.toNat / 4096 < 256 by omega)
    have hb := toNat_ofNat (show 0x80 + c.toNat / 64 % 64 < 256 by omega)
    have hc := toNat_ofNat (show 0x80 + c.toNat % 64 < 256 by omega)
    have hfollow := mayFollow_ofNat (m := 0xe0 + c.toNat / 4096) (n := c.toNat / 64 % 64) (by omega)
      (by omega) (by omega) (by omega) (by omega) (by omega)
    have hlast := isContinuation_ofNat (show c.toNat % 64 < 64 by omega)
    rw [List.cons_append, List.cons_append, List.singleton_append,
      decodeFrom_three index rest (by omega) (by omega) hfollow hlast, ha, hb, hc,
      hchar _ (by omega)]
  · next h1 h2 h3 =>
    refine ⟨index + 4, ?_⟩
    have ha := toNat_ofNat (show 0xf0 + c.toNat / 262144 < 256 by omega)
    have hb := toNat_ofNat (show 0x80 + c.toNat / 4096 % 64 < 256 by omega)
    have hc := toNat_ofNat (show 0x80 + c.toNat / 64 % 64 < 256 by omega)
    have hd := toNat_ofNat (show 0x80 + c.toNat % 64 < 256 by omega)
    have hfollow := mayFollow_ofNat (m := 0xf0 + c.toNat / 262144) (n := c.toNat / 4096 % 64)
      (by omega) (by omega) (by omega) (by omega) (by omega) (by omega)
    have hthird := isContinuation_ofNat (show c.toNat / 64 % 64 < 64 by omega)
    have hlast := isContinuation_ofNat (show c.toNat % 64 < 64 by omega)
    rw [List.cons_append, List.cons_append, List.cons_append, List.singleton_append,
      decodeFrom_four index rest (by omega) (by omega) hfollow hthird hlast, ha, hb, hc, hd,
      hchar _ (by omega)]

theorem encodeChars_cons (c : Char) (cs : List Char) :
    encodeChars (c :: cs) = encodeChar c ++ encodeChars cs := List.flatMap_cons

theorem decodeFrom_encodeChars (index : Nat) (cs : List Char) :
    decodeFrom index (encodeChars cs) = .ok cs := by
  induction cs generalizing index with
  | nil => rfl
  | cons c rest ih =>
    obtain ⟨index', hfirst⟩ := decodeFrom_encodeChar index c (encodeChars rest)
    rw [encodeChars_cons, hfirst, ih]
    rfl

/-- Every text is decoded from its bytes. -/
theorem decode_encode (s : String) : decode (encode s) = .ok s := by
  rw [decode, encode, decodeFrom_encodeChars]
  show Except.ok (String.ofList s.toList) = .ok s
  rw [String.ofList_toList]

/-- Different texts have different bytes. -/
theorem encode_injective {s t : String} (h : encode s = encode t) : s = t := by
  have hdecode := decode_encode s
  rw [h, decode_encode] at hdecode
  exact (Except.ok.inj hdecode).symm

/-! ### Back to the bytes -/

theorem toNat_charOfNat {n : Nat} (h : n < 0xd800 ∨ 0xdfff < n ∧ n < 0x110000) :
    (Char.ofNat n).toNat = n := by
  rw [Char.ofNat, dif_pos (show n.isValidChar from h)]
  exact UInt32.toNat_ofNatLT

theorem bounds_of_isContinuation {b : UInt8} (h : isContinuation b = true) :
    0x80 ≤ b.toNat ∧ b.toNat < 0xc0 := by
  simpa [isContinuation] using h

/-- A second byte continues the character, and after some leads it is confined further. -/
theorem bounds_of_mayFollow {a b : UInt8} (h : mayFollow a b = true) :
    (0x80 ≤ b.toNat ∧ b.toNat < 0xc0) ∧ (a.toNat = 0xe0 → 0xa0 ≤ b.toNat) ∧
      (a.toNat = 0xed → b.toNat < 0xa0) ∧ (a.toNat = 0xf0 → 0x90 ≤ b.toNat) ∧
      (a.toNat = 0xf4 → b.toNat < 0x90) := by
  unfold mayFollow at h
  split_ifs at h
  all_goals
    simp only [isContinuation, Bool.and_eq_true, decide_eq_true_eq] at h
    omega

section Sequences

variable {a b c d : UInt8}

/-- A byte is what its number was taken from. -/
theorem ofNat_eq {n : Nat} (h : n = a.toNat) : UInt8.ofNat n = a := by
  rw [h, UInt8.ofNat_toNat]

theorem encodeChar_one (ha : a.toNat < 0x80) : encodeChar (Char.ofNat a.toNat) = [a] := by
  rw [encodeChar, toNat_charOfNat (by omega)]
  rw [if_pos ha, ofNat_eq rfl]

theorem encodeChar_two (ha : 0xc2 ≤ a.toNat) (ha' : a.toNat < 0xe0) (hb : mayFollow a b = true) :
    encodeChar (Char.ofNat ((a.toNat - 0xc0) * 64 + (b.toNat - 0x80))) = [a, b] := by
  obtain ⟨hb, -⟩ := bounds_of_mayFollow hb
  rw [encodeChar, toNat_charOfNat (by omega)]
  rw [if_neg (by omega), if_pos (by omega), ofNat_eq (a := a) (by omega),
    ofNat_eq (a := b) (by omega)]

theorem encodeChar_three (ha : 0xe0 ≤ a.toNat) (ha' : a.toNat < 0xf0)
    (hb : mayFollow a b = true) (hc : isContinuation c = true) :
    encodeChar (Char.ofNat ((a.toNat - 0xe0) * 4096 + (b.toNat - 0x80) * 64 +
      (c.toNat - 0x80))) = [a, b, c] := by
  obtain ⟨hb, he0, hed, -⟩ := bounds_of_mayFollow hb
  have hc := bounds_of_isContinuation hc
  rw [encodeChar, toNat_charOfNat (by omega)]
  rw [if_neg (by omega), if_neg (by omega), if_pos (by omega), ofNat_eq (a := a) (by omega),
    ofNat_eq (a := b) (by omega), ofNat_eq (a := c) (by omega)]

theorem encodeChar_four (ha : 0xf0 ≤ a.toNat) (ha' : a.toNat ≤ 0xf4) (hb : mayFollow a b = true)
    (hc : isContinuation c = true) (hd : isContinuation d = true) :
    encodeChar (Char.ofNat ((a.toNat - 0xf0) * 262144 + (b.toNat - 0x80) * 4096 +
      (c.toNat - 0x80) * 64 + (d.toNat - 0x80))) = [a, b, c, d] := by
  obtain ⟨hb, -, -, hf0, hf4⟩ := bounds_of_mayFollow hb
  have hc := bounds_of_isContinuation hc
  have hd := bounds_of_isContinuation hd
  rw [encodeChar, toNat_charOfNat (by omega)]
  rw [if_neg (by omega), if_neg (by omega), if_neg (by omega), ofNat_eq (a := a) (by omega),
    ofNat_eq (a := b) (by omega), ofNat_eq (a := c) (by omega), ofNat_eq (a := d) (by omega)]

end Sequences

/-- Characters that were decoded have the bytes that they were decoded from.  The induction is on
the reading of the bytes, so each width is one case. -/
theorem encodeChars_of_decodeFrom {index : Nat} {raw : Bytes} {cs : List Char}
    (h : decodeFrom index raw = .ok cs) : encodeChars cs = raw := by
  fun_induction decodeFrom index raw generalizing cs with
  | case1 =>
    cases h
    rfl
  | case2 index a rest ha ih =>
    obtain ⟨cs, hrest, rfl⟩ := map_eq_ok_iff.1 h
    rw [encodeChars_cons, encodeChar_one ha, ih hrest]
    rfl
  | case6 index a hone hlead b rest hb ha ih =>
    obtain ⟨cs, hrest, rfl⟩ := map_eq_ok_iff.1 h
    rw [encodeChars_cons, encodeChar_two (by omega) ha (by simpa using hb), ih hrest]
    rfl
  | case9 index a hone hlead b hb htwo c rest hc ha ih =>
    obtain ⟨cs, hrest, rfl⟩ := map_eq_ok_iff.1 h
    rw [encodeChars_cons, encodeChar_three (by omega) ha (by simpa using hb) (by simpa using hc),
      ih hrest]
    rfl
  | case12 index a hone hlead b hb htwo c hc hthree d rest hd ih =>
    obtain ⟨cs, hrest, rfl⟩ := map_eq_ok_iff.1 h
    rw [encodeChars_cons, encodeChar_four (by omega) (by omega) (by simpa using hb)
      (by simpa using hc) (by simpa using hd), ih hrest]
    rfl
  | case3 | case4 | case5 | case7 | case8 | case10 | case11 => cases h

/-- A text that was decoded has the bytes that it was decoded from. -/
theorem encode_of_decode {raw : Bytes} {s : String} (h : decode raw = .ok s) : encode s = raw := by
  obtain ⟨cs, hcs, rfl⟩ := map_eq_ok_iff.1 h
  rw [encode, String.toList_ofList, encodeChars_of_decodeFrom hcs]

end ColumnConnector.Utf8

import ColumnConnector.Proofs.Value.Forms
import Mathlib.Data.UInt
import Mathlib.Tactic.Ring

/-!
# The order of stored forms

Byte strings of one length compare like the numbers that they write, most significant byte first
(`Bytes.compare_eq_of_length`), so fixed-width numbers compare like the numbers.

Characters compare like the sequences that stand for them.  Two sequences of one width are of one
length; of different widths the longer one has the greater lead.  Either way the first character that
differs decides, whatever comes behind it (`Utf8.compare_encodeChar_append`), so that texts compare by
their code points (`Utf8.compare_encode`).
-/

namespace ColumnConnector

/-! ### Numbers -/

/-- The high part decides, and the low part where the high parts are the same. -/
theorem compare_mul_add {size x y : Nat} (hx : x < size) (hy : y < size) (a b : Nat) :
    compare (a * size + x) (b * size + y) = (compare a b).then (compare x y) := by
  have hstep : ∀ {m n u v : Nat}, m < n → u < size → m * size + u < n * size + v := by
    intro m n u v hmn hu
    calc m * size + u < m * size + size := Nat.add_lt_add_left hu _
      _ = (m + 1) * size := by ring
      _ ≤ n * size := Nat.mul_le_mul_right _ hmn
      _ ≤ n * size + v := Nat.le_add_right _ _
  rcases Nat.lt_trichotomy a b with hlt | rfl | hgt
  · rw [Nat.compare_eq_lt.2 hlt, Nat.compare_eq_lt.2 (hstep hlt hx)]
    rfl
  · rw [Nat.compare_eq_eq.2 rfl, Nat.compare_eq_ite_lt, Nat.compare_eq_ite_lt x y]
    simp only [Nat.add_lt_add_iff_left]
    rfl
  · rw [Nat.compare_eq_gt.2 hgt, Nat.compare_eq_gt.2 (hstep hgt hy)]
    rfl

namespace Bytes

/-- A first part of one length decides, and the rest where it is the same. -/
theorem compare_append_of_length {r s : Bytes} (h : r.length = s.length) (x y : Bytes) :
    compare (r ++ x) (s ++ y) = (compare r s).then (compare x y) := by
  induction r generalizing s with
  | nil =>
    rw [List.length_eq_zero_iff.1 h.symm]
    rfl
  | cons a r ih =>
    obtain ⟨b, s, rfl⟩ := List.exists_cons_of_length_eq_add_one h.symm
    have hrest : r.length = s.length := Nat.succ.inj h
    rw [List.cons_append, List.cons_append, List.compare_cons_cons, List.compare_cons_cons, ih hrest,
      Ordering.then_assoc]

theorem foldl_eq (raw : Bytes) (n : Nat) :
    raw.foldl (fun n b => n * 256 + b.toNat) n = n * Nat.pow 256 raw.length + ofBigEndian raw := by
  induction raw generalizing n with
  | nil => simp [ofBigEndian]
  | cons b rest ih =>
    have hpow : Nat.pow 256 (rest.length + 1) = Nat.pow 256 rest.length * 256 := rfl
    rw [ofBigEndian, List.foldl_cons, List.foldl_cons, ih, ih, List.length_cons, hpow]
    ring

theorem ofBigEndian_cons (a : UInt8) (raw : Bytes) :
    ofBigEndian (a :: raw) = a.toNat * Nat.pow 256 raw.length + ofBigEndian raw := by
  rw [ofBigEndian, List.foldl_cons, foldl_eq]
  ring

/-- Byte strings of one length compare like the numbers that they write. -/
theorem compare_eq_of_length {r s : Bytes} (h : r.length = s.length) :
    compare r s = compare (ofBigEndian r) (ofBigEndian s) := by
  induction r generalizing s with
  | nil =>
    rw [List.length_eq_zero_iff.1 h.symm]
    rfl
  | cons a r ih =>
    obtain ⟨b, s, rfl⟩ := List.exists_cons_of_length_eq_add_one h.symm
    have hrest : r.length = s.length := Nat.succ.inj h
    have hr := ofBigEndian_lt r
    have hs := ofBigEndian_lt s
    rw [← hrest] at hs
    rw [List.compare_cons_cons, ih hrest, ofBigEndian_cons, ofBigEndian_cons, ← hrest,
      compare_mul_add hr hs, UInt8.compare_eq_toNat_compare_toNat]

/-- Written in one width, numbers keep their order. -/
theorem compare_bigEndian {width m n : Nat} (hm : m < Nat.pow 256 width)
    (hn : n < Nat.pow 256 width) : compare (bigEndian width m) (bigEndian width n) = compare m n := by
  rw [compare_eq_of_length (by rw [length_bigEndian, length_bigEndian]), ofBigEndian_bigEndian,
    ofBigEndian_bigEndian, Nat.mod_eq_of_lt hm, Nat.mod_eq_of_lt hn]

/-- Byte strings compare like the lists of the numbers of their bytes. -/
theorem compare_map_toNat (r s : Bytes) :
    compare (r.map UInt8.toNat) (s.map UInt8.toNat) = compare r s := by
  induction r generalizing s with
  | nil => cases s <;> rfl
  | cons a r ih =>
    cases s with
    | nil => rfl
    | cons b s =>
      rw [List.map_cons, List.map_cons, List.compare_cons_cons, List.compare_cons_cons, ih,
        UInt8.compare_eq_toNat_compare_toNat]

end Bytes

/-! ### Texts -/

namespace Utf8

/-- The number that the sequence of a character writes. -/
theorem ofBigEndian_encodeChar (c : Char) : (encodeChar c).ofBigEndian =
    if c.toNat < 0x80 then c.toNat
    else if c.toNat < 0x800 then (0xc0 + c.toNat / 64) * 256 + (0x80 + c.toNat % 64)
    else if c.toNat < 0x10000 then
      ((0xe0 + c.toNat / 4096) * 256 + (0x80 + c.toNat / 64 % 64)) * 256 + (0x80 + c.toNat % 64)
    else
      (((0xf0 + c.toNat / 262144) * 256 + (0x80 + c.toNat / 4096 % 64)) * 256 +
        (0x80 + c.toNat / 64 % 64)) * 256 + (0x80 + c.toNat % 64) := by
  have hvalid := toNat_valid c
  unfold encodeChar
  dsimp only
  split_ifs
  all_goals
    simp only [Bytes.ofBigEndian, List.foldl_cons, List.foldl_nil]
    repeat rw [toNat_ofNat (by omega)]
    omega

/-- Greater characters have sequences that write greater numbers, of whatever width. -/
theorem ofBigEndian_encodeChar_lt {c d : Char} (h : c.toNat < d.toNat) :
    (encodeChar c).ofBigEndian < (encodeChar d).ofBigEndian := by
  have hc := toNat_valid c
  have hd := toNat_valid d
  rw [ofBigEndian_encodeChar, ofBigEndian_encodeChar]
  split_ifs <;> omega

/-- A sequence has a lead, which tells its length. -/
theorem exists_lead (c : Char) : ∃ lead rest, encodeChar c = lead :: rest ∧
    (rest.length = 0 ∧ lead.toNat < 0x80 ∧ c.toNat < 0x80 ∨
      rest.length = 1 ∧ 0xc0 ≤ lead.toNat ∧ lead.toNat < 0xe0 ∧ 0x80 ≤ c.toNat ∧ c.toNat < 0x800 ∨
      rest.length = 2 ∧ 0xe0 ≤ lead.toNat ∧ lead.toNat < 0xf0 ∧ 0x800 ≤ c.toNat ∧
        c.toNat < 0x10000 ∨
      rest.length = 3 ∧ 0xf0 ≤ lead.toNat ∧ 0x10000 ≤ c.toNat) := by
  have hvalid := toNat_valid c
  unfold encodeChar
  dsimp only
  split_ifs
  all_goals
    refine ⟨_, _, rfl, ?_⟩
    rw [toNat_ofNat (by omega)]
    simp only [List.length_cons, List.length_nil, true_and]
    omega

theorem compare_encodeChar_of_lt {c d : Char} (h : c.toNat < d.toNat) (x y : Bytes) :
    compare (encodeChar c ++ x) (encodeChar d ++ y) = .lt := by
  obtain ⟨a, r, hc, hwidth⟩ := exists_lead c
  obtain ⟨b, s, hd, hwidth'⟩ := exists_lead d
  by_cases hlength : r.length = s.length
  · have hsame : (encodeChar c).length = (encodeChar d).length := by
      rw [hc, hd, List.length_cons, List.length_cons, hlength]
    rw [Bytes.compare_append_of_length hsame, Bytes.compare_eq_of_length hsame,
      Nat.compare_eq_lt.2 (ofBigEndian_encodeChar_lt h)]
    rfl
  · have hlead : a.toNat < b.toNat := by omega
    rw [hc, hd, List.cons_append, List.cons_append, List.compare_cons_cons,
      UInt8.compare_eq_toNat_compare_toNat, Nat.compare_eq_lt.2 hlead]
    rfl

/-- Sequences compare like the characters, and where these are the same like what follows. -/
theorem compare_encodeChar_append (c d : Char) (x y : Bytes) :
    compare (encodeChar c ++ x) (encodeChar d ++ y) =
      (compare c.toNat d.toNat).then (compare x y) := by
  rcases Nat.lt_trichotomy c.toNat d.toNat with hlt | heq | hgt
  · rw [compare_encodeChar_of_lt hlt, Nat.compare_eq_lt.2 hlt]
    rfl
  · rw [Char.toNat_inj.1 heq, Bytes.compare_append_of_length rfl, Std.compare_self,
      Std.compare_self]
  · rw [Std.OrientedOrd.eq_swap, compare_encodeChar_of_lt hgt, Nat.compare_eq_gt.2 hgt]
    rfl

/-- Texts compare by their code points. -/
theorem compare_encode (s t : String) : compare (encode s) (encode t) =
    compare (s.toList.map Char.toNat) (t.toList.map Char.toNat) := by
  rw [encode, encode]
  generalize s.toList = cs
  generalize t.toList = ds
  induction cs generalizing ds with
  | nil =>
    cases ds with
    | nil => rfl
    | cons d ds =>
      obtain ⟨lead, rest, hd, -⟩ := exists_lead d
      rw [encodeChars_cons, hd]
      rfl
  | cons c cs ih =>
    cases ds with
    | nil =>
      obtain ⟨lead, rest, hc, -⟩ := exists_lead c
      rw [encodeChars_cons, hc]
      rfl
    | cons d ds =>
      rw [encodeChars_cons, encodeChars_cons, compare_encodeChar_append, ih, List.map_cons,
        List.map_cons, List.compare_cons_cons]

end Utf8

end ColumnConnector

import ColumnConnector.Header
import Mathlib.Data.List.Basic

/-!
# Numbered header names

The names of the parts of an entry have no digits of their own.  A numbered name therefore falls
apart again into the name of the part, which is what is left without the digits, and the number,
which the digits denote: two numbered names are equal only if both are (`Header.numbered_inj`).
-/

namespace ColumnConnector

namespace Decimal

theorem digit?_of_mem_chars {n : Nat} {c : Char} (h : c ∈ chars (digits n)) :
    (digit? c).isSome = true := by
  obtain ⟨d, hd, rfl⟩ := List.mem_map.1 h
  rw [digit?_digitChar (digits_lt_ten n d hd)]
  rfl

/-- The digits are read back from their characters. -/
theorem filterMap_digit?_chars (n : Nat) : (chars (digits n)).filterMap digit? = digits n := by
  rw [chars, List.filterMap_map]
  have hread : ∀ d ∈ digits n, (digit? ∘ digitChar) d = some d := by
    intro d hd
    exact digit?_digitChar (digits_lt_ten n d hd)
  rw [List.filterMap_congr hread, List.filterMap_some]

theorem digits_injective {m n : Nat} (h : digits m = digits n) : m = n := by
  rw [← value_digits m, h, value_digits n]

end Decimal

namespace Header

/-- The name has no digits. -/
def Plain (name : String) : Prop := ∀ c ∈ name.toList, Decimal.digit? c = none

instance (name : String) : Decidable (Plain name) :=
  List.decidableBAll (fun c => Decimal.digit? c = none) name.toList

theorem plain_of_mem_ofEntry : ∀ name ∈ ofEntry, Plain name := by decide +kernel

theorem plain_of_mem_defaulted : ∀ name ∈ defaulted, Plain name := by decide +kernel

/-- The digits at the end of a numbered name. -/
def marks (index : Nat) : List Nat := if index ≤ 1 then [] else Decimal.digits index

theorem marks_injective {i j : Nat} (hi : 1 ≤ i) (hj : 1 ≤ j) (h : marks i = marks j) : i = j := by
  unfold marks at h
  split at h
  · split at h
    · omega
    · exact absurd h.symm (Decimal.digits_ne_nil j)
  · split at h
    · exact absurd h (Decimal.digits_ne_nil i)
    · exact Decimal.digits_injective h

theorem toList_numbered (name : String) (index : Nat) :
    (numbered name index).toList = name.toList ++ Decimal.chars (marks index) := by
  unfold numbered marks
  split
  · rw [Decimal.chars, List.map_nil, List.append_nil]
  · rw [String.toList_append, Decimal.ofNat, String.toList_ofList]

section Parts

variable {name : String} (h : Plain name) (index : Nat)
include h

theorem filterMap_digit?_numbered :
    (numbered name index).toList.filterMap Decimal.digit? = marks index := by
  have hname : name.toList.filterMap Decimal.digit? = [] := List.filterMap_eq_nil_iff.2 h
  rw [toList_numbered, List.filterMap_append, hname, List.nil_append, marks]
  split
  · rfl
  · exact Decimal.filterMap_digit?_chars index

theorem filter_numbered :
    (numbered name index).toList.filter (fun c => (Decimal.digit? c).isNone) = name.toList := by
  have hname : name.toList.filter (fun c => (Decimal.digit? c).isNone) = name.toList := by
    rw [List.filter_eq_self]
    intro c hc
    rw [h c hc]
    rfl
  have hmarks : (Decimal.chars (marks index)).filter (fun c => (Decimal.digit? c).isNone) = [] := by
    rw [List.filter_eq_nil_iff]
    intro c hc
    unfold marks at hc
    split at hc
    · exact absurd hc List.not_mem_nil
    · have hdigit := Decimal.digit?_of_mem_chars hc
      rw [← Option.not_isSome, hdigit]
      decide
  rw [toList_numbered, List.filter_append, hname, hmarks, List.append_nil]

end Parts

/-- A numbered name tells the part and the number. -/
theorem numbered_inj {name name' : String} (h : Plain name) (h' : Plain name') {i j : Nat}
    (hi : 1 ≤ i) (hj : 1 ≤ j) : numbered name i = numbered name' j ↔ name = name' ∧ i = j := by
  constructor
  · intro heq
    constructor
    · rw [← String.toList_inj, ← filter_numbered h i, ← filter_numbered h' j, heq]
    · apply marks_injective hi hj
      rw [← filterMap_digit?_numbered h i, ← filterMap_digit?_numbered h' j, heq]
  · rintro ⟨rfl, rfl⟩
    rfl

/-- No number makes one plain name out of another. -/
theorem numbered_ne {name other : String} (h : Plain name) (h' : Plain other) (hne : name ≠ other)
    {i : Nat} (hi : 1 ≤ i) : numbered name i ≠ other := by
  intro heq
  have hfirst : numbered name i = numbered other 1 := heq
  exact hne ((numbered_inj h h' hi (Nat.le_refl 1)).1 hfirst).1

/-- The endpoint fills in no header of an entry. -/
theorem numbered_not_mem_defaulted {name : String} (h : name ∈ ofEntry) {i : Nat} (hi : 1 ≤ i) :
    numbered name i ∉ defaulted := by
  intro hmem
  have hapart : ∀ name ∈ ofEntry, ∀ other ∈ defaulted, name ≠ other := by decide
  exact numbered_ne (plain_of_mem_ofEntry name h) (plain_of_mem_defaulted _ hmem)
    (hapart name h _ hmem) hi rfl

/-! ### Names of one meaning each -/

/-- The headers that control an invocation. -/
def control : List String := [operation, maxScanResults, startRow, strategy, strategyClass]

/-- The settings of a model column. -/
def ofColumn : List String := ["family", "qualifier", "value.type"]

theorem plain_of_mem_control : ∀ name ∈ control, Plain name := by decide +kernel

theorem plain_of_mem_ofColumn : ∀ name ∈ ofColumn, Plain name := by decide +kernel

/-- No header of an entry controls the invocation. -/
theorem numbered_not_mem_control {name : String} (h : name ∈ ofEntry) {i : Nat} (hi : 1 ≤ i) :
    numbered name i ∉ control := by
  intro hmem
  have hapart : ∀ name ∈ ofEntry, ∀ other ∈ control, name ≠ other := by decide
  exact numbered_ne (plain_of_mem_ofEntry name h) (plain_of_mem_control _ hmem)
    (hapart name h _ hmem) hi rfl

end Header

end ColumnConnector

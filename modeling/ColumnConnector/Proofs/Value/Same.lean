import ColumnConnector.Proofs.Value.RoundTrip

/-!
# Values that are the same

Values are compared as they are, only doubles as numbers.  That is symmetric and transitive, but it
is no equivalence: what is not a number is not the same as itself.

The same value may be stored in two forms, but only if it is zero: the two zeros among the doubles
differ in their sign (`CellValue.encode_eq_iff_of_same`).
-/

namespace ColumnConnector

theorem Binary64.sameNumber_comm (x y : Binary64) : x.sameNumber y = y.sameNumber x := by
  unfold sameNumber
  rw [Bool.and_comm (!x.isNaN), Bool.beq_comm, Bool.and_comm (x.magnitude == 0)]

theorem Binary64.sameNumber_trans {x y z : Binary64} (hxy : x.sameNumber y = true)
    (hyz : y.sameNumber z = true) : x.sameNumber z = true := by
  simp only [sameNumber, Bool.and_eq_true, Bool.not_eq_true', Bool.or_eq_true, beq_iff_eq]
    at hxy hyz ⊢
  obtain ⟨⟨hx, -⟩, hbits | ⟨hx0, hy0⟩⟩ := hxy
  · obtain ⟨⟨-, hz⟩, hyz⟩ := hyz
    have heq : x = y := by
      cases x
      cases y
      exact congrArg Binary64.mk hbits
    rw [heq] at hx ⊢
    exact ⟨⟨hx, hz⟩, hyz⟩
  · obtain ⟨⟨-, hz⟩, hbits | ⟨-, hz0⟩⟩ := hyz
    · have heq : y = z := by
        cases y
        cases z
        exact congrArg Binary64.mk hbits
      rw [heq] at hy0
      exact ⟨⟨hx, hz⟩, .inr ⟨hx0, hy0⟩⟩
    · exact ⟨⟨hx, hz⟩, .inr ⟨hx0, hz0⟩⟩

namespace CellValue

/-- Values that are the same are equal, unless they are doubles. -/
theorem same_iff {v w : CellValue} : v.same w = true ↔
    (v = w ∧ v.type ≠ .float64) ∨ ∃ x y, v = .float64 x ∧ w = .float64 y ∧ x.sameNumber y = true := by
  cases v <;> cases w <;> simp [same, type]

/-- A value that is no double is the same as itself and nothing else. -/
theorem same_iff_eq {v w : CellValue} (h : v.type ≠ .float64) : v.same w = true ↔ v = w := by
  rw [same_iff]
  constructor
  · rintro (⟨heq, -⟩ | ⟨x, y, rfl, -⟩)
    · exact heq
    · exact absurd rfl h
  · rintro rfl
    exact .inl ⟨rfl, h⟩

theorem same_comm (v w : CellValue) : v.same w = w.same v := by
  cases v <;> cases w <;> simp [same, Binary64.sameNumber_comm, eq_comm]

theorem same_trans {u v w : CellValue} (huv : u.same v = true) (hvw : v.same w = true) :
    u.same w = true := by
  rw [same_iff] at huv hvw ⊢
  rcases huv with ⟨rfl, hu⟩ | ⟨x, y, rfl, rfl, hxy⟩
  · exact hvw
  · rcases hvw with ⟨-, hv⟩ | ⟨y', z, hy, rfl, hyz⟩
    · exact absurd rfl hv
    · cases hy
      exact .inr ⟨x, z, rfl, rfl, Binary64.sameNumber_trans hxy hyz⟩

/-- One of the two zeros among the doubles. -/
def IsZero (v : CellValue) : Prop := ∃ x, v = .float64 x ∧ x.magnitude = 0

theorem type_eq_of_same {v w : CellValue} (h : v.same w = true) : v.type = w.type := by
  rcases same_iff.1 h with ⟨rfl, -⟩ | ⟨x, y, rfl, rfl, -⟩ <;> rfl

/-- Different values that are the same are the two zeros. -/
theorem isZero_of_same {v w : CellValue} (h : v.same w = true) (hne : v ≠ w) :
    v.IsZero ∧ w.IsZero := by
  rcases same_iff.1 h with ⟨heq, -⟩ | ⟨x, y, rfl, rfl, hxy⟩
  · exact absurd heq hne
  · simp only [Binary64.sameNumber, Bool.and_eq_true, Bool.or_eq_true, beq_iff_eq] at hxy
    rcases hxy.2 with hbits | ⟨hx, hy⟩
    · exact absurd (congrArg (fun bits => float64 ⟨bits⟩) hbits) hne
    · exact ⟨⟨x, rfl, hx⟩, ⟨y, rfl, hy⟩⟩

/-- Values that are the same have one stored form only if they are equal. -/
theorem encode_eq_iff_of_same {v w : CellValue} (h : v.same w = true) :
    v.encode = w.encode ↔ v = w := by
  constructor
  · intro hencode
    have hv := ValueType.decode_encode v
    rw [hencode, type_eq_of_same h, ValueType.decode_encode w] at hv
    exact (Except.ok.inj hv).symm
  · rintro rfl
    rfl

end CellValue

end ColumnConnector

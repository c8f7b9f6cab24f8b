/-!
# Decimal digits

Natural numbers as lists of decimal digits, most significant first, and as text.

`value_digits` says that the digits of a number denote it; `digits_lt_ten` that each is one.
-/

namespace ColumnConnector.Decimal

/-- The decimal digits of `n`, most significant first; zero has one digit. -/
def digits (n : Nat) : List Nat :=
  if n < 10 then [n] else digits (n / 10) ++ [n % 10]
termination_by n

/-- The number that a list of digits denotes. -/
def value (ds : List Nat) : Nat := ds.foldl (fun n d => n * 10 + d) 0

theorem value_digits (n : Nat) : value (digits n) = n := by
  induction n using Nat.strongRecOn with
  | _ n ih =>
    rw [digits]
    split
    · simp [value]
    · have h := ih (n / 10) (by omega)
      simp only [value] at h ⊢
      rw [List.foldl_append, h]
      simp only [List.foldl_cons, List.foldl_nil]
      omega

theorem digits_lt_ten (n : Nat) : ∀ d ∈ digits n, d < 10 := by
  induction n using Nat.strongRecOn with
  | _ n ih =>
    rw [digits]
    split
    · intro d hd
      rw [List.mem_singleton.1 hd]
      assumption
    · intro d hd
      rcases List.mem_append.1 hd with hd | hd
      · exact ih (n / 10) (by omega) d hd
      · rw [List.mem_singleton.1 hd]
        omega

theorem digits_ne_nil (n : Nat) : digits n ≠ [] := by
  rw [digits]
  split <;> simp

/-- The character of a digit. -/
def digitChar (d : Nat) : Char := Char.ofNat (48 + d)

/-- The digit that a character stands for, if it is one of the ten ASCII digits. -/
def digit? (c : Char) : Option Nat :=
  if 48 ≤ c.toNat ∧ c.toNat ≤ 57 then some (c.toNat - 48) else none

theorem digit?_digitChar {d : Nat} (h : d < 10) : digit? (digitChar d) = some d := by
  have : d = 0 ∨ d = 1 ∨ d = 2 ∨ d = 3 ∨ d = 4 ∨ d = 5 ∨ d = 6 ∨ d = 7 ∨ d = 8 ∨ d = 9 := by
    omega
  rcases this with h | h | h | h | h | h | h | h | h | h <;> subst h <;> decide

/-- The characters of a list of digits. -/
def chars (ds : List Nat) : List Char := ds.map digitChar

/-- The decimal text of a natural number. -/
def ofNat (n : Nat) : String := String.ofList (chars (digits n))

/-- The decimal text of an integer, with a minus sign when it is negative. -/
def ofInt (n : Int) : String :=
  String.ofList (if n < 0 then '-' :: chars (digits n.natAbs) else chars (digits n.natAbs))

end ColumnConnector.Decimal

/-! # Digits

The digits of the bases up to sixteen: ASCII digits, and letters of either case. -/

namespace StyleAudit.Text
set_option autoImplicit false

/-- The value of a digit, if a character is one. -/
def digitValue (c : Char) : Option Nat :=
  if '0' ≤ c && c ≤ '9' then some (c.toNat - 48)
  else if 'a' ≤ c && c ≤ 'f' then some (c.toNat - 87)
  else if 'A' ≤ c && c ≤ 'F' then some (c.toNat - 55)
  else none

/-- The digit of a value below sixteen. -/
def hexDigit (n : Nat) : Char := if n < 10 then Char.ofNat (48 + n) else Char.ofNat (87 + n)

/-- The number that digits stand for in a base. What is no digit counts as zero. -/
def valueIn (base : Nat) (cs : List Char) : Nat :=
  cs.foldl (fun n c => base * n + (digitValue c).getD 0) 0

theorem valueIn_concat (base : Nat) (cs : List Char) (c : Char) :
    valueIn base (cs ++ [c]) = base * valueIn base cs + (digitValue c).getD 0 := by
  rw [valueIn, valueIn, List.foldl_append]
  rfl

theorem digitValue_digitChar : ∀ d < 16, digitValue (Nat.digitChar d) = some d := by decide

theorem digitValue_hexDigit : ∀ d < 16, digitValue (hexDigit d) = some d := by decide

/-- The digits of a number stand for it. -/
theorem valueIn_toDigits {base : Nat} (hbase : 1 < base) (hlarge : base ≤ 16) (n : Nat) :
    valueIn base (Nat.toDigits base n) = n := by
  induction n using Nat.strongRecOn with
  | ind n ih =>
    by_cases hn : n < base
    · rw [Nat.toDigits_of_lt_base hn, valueIn, List.foldl_cons, List.foldl_nil,
        digitValue_digitChar n (by omega), Option.getD_some, Nat.mul_zero, Nat.zero_add]
    · have hsmaller : n / base < n := Nat.div_lt_self (by omega) hbase
      have hdigit : n % base < 16 := by
        have := Nat.mod_lt n (by omega : 0 < base)
        omega
      rw [Nat.toDigits_of_base_le hbase (by omega), valueIn_concat, ih _ hsmaller,
        digitValue_digitChar _ hdigit, Option.getD_some, Nat.div_add_mod]

end StyleAudit.Text

/-! # Counts

Occurrence counts are 64-bit words. Sums stop at the largest word instead of wrapping, so a total
is never smaller than one of its parts. -/

namespace StyleAudit
set_option autoImplicit false

abbrev Count := UInt64

namespace Count

/-- The largest count. -/
def top : Count := 18446744073709551615

/-- The sum, or the largest count when the sum does not fit. -/
def plus (a b : Count) : Count :=
  if a.toNat + b.toNat < 18446744073709551616 then a + b else top

/-- A natural number as a count, if it fits. -/
def ofNat? (n : Nat) : Option Count :=
  if n < 18446744073709551616 then some (UInt64.ofNat n) else none

/-- Sum of a list of counts, from the left. -/
def sum (counts : List Count) : Count := counts.foldl plus 0

theorem toNat_plus (a b : Count) :
    (plus a b).toNat = min 18446744073709551615 (a.toNat + b.toNat) := by
  unfold plus
  split
  · rename_i h
    rw [UInt64.toNat_add, Nat.mod_eq_of_lt h]
    omega
  · have h : top.toNat = 18446744073709551615 := rfl
    omega

end Count
end StyleAudit

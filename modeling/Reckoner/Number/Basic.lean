/-!
# Binary64 numbers

A number is one of the values of the IEEE 754 format binary64. The finite magnitudes are numbered in
increasing order: the *rank* of a magnitude is its place in that order, from `0` for zero to
`finiteCount - 1` for the largest. Every finite magnitude is a whole multiple of `2 ^ -1074`, the
smallest one, and `units` says which. All exact arithmetic is done in these units.

The rank is also the pattern of the lower 63 bits: a pattern below `finiteCount` is finite, that
pattern itself is infinity, and a larger one is not a number. The format has many patterns that are
not a number; they are one value here. `ofBits_toBits` says that no other value is lost.
-/

namespace Reckoner

namespace Number

/-- The weight of the leading bit of a normal significand. -/
def leadingBit : Nat := 0x10000000000000

/-- How many finite magnitudes there are: 2047 blocks, each as long as the leading bit is heavy. -/
def finiteCount : Nat := 0x7FF0000000000000

/-- The number of units in one. -/
def unitsPerOne : Nat := Nat.pow 2 1074

end Number

/-- A value of the format binary64. -/
inductive Number where
  | nan
  /-- Infinity of either sign. -/
  | infinity (negative : Bool)
  /-- The finite magnitude of the given rank with a sign; zero has two signs. -/
  | finite (negative : Bool) (rank : Fin Number.finiteCount)
deriving DecidableEq, Repr

namespace Number

/-! ### Ranks and units -/

/-- The magnitude of a rank in units. Below the leading bit ranks are magnitudes; from there on each
block of `2 ^ 52` ranks is spaced twice as widely as the block before. -/
def units (rank : Nat) : Nat :=
  if rank < leadingBit then rank
  else (leadingBit + rank % leadingBit) * Nat.pow 2 (rank / leadingBit - 1)

theorem units_of_lt {rank : Nat} (h : rank < leadingBit) : units rank = rank := by
  simp [units, h]

/-- The magnitude of a rank with a sign; a rank beyond the finite ones is infinite. -/
def ofRank (negative : Bool) (rank : Nat) : Number :=
  if h : rank < finiteCount then .finite negative ⟨rank, h⟩ else .infinity negative

theorem ofRank_of_lt {negative : Bool} {rank : Nat} (h : rank < finiteCount) :
    ofRank negative rank = .finite negative ⟨rank, h⟩ := by
  simp [ofRank, h]

/-- Zero with a sign. -/
def zero (negative : Bool) : Number := ofRank negative 0

/-- Whether the number is finite. -/
def isFinite : Number → Bool
  | .finite _ _ => true
  | _ => false

/-- Whether the number is not a number. -/
def isNan : Number → Bool
  | .nan => true
  | _ => false

/-- The number with the other sign. -/
def negate : Number → Number
  | .nan => .nan
  | .infinity s => .infinity (!s)
  | .finite s r => .finite (!s) r

theorem negate_negate (x : Number) : x.negate.negate = x := by
  cases x <;> simp [negate]

/-! ### Bit patterns -/

/-- The lower 63 bits of the pattern. -/
def magnitudeBits : Number → Nat
  | .nan => 0x7FF8000000000000
  | .infinity _ => finiteCount
  | .finite _ r => r

/-- The weight of the sign bit. -/
def signPlace : Nat := 0x8000000000000000

/-- Whether the sign bit is set. -/
def signBit : Number → Bool
  | .nan => false
  | .infinity s => s
  | .finite s _ => s

/-- The pattern of the number; one pattern stands for all that are not a number. -/
def toBits (x : Number) : UInt64 :=
  UInt64.ofNat (x.magnitudeBits + if x.signBit then signPlace else 0)

theorem magnitudeBits_lt (x : Number) : x.magnitudeBits < signPlace := by
  cases x with
  | nan => decide
  | infinity s => show finiteCount < signPlace; decide
  | finite s r => exact Nat.lt_trans r.isLt (by decide)

theorem toNat_toBits (x : Number) :
    x.toBits.toNat = x.magnitudeBits + if x.signBit then signPlace else 0 := by
  have h := x.magnitudeBits_lt
  have hp : signPlace + signPlace = 2 ^ 64 := by decide
  unfold toBits
  rw [UInt64.toNat_ofNat']
  apply Nat.mod_eq_of_lt
  split <;> omega

/-- The number with a pattern. -/
def ofBits (b : UInt64) : Number :=
  let negative := signPlace ≤ b.toNat
  let rank := b.toNat % signPlace
  if finiteCount < rank then .nan else ofRank negative rank

/-- Reading the pattern of a number gives the number back. -/
theorem ofBits_toBits (x : Number) : ofBits x.toBits = x := by
  have hm := x.magnitudeBits_lt
  have hr : x.toBits.toNat % signPlace = x.magnitudeBits := by
    rw [toNat_toBits]
    split
    · rw [Nat.add_mod_right, Nat.mod_eq_of_lt hm]
    · rw [Nat.add_zero, Nat.mod_eq_of_lt hm]
  have hs : decide (signPlace ≤ x.toBits.toNat) = x.signBit := by
    rw [toNat_toBits]
    split <;> rename_i h
    · simp [h]
    · simp only [h, Nat.add_zero, decide_eq_false_iff_not]
      omega
  simp only [ofBits, hr, hs]
  cases x with
  | nan => rfl
  | infinity s => simp [magnitudeBits, ofRank, signBit]
  | finite s r =>
    simp only [magnitudeBits, signBit, Nat.not_lt.2 (Nat.le_of_lt r.isLt), if_false,
      ofRank_of_lt r.isLt]

end Number

end Reckoner

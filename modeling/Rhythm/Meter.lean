/-
This file holds time signatures, which say how many beats fill a measure and which note value one
beat has.
-/

namespace Rhythm

/-- A meter counts beats of one note value, as in three quarters. -/
structure Meter where
  /-- How many beats fill a measure. -/
  count : UInt32
  /-- How many beats fill a whole note. -/
  unit : UInt32
  deriving DecidableEq

namespace Meter

def common : Meter := ⟨4, 4⟩

/-- The largest number of beats that a measure may hold. -/
def mostBeats : UInt32 := 64

/-- A meter is playable when both its numbers are positive and it has few enough beats. -/
structure Playable (meter : Meter) : Prop where
  count_pos : 0 < meter.count
  unit_pos : 0 < meter.unit
  count_le : meter.count ≤ mostBeats

/-- A meter in eighths is compound when its beats come in threes. -/
def isCompound (meter : Meter) : Bool :=
  meter.unit == 8 && meter.count % 3 == 0

/-- A compound meter stresses every third beat, and any other meter only the first one. -/
def defaultGrouping (meter : Meter) : List UInt32 :=
  if meter.isCompound then List.replicate (meter.count / 3).toNat 3 else [meter.count]

/-- The number of beats in a list of groups. It is a word, so large sums wrap around. -/
def beatsOf : List UInt32 → UInt32
  | [] => 0
  | group :: rest => group + beatsOf rest

/-- A grouping cuts the beats of a measure into groups of at least one beat. The beats of the groups
are added as words. -/
structure Partitions (meter : Meter) (grouping : List UInt32) : Prop where
  nonempty : grouping ≠ []
  positive : (0 : UInt32) ∉ grouping
  total : beatsOf grouping = meter.count

def text (meter : Meter) : String :=
  toString meter.count.toNat ++ "/" ++ toString meter.unit.toNat

theorem beatsOf_replicate (count : Nat) (group : UInt32) :
    beatsOf (List.replicate count group) = UInt32.ofNat count * group := by
  induction count with
  | zero => simp [beatsOf]
  | succ count inductionHypothesis =>
      rw [List.replicate_succ, beatsOf, inductionHypothesis, UInt32.ofNat_add, UInt32.add_mul,
        UInt32.add_comm]
      simp

/-- The beats of a compound meter make up whole threes. -/
theorem thirds_mul_three {meter : Meter} (compound : meter.isCompound = true) :
    meter.count / 3 * 3 = meter.count := by
  simp only [isCompound, Bool.and_eq_true, beq_iff_eq] at compound
  have thirds : meter.count.toNat % 3 = 0 := by
    simpa using congrArg UInt32.toNat compound.2
  have small := meter.count.toNat_lt
  apply UInt32.toNat_inj.mp
  rw [UInt32.toNat_mul, UInt32.toNat_div]
  change meter.count.toNat / 3 * 3 % 2 ^ 32 = meter.count.toNat
  omega

theorem beatsOf_defaultGrouping (meter : Meter) :
    beatsOf meter.defaultGrouping = meter.count := by
  by_cases compound : meter.isCompound
  · rw [defaultGrouping, if_pos compound, beatsOf_replicate, UInt32.ofNat_toNat,
      thirds_mul_three compound]
  · simp [defaultGrouping, compound, beatsOf]

theorem defaultGrouping_partitions {meter : Meter} (positive : 0 < meter.count) :
    meter.Partitions meter.defaultGrouping := by
  have present : meter.count ≠ 0 := by
    intro zero
    rw [zero] at positive
    exact absurd positive (by decide)
  refine ⟨?_, ?_, beatsOf_defaultGrouping meter⟩
  · intro empty
    have none := beatsOf_defaultGrouping meter
    rw [empty] at none
    exact present none.symm
  · rw [defaultGrouping]
    split
    · intro member
      exact absurd (List.eq_of_mem_replicate member) (by decide)
    · intro member
      exact present (List.mem_singleton.mp member).symm

end Meter

end Rhythm

import RelationalStore.Store.Interval

/-!
# Keys that start alike

The interval of the keys that start with given bytes holds exactly these keys. It reaches
from the given bytes up to the least byte string above all that start with them, and so it
is never improper.
-/

namespace RelationalStore

namespace Interval

variable {start k : Bytes} {b c : UInt8}

/-- Byte strings are ordered by their first bytes, and by the others if these agree. -/
theorem compare_cons (b c : UInt8) (start k : Bytes) :
    compare (b :: start) (c :: k) = (compare b c).then (compare start k) :=
  List.compareLex_cons_cons

/-- A common beginning plays no part in the order of byte strings. -/
theorem compare_append_left (start a b : Bytes) :
    compare (start ++ a) (start ++ b) = compare a b := by
  induction start with
  | nil => rfl
  | cons c start ih =>
    have hself : compare c c = .eq := Std.ReflCmp.compare_self
    rw [List.cons_append, List.cons_append, compare_cons, hself, Ordering.eq_then, ih]

/-- Everything that starts with the given bytes lies below the byte string beyond them. -/
def BelowBeyond (start k : Bytes) : Prop :=
  ∀ above, firstBeyond? start = some above → compare k above = .lt

/-- A common first byte plays no part in what lies beyond a beginning. -/
theorem belowBeyond_cons_self : BelowBeyond (b :: start) (b :: k) ↔ BelowBeyond start k := by
  unfold BelowBeyond
  rw [firstBeyond?]
  cases firstBeyond? start with
  | some above =>
    simp only [Option.some.injEq, forall_eq', compare_cons, Std.ReflCmp.compare_self,
      Ordering.eq_then]
  | none =>
    by_cases hb : b = 255
    · simp [hb]
    · have hnext : compare b (b + 1) = .lt := by
        refine compareOfLessAndEq_eq_lt.mpr (UInt8.lt_iff_toNat_lt.mpr ?_)
        have hlast : b.toNat ≠ 255 := fun h => hb (UInt8.toNat_inj.mp h)
        have hsize := b.toNat_lt
        rw [UInt8.toNat_add, UInt8.toNat_one]
        omega
      simp [hb, hnext]

/-- What starts with a greater byte does not lie below the byte string beyond. -/
theorem not_belowBeyond_of_lt (h : compare b c = .lt) :
    ¬ BelowBeyond (b :: start) (c :: k) := by
  have hlt : b.toNat < c.toNat := UInt8.lt_iff_toNat_lt.mp (compareOfLessAndEq_eq_lt.mp h)
  have hsize := c.toNat_lt
  intro hbelow
  unfold BelowBeyond at hbelow
  rw [firstBeyond?] at hbelow
  cases hbeyond : firstBeyond? start with
  | some above =>
    have hgt : compare c b = .gt := Std.OrientedCmp.gt_of_lt h
    have hcompare := hbelow _ (by rw [hbeyond])
    rw [compare_cons, hgt, Ordering.gt_then] at hcompare
    cases hcompare
  | none =>
    have hb : b ≠ 255 := by
      rintro rfl
      have htop : (255 : UInt8).toNat = 255 := rfl
      omega
    have hcompare := hbelow [b + 1] (by simp [hbeyond, hb])
    have hle : compare c (b + 1) ≠ .lt := by
      intro hc
      have hc := UInt8.lt_iff_toNat_lt.mp (compareOfLessAndEq_eq_lt.mp hc)
      rw [UInt8.toNat_add, UInt8.toNat_one] at hc
      omega
    rw [compare_cons] at hcompare
    cases hc : compare c (b + 1) with
    | lt => exact hle hc
    | eq =>
      rw [hc, Ordering.eq_then] at hcompare
      cases k <;> cases hcompare
    | gt =>
      rw [hc, Ordering.gt_then] at hcompare
      cases hcompare

/-- A key starts with the given bytes exactly if it is not less than they are and lies below
the byte string beyond them. -/
theorem prefix_iff : start <+: k ↔ (compare start k).isLE = true ∧ BelowBeyond start k := by
  induction start generalizing k with
  | nil =>
    have hle : (compare ([] : Bytes) k).isLE = true := by cases k <;> rfl
    simp [hle, BelowBeyond, firstBeyond?]
  | cons b start ih =>
    cases k with
    | nil =>
      simp
    | cons c k =>
      rw [compare_cons, List.cons_prefix_cons]
      cases hbc : compare b c with
      | lt =>
        have hne : b ≠ c := by
          rintro rfl
          simp at hbc
        simp [hne, not_belowBeyond_of_lt hbc]
      | eq =>
        obtain rfl : b = c := Std.LawfulEqCmp.eq_of_compare hbc
        rw [Ordering.eq_then, belowBeyond_cons_self, ← ih]
        simp
      | gt =>
        have hne : b ≠ c := by
          rintro rfl
          simp at hbc
        simp [hne]

/-- The interval of the keys that start with some bytes holds these and no others. -/
theorem contains_startingWith_iff : (startingWith start).contains k = true ↔ start <+: k := by
  rw [prefix_iff, contains, Bool.and_eq_true, aboveLower, belowUpper, startingWith, BelowBeyond]
  refine and_congr_right fun _ => ?_
  cases firstBeyond? start with
  | none => simp
  | some above => simp [Ordering.isLT_iff_eq_lt]

/-- The interval of the keys that start with some bytes is never improper. -/
theorem improper_startingWith (start : Bytes) : (startingWith start).improper = false := by
  unfold startingWith
  cases hbeyond : firstBeyond? start with
  | none => rfl
  | some above =>
    have hlt : compare start above = .lt := (prefix_iff.mp List.prefix_rfl).2 above hbeyond
    simp [improper, hlt]

end Interval

end RelationalStore

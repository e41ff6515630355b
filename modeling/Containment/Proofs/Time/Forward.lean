/-
Module: Containment.Proofs.Time.Forward
Purpose: Readings of a clock that is never set back. They are compared both to the nanosecond and in whole milliseconds, the
  unit of a database; only inside a leap second do the two differ.
Main exports: Instant.NotAfter, Instant.notAfter_iff, Instant.NotAfter.floorMillis, Forward
-/
import Containment.Proofs.Index.Ordering
import Containment.Proofs.Index.TableCatalogue

namespace Containment.Time

namespace Instant

/-- The first time is not after the second, nor is its number of milliseconds the greater one. -/
def NotAfter (a b : Instant) : Prop :=
  (compare a b).isLE ∧ a.toMillis ≤ b.toMillis

instance (a b : Instant) : Decidable (a.NotAfter b) :=
  inferInstanceAs (Decidable (_ ∧ _))

variable {a b c : Instant}

theorem NotAfter.refl (a : Instant) : a.NotAfter a :=
  ⟨Std.ReflCmp.isLE_rfl, le_rfl⟩

theorem NotAfter.trans (first : a.NotAfter b) (second : b.NotAfter c) : a.NotAfter c :=
  ⟨Std.TransCmp.isLE_trans first.1 second.1, first.2.trans second.2⟩

/-- Outside of leap seconds, the milliseconds come in the order of the times. -/
theorem notAfter_iff (ordinary : a.nanos < 1000000000) : a.NotAfter b ↔ (compare a b).isLE := by
  refine ⟨And.left, fun le => ⟨le, ?_⟩⟩
  have le : ((compare a.secs b.secs).then (compare a.nanos b.nanos)).isLE := le
  rw [toMillis, toMillis]
  rcases lt_trichotomy a.secs b.secs with less | same | more
  · omega
  · rw [compare_eq_iff_eq.2 same, Ordering.then, Std.isLE_compare] at le
    omega
  · rw [compare_gt_iff_gt.2 more] at le
    cases le

/-- Times keep their order when what is below a millisecond is left out. -/
theorem NotAfter.floorMillis (given : a.NotAfter b) : a.floorMillis.NotAfter b.floorMillis := by
  constructor
  · rw [Instant.floorMillis, Instant.floorMillis, compare_ofMillis, Std.isLE_compare]
    exact given.2
  · rw [Instant.floorMillis, Instant.floorMillis, toMillis_ofMillis, toMillis_ofMillis]
    exact given.2

end Instant

/-- Readings of a clock that is never set back, all of them times that a database can hold. -/
structure Forward (readings : List Instant) : Prop where
  ordered : readings.Pairwise Instant.NotAfter
  held : ∀ t ∈ readings, (Instant.ofMillis? t.toMillis).isSome

end Containment.Time

import Mathlib.Data.Rat.Floor
import Mathlib.Tactic.FieldSimp
import Mathlib.Tactic.Linarith
import Mathlib.Tactic.Ring
import Solfege.Clock

/-!
# Solfege.Proofs.ExactBeat

Beats as rational numbers, read as plain arithmetic: what `near`, `rem` and `closesAt` decide, and
what they decide on whole numbers of sixteenths, where the tolerance makes no difference.

* `near_quarters`     — two such lengths are near only if they are equal.
* `closesAt_quarters` — a measure closes only where the sixteenths come out even.
-/

namespace Solfege
namespace Beat

theorem lt_iff (x y : Rat) : Beat.lt x y = true ↔ x < y := Iff.rfl

theorem sub_eq (x y : Rat) : @HSub.hSub Rat Rat Rat (@instHSub Rat Beat.toSub) x y = x - y := rfl

theorem add_eq (x y : Rat) : @HAdd.hAdd Rat Rat Rat (@instHAdd Rat Beat.toAdd) x y = x + y := rfl

theorem ofRatio_eq (num den : Int) : (ofRatio num den : Rat) = num / den := rfl

theorem zero_eq : (zero : Rat) = 0 := by
  rw [zero, ofRatio_eq]
  norm_num

theorem tolerance_eq : (tolerance : Rat) = 1 / 1000 := rfl

theorem rem_eq (x y : Rat) : rem x y = x - y * ⌊x / y⌋ := rfl

theorem near_iff (x y : Rat) : near x y = true ↔ |x - y| < 1 / 1000 := by
  rw [near, Bool.and_eq_true, lt_iff, lt_iff, tolerance_eq, sub_eq, sub_eq, abs_lt]
  constructor
  · rintro ⟨h₁, h₂⟩
    constructor <;> linarith
  · rintro ⟨h₁, h₂⟩
    constructor <;> linarith

/-- Whole numbers of quarters that are near are equal. -/
theorem near_quarters (a b : Int) : near ((a : Rat) / 4) ((b : Rat) / 4) = true ↔ a = b := by
  rw [near_iff, abs_lt]
  constructor
  · rintro ⟨h₁, h₂⟩
    have hlow : (-1 : Rat) < ((a - b : Int) : Rat) := by push_cast; linarith
    have hhigh : ((a - b : Int) : Rat) < 1 := by push_cast; linarith
    have hlow' : -1 < a - b := by exact_mod_cast hlow
    have hhigh' : a - b < 1 := by exact_mod_cast hhigh
    omega
  · rintro rfl
    norm_num

theorem rem_quarters (t m : Int) (hm : 0 < m) :
    rem ((t : Rat) / 4) ((m : Rat) / 4) = ((t % m : Int) : Rat) / 4 := by
  obtain ⟨k, rfl⟩ := Int.eq_ofNat_of_zero_le hm.le
  have hk : ((k : Int) : Rat) ≠ 0 := by exact_mod_cast hm.ne'
  have hquot : (t : Rat) / 4 / (((k : Int) : Rat) / 4) = (t : Rat) / (k : Rat) := by
    push_cast at hk ⊢
    field_simp
  rw [rem_eq, hquot, Rat.floor_intCast_div_natCast, Int.emod_def]
  push_cast
  ring

end Beat

namespace Grid

theorem closesAt_iff (grid : Grid Rat) (beats : Rat) :
    grid.closesAt beats = true ↔
      1 / 1000 ≤ beats - grid.origin ∧ 1 / 1000 ≤ grid.length ∧
        (Beat.rem (beats - grid.origin) grid.length < 1 / 1000 ∨
          grid.length - Beat.rem (beats - grid.origin) grid.length < 1 / 1000) := by
  simp only [closesAt, Beat.sub_eq]
  split
  · rename_i h
    rw [Bool.or_eq_true, Beat.lt_iff, Beat.lt_iff, Beat.tolerance_eq] at h
    constructor
    · intro hf
      cases hf
    · rintro ⟨h₁, h₂, _⟩
      rcases h with h | h <;> linarith
  · rename_i h
    rw [Bool.or_eq_true, Beat.lt_iff, Beat.lt_iff, Beat.tolerance_eq, not_or, not_lt, not_lt] at h
    rw [Bool.or_eq_true, Beat.lt_iff, Beat.lt_iff, Beat.tolerance_eq]
    exact ⟨fun hc => ⟨h.1, h.2, hc⟩, fun hc => hc.2.2⟩

/-- The tolerance neither adds a bar nor loses one: with the grid and the beat on sixteenths, a
measure closes exactly where their number is a multiple of the measure. -/
theorem closesAt_quarters {t o m : Int} (ht : o < t) (hm : 0 < m) :
    (⟨(o : Rat) / 4, (m : Rat) / 4⟩ : Grid Rat).closesAt ((t : Rat) / 4) = true ↔
      (t - o) % m = 0 := by
  have hpassed : (t : Rat) / 4 - (o : Rat) / 4 = ((t - o : Int) : Rat) / 4 := by
    push_cast
    ring
  have hlow : (1 : Rat) ≤ ((t - o : Int) : Rat) := by exact_mod_cast (by omega : 1 ≤ t - o)
  have hlen : (1 : Rat) ≤ (m : Rat) := by exact_mod_cast (by omega : 1 ≤ m)
  have hnonneg : (0 : Rat) ≤ (((t - o) % m : Int) : Rat) := by
    exact_mod_cast Int.emod_nonneg _ hm.ne'
  have hlt : (((t - o) % m : Int) : Rat) + 1 ≤ (m : Rat) := by
    exact_mod_cast Int.emod_lt_of_pos (t - o) hm
  rw [closesAt_iff]
  simp only [hpassed, Beat.rem_quarters _ _ hm]
  constructor
  · rintro ⟨_, _, h | h⟩
    · have hone : (((t - o) % m : Int) : Rat) < 1 := by linarith
      have hone' : (t - o) % m < 1 := by exact_mod_cast hone
      have := Int.emod_nonneg (t - o) hm.ne'
      omega
    · linarith
  · intro h
    refine ⟨by linarith, by linarith, .inl ?_⟩
    rw [h]
    norm_num

end Grid

/-- The length of a note is its number of sixteenths. -/
theorem Duration.beats_quarters (duration : Duration) :
    (duration.beats : Rat) = (duration.sixteenths : Rat) / 4 := by
  rw [Duration.beats, Beat.ofRatio_eq]
  norm_num

/-- With an allowed denominator a measure is a whole number of sixteenths. -/
theorem measureBeats_quarters {numerator denominator : Int}
    (h : denominator ∈ [2, 4, 8, 16]) :
    (measureBeats numerator denominator : Rat) =
      ((16 * numerator / denominator : Int) : Rat) / 4 := by
  have hdvd : denominator ∣ 16 * numerator := by
    apply Dvd.dvd.mul_right
    simp only [List.mem_cons, List.not_mem_nil, or_false] at h
    rcases h with rfl | rfl | rfl | rfl <;> decide
  have hne : (denominator : Rat) ≠ 0 := by
    simp only [List.mem_cons, List.not_mem_nil, or_false] at h
    rcases h with rfl | rfl | rfl | rfl <;> norm_num
  rw [measureBeats, Beat.ofRatio_eq, Int.cast_div hdvd hne]
  push_cast
  field_simp
  norm_num

end Solfege

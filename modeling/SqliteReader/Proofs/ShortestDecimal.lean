import SqliteReader.Binary64.Shortest
import SqliteReader.Proofs.RealOrder

/-! The decimal that is shown for a real. It lies between the numbers that are rounded to that
real, seventeen digits are always enough for one that does, and no decimal with fewer places
would do. It is whole exactly if the real is. -/

namespace SqliteReader.Binary64

theorem pow_ten_add (few more : Nat) : Nat.pow 10 (few + more) = Nat.pow 10 few * Nat.pow 10 more :=
  Nat.pow_add 10 few more

theorem pow_ten_pos (count : Nat) : 0 < Nat.pow 10 count := Nat.pow_pos (by decide)

theorem pow_ten_zero : Nat.pow 10 0 = 1 := rfl

namespace Interval

variable {within : Interval} {number : Nat}

/-- The value is inside and above zero. The interval is so wide that it always has a point on
a grid of which the value is ten thousand million million steps from zero. -/
structure Sound (within : Interval) : Prop where
  measured : 0 < within.unit
  positive : 0 < within.low
  below : within.low < within.value
  above : within.value < within.high
  wide : within.value < (within.high - within.low) * 10000000000000000

theorem low_le_of_contains (inside : within.contains number = true) : within.low ≤ number * within.unit := by
  unfold contains at inside
  split at inside <;> simp only [Bool.and_eq_true, decide_eq_true_eq] at inside <;> omega

theorem le_high_of_contains (inside : within.contains number = true) : number * within.unit ≤ within.high := by
  unfold contains at inside
  split at inside <;> simp only [Bool.and_eq_true, decide_eq_true_eq] at inside <;> omega

theorem Sound.pos_of_contains (sound : within.Sound) (inside : within.contains number = true) : 0 < number :=
  Nat.pos_of_mul_pos_right (Nat.lt_of_lt_of_le sound.positive (low_le_of_contains inside))

theorem contains_of_between (above : within.low < number * within.unit) (below : number * within.unit < within.high) :
    within.contains number = true := by
  unfold contains
  split <;> simp only [Bool.and_eq_true, decide_eq_true_eq] <;> omega

theorem Sound.contains_between {other : Nat} (sound : within.Sound) (inside : within.contains number = true)
    (between : number * within.unit ≤ other * within.unit ∧ other * within.unit ≤ within.value ∨
      within.value ≤ other * within.unit ∧ other * within.unit ≤ number * within.unit) :
    within.contains other = true := by
  have below := sound.below
  have above := sound.above
  unfold contains at inside ⊢
  split at inside
  next closed =>
    rw [if_pos closed]
    simp only [Bool.and_eq_true, decide_eq_true_eq] at inside ⊢
    omega
  next inner =>
    rw [if_neg inner]
    simp only [Bool.and_eq_true, decide_eq_true_eq] at inside ⊢
    omega

theorem contains_of_nearest {digits : Nat} (found : within.nearest? = some digits) : within.contains digits = true := by
  unfold nearest? at found
  dsimp only at found
  split at found
  next above =>
    cases found
    exact (Bool.and_eq_true_iff.mp above).1
  next =>
    split at found
    next below =>
      cases found
      exact below
    next => cases found

theorem Sound.exists_nearest (sound : within.Sound) (inside : within.contains number = true) :
    ∃ digits, within.nearest? = some digits := by
  have quotient := Nat.div_add_mod within.value within.unit
  have remainder := Nat.mod_lt within.value sound.measured
  have neighbour : within.contains (within.value / within.unit) = true ∨
      within.contains (within.value / within.unit + 1) = true := by
    rcases Nat.lt_or_ge (within.value / within.unit) number with beyond | before
    · right
      have steps := Nat.mul_le_mul_right within.unit (Nat.succ_le_of_lt beyond)
      refine sound.contains_between inside (.inr ⟨?_, steps⟩)
      rw [Nat.add_mul, Nat.mul_comm (within.value / within.unit)]
      omega
    · left
      have steps := Nat.mul_le_mul_right within.unit before
      refine sound.contains_between inside (.inl ⟨steps, ?_⟩)
      rw [Nat.mul_comm (within.value / within.unit)]
      omega
  unfold nearest?
  dsimp only
  split
  · exact ⟨_, rfl⟩
  next apart =>
    rcases neighbour with below | above
    · exact ⟨_, if_pos below⟩
    · rw [above, Bool.true_and, Bool.or_eq_true, not_or, Bool.not_eq_true', Bool.not_eq_false] at apart
      exact ⟨_, if_pos apart.2⟩

theorem Sound.exists_contains (sound : within.Sound) (fine : within.low + within.unit < within.high) :
    ∃ number, within.contains number = true := by
  have quotient := Nat.div_add_mod within.value within.unit
  have remainder := Nat.mod_lt within.value sound.measured
  have below := sound.below
  rw [Nat.mul_comm] at quotient
  by_cases near : within.low < within.value / within.unit * within.unit
  · exact ⟨_, contains_of_between near (Nat.lt_of_le_of_lt (by omega) sound.above)⟩
  · refine ⟨within.value / within.unit + 1, contains_of_between ?_ ?_⟩ <;> rw [Nat.add_mul] <;> omega

theorem Sound.countedIn (sound : within.Sound) (exponent : Int) : (within.countedIn exponent).Sound where
  measured := Nat.mul_pos sound.measured (pow_ten_pos _)
  positive := Nat.mul_pos sound.positive (pow_ten_pos _)
  below := Nat.mul_lt_mul_of_pos_right sound.below (pow_ten_pos _)
  above := Nat.mul_lt_mul_of_pos_right sound.above (pow_ten_pos _)
  wide := by
    have grown := Nat.mul_lt_mul_of_pos_right sound.wide (pow_ten_pos (-exponent).toNat)
    simpa only [Interval.countedIn, ← Nat.sub_mul, Nat.mul_right_comm] using grown

theorem contains_countedIn {exponent : Int} (large : 0 ≤ exponent) :
    (within.countedIn exponent).contains number = within.contains (number * Nat.pow 10 exponent.toNat) := by
  have none : (-exponent).toNat = 0 := by omega
  have same : number * (within.unit * Nat.pow 10 exponent.toNat) = number * Nat.pow 10 exponent.toNat * within.unit := by
    rw [Nat.mul_comm within.unit, Nat.mul_assoc]
  simp only [contains, countedIn, none, pow_ten_zero, Nat.mul_one, same]

theorem contains_countedIn_mul {exponent : Int} (small : exponent ≤ 0) :
    (within.countedIn exponent).contains (number * Nat.pow 10 (-exponent).toNat) = within.contains number := by
  have none : exponent.toNat = 0 := by omega
  have same : number * Nat.pow 10 (-exponent).toNat * within.unit =
      number * within.unit * Nat.pow 10 (-exponent).toNat := Nat.mul_right_comm _ _ _
  have positive := pow_ten_pos (-exponent).toNat
  simp only [contains, countedIn, none, pow_ten_zero, Nat.mul_one, same, Nat.mul_le_mul_right_iff positive,
    Nat.mul_lt_mul_right positive]

/-- Where the first digit stands the value is at least one step from zero. -/
theorem Sound.unit_le_leading (sound : within.Sound) :
    within.unit * Nat.pow 10 within.leading.toNat ≤ within.value * Nat.pow 10 (-within.leading).toNat := by
  have measured := sound.measured
  have present : 0 < within.value := Nat.lt_trans sound.positive sound.below
  unfold leading
  split
  next whole =>
    have digits : 0 < (Nat.toDigits 10 (within.value / within.unit)).length := Nat.length_toDigits_pos
    have reached : Nat.pow 10 ((Nat.toDigits 10 (within.value / within.unit)).length - 1) ≤
        within.value / within.unit := by
      apply Nat.le_of_not_lt
      intro short
      by_cases one : (Nat.toDigits 10 (within.value / within.unit)).length = 1
      · rw [one] at short
        exact absurd (Nat.div_pos whole measured) (Nat.not_lt.mpr (Nat.le_of_lt_succ short))
      · have fewer := (Nat.length_toDigits_le_iff (by decide) (by omega)).mpr short
        omega
    have up : ((Nat.toDigits 10 (within.value / within.unit)).length - 1 : Int).toNat =
        (Nat.toDigits 10 (within.value / within.unit)).length - 1 := by omega
    have down : (-((Nat.toDigits 10 (within.value / within.unit)).length - 1 : Int)).toNat = 0 := by omega
    rw [up, down, pow_ten_zero, Nat.mul_one, Nat.mul_comm]
    exact Nat.mul_le_of_le_div _ _ _ reached
  next fraction =>
    have reached : (within.unit - 1) / within.value <
        Nat.pow 10 (Nat.toDigits 10 ((within.unit - 1) / within.value)).length :=
      (Nat.length_toDigits_le_iff (by decide) Nat.length_toDigits_pos).mp (Nat.le_refl _)
    have up : (-((Nat.toDigits 10 ((within.unit - 1) / within.value)).length : Int)).toNat = 0 := by omega
    rw [up, Int.neg_neg, Int.toNat_natCast, pow_ten_zero, Nat.mul_one, Nat.mul_comm within.value]
    have steps := (Nat.div_lt_iff_lt_mul present).mp reached
    omega

theorem leading_nonneg (reached : within.unit ≤ within.value) : 0 ≤ within.leading := by
  have digits : 0 < (Nat.toDigits 10 (within.value / within.unit)).length := Nat.length_toDigits_pos
  rw [leading, if_pos reached]
  omega

theorem unit_le_finer {exponent : Int} (reached : within.unit * Nat.pow 10 exponent.toNat ≤
      within.value * Nat.pow 10 (-exponent).toNat) (places : Nat) :
    (within.countedIn (exponent - places)).unit * Nat.pow 10 places ≤ (within.countedIn (exponent - places)).value := by
  have powers : Nat.pow 10 (exponent - places).toNat * Nat.pow 10 places * Nat.pow 10 (-exponent).toNat =
      Nat.pow 10 exponent.toNat * Nat.pow 10 (-(exponent - places)).toNat := by
    simp only [← pow_ten_add]
    congr 1
    omega
  apply Nat.le_of_mul_le_mul_right _ (pow_ten_pos (-exponent).toNat)
  calc within.unit * Nat.pow 10 (exponent - places).toNat * Nat.pow 10 places * Nat.pow 10 (-exponent).toNat
      = within.unit * Nat.pow 10 exponent.toNat * Nat.pow 10 (-(exponent - places)).toNat := by
        rw [Nat.mul_assoc within.unit, Nat.mul_assoc within.unit, powers, Nat.mul_assoc]
    _ ≤ within.value * Nat.pow 10 (-exponent).toNat * Nat.pow 10 (-(exponent - places)).toNat :=
        Nat.mul_le_mul_right _ reached
    _ = within.value * Nat.pow 10 (-(exponent - places)).toNat * Nat.pow 10 (-exponent).toNat :=
        Nat.mul_right_comm _ _ _

/-- Seventeen digits are always enough. -/
theorem Sound.exists_of_seventeen (sound : within.Sound) :
    ∃ number, (within.countedIn (within.leading - (16 : Nat))).contains number = true := by
  have counted := sound.countedIn (within.leading - (16 : Nat))
  apply counted.exists_contains
  have steps := unit_le_finer sound.unit_le_leading 16
  have wide := counted.wide
  have sixteen : Nat.pow 10 16 = 10000000000000000 := rfl
  rw [sixteen] at steps
  omega

end Interval

variable {x : Binary64}

theorem significand_cases (x : Binary64) :
    x.exponent = 0 ∧ x.significand = x.fraction ∨ x.exponent ≠ 0 ∧ x.significand = impliedBit + x.fraction := by
  unfold significand
  split
  next none => exact .inl ⟨none, rfl⟩
  next some => exact .inr ⟨some, rfl⟩

theorem fraction_lt (x : Binary64) : x.fraction < impliedBit := Nat.mod_lt _ (by decide)

theorem significand_lt (x : Binary64) : x.significand < 2 * impliedBit := by
  have small := x.fraction_lt
  rcases x.significand_cases with ⟨_, same⟩ | ⟨_, same⟩ <;> omega

/-- Half a step down, or half of that below a power of two. -/
theorem interval_low (x : Binary64) : ∃ below, x.interval.low = (4 * x.significand - below) * (1 <<< (x.scale - 2).toNat) ∧
    (below = 1 ∧ x.fraction = 0 ∧ 1 < x.exponent ∨ below = 2 ∧ ¬ (x.fraction = 0 ∧ 1 < x.exponent)) := by
  refine ⟨_, rfl, ?_⟩
  split
  next power => exact .inl ⟨rfl, power⟩
  next other => exact .inr ⟨rfl, other⟩

theorem interval_sound (nonzero : x.significand ≠ 0) : x.interval.Sound := by
  obtain ⟨below, low, step⟩ := x.interval_low
  have grown := one_shiftLeft_pos (x.scale - 2).toNat
  have room := x.significand_lt
  have value : x.interval.value = 4 * x.significand * (1 <<< (x.scale - 2).toNat) := rfl
  have high : x.interval.high = (4 * x.significand + 2) * (1 <<< (x.scale - 2).toNat) := rfl
  refine ⟨one_shiftLeft_pos _, ?_, ?_, ?_, ?_⟩
  · rw [low]
    exact Nat.mul_pos (by omega) grown
  · rw [low, value]
    exact Nat.mul_lt_mul_of_pos_right (by omega) grown
  · rw [value, high]
    exact Nat.mul_lt_mul_of_pos_right (by omega) grown
  · rw [low, value, high, ← Nat.sub_mul, Nat.mul_right_comm _ _ 10000000000000000]
    apply Nat.mul_lt_mul_of_pos_right _ grown
    -- below a power of two the interval is shorter by a quarter, but the significand is the least
    rcases step with ⟨rfl, none, some⟩ | ⟨rfl, _⟩
    · have power : x.significand = impliedBit := by
        rcases x.significand_cases with ⟨zero, _⟩ | ⟨_, same⟩ <;> omega
      rw [power]
      decide
    · unfold impliedBit at room
      omega

/-- A search that goes through numbers upwards finds something at one of them and nothing before. -/
theorem first_in_range {α : Type} {search : Nat → Option α} {count : Nat} {result : α}
    (found : (List.range count).findSome? search = some result) :
    ∃ place, search place = some result ∧ ∀ earlier < place, search earlier = none := by
  obtain ⟨before, place, after, all, here, none⟩ := List.findSome?_eq_some_iff.mp found
  refine ⟨place, here, ?_⟩
  intro earlier less
  have ordered : (before ++ place :: after).Pairwise (· < ·) := all ▸ List.pairwise_lt_range
  have listed : earlier ∈ before ++ place :: after := by
    have inside : place ∈ List.range count := by simp [all]
    rw [← all, List.mem_range]
    exact Nat.lt_trans less (List.mem_range.mp inside)
  rcases List.mem_append.mp listed with sooner | later
  · exact none earlier sooner
  · have beyond := (List.pairwise_cons.mp (List.pairwise_append.mp ordered).2.1).1
    rcases List.mem_cons.mp later with rfl | later
    · exact absurd less (Nat.lt_irrefl _)
    · exact absurd (beyond _ later) (Nat.lt_asymm less)

/-- What is shown lies inside, and no coarser grid from the first digit on has a point there. -/
theorem shortest_spec (nonzero : x.significand ≠ 0) :
    (x.interval.countedIn x.shortest.exponent).contains x.shortest.digits = true ∧
      ∀ exponent : Int, x.shortest.exponent < exponent → exponent ≤ x.interval.leading →
        ∀ number, ¬ (x.interval.countedIn exponent).contains number = true := by
  have sound := interval_sound nonzero
  have found : ∃ decimal, (List.range 17).findSome? (fun (place : Nat) =>
      (x.interval.countedIn (x.interval.leading - place)).nearest?.map fun digits =>
        (⟨digits, x.interval.leading - place⟩ : Decimal)) = some decimal := by
    obtain ⟨number, inside⟩ := sound.exists_of_seventeen
    obtain ⟨digits, nearest⟩ := (sound.countedIn _).exists_nearest inside
    refine Option.isSome_iff_exists.mp (List.findSome?_isSome_iff.mpr ⟨16, by decide, ?_⟩)
    rw [nearest]
    rfl
  obtain ⟨decimal, found⟩ := found
  have shown : x.shortest = decimal := by
    simp only [shortest, found, Option.getD_some]
  obtain ⟨place, here, none⟩ := first_in_range found
  obtain ⟨digits, nearest, rfl⟩ := Option.map_eq_some_iff.mp here
  rw [shown]
  refine ⟨Interval.contains_of_nearest nearest, ?_⟩
  intro exponent coarse within number inside
  obtain ⟨other, near⟩ := (sound.countedIn exponent).exists_nearest inside
  have position : x.interval.leading - ((x.interval.leading - exponent).toNat : Int) = exponent := by omega
  have missed := none (x.interval.leading - exponent).toNat (by simp only at coarse; omega)
  rw [position, near] at missed
  cases missed

section whole

variable {number : Nat}

theorem wholePart_of_large (large : 0 ≤ x.scale) : x.wholePart = x.significand * (1 <<< x.scale.toNat) := by
  rw [wholePart, if_pos large, shiftLeft_eq_mul]

theorem wholePart_of_small (small : x.scale ≤ 0) (exact : number * (1 <<< (-x.scale).toNat) = x.significand) :
    x.wholePart = number := by
  rcases Int.lt_or_eq_of_le small with less | none
  · rw [wholePart, if_neg (Int.not_le.mpr less), Nat.shiftRight_eq_div_pow, ← Nat.one_shiftLeft, ← exact]
    exact Nat.mul_div_cancel _ (one_shiftLeft_pos _)
  · rw [wholePart_of_large (Int.le_of_eq none.symm), ← exact, none]
    exact (Nat.mul_one _).trans (Nat.mul_one _)

theorem isWhole_of_large (finite : x.isFinite = true) (large : 0 ≤ x.scale) : x.isWhole = true := by
  simp [isWhole, finite, large]

/-- A real with places behind the point is whole if its significand ends with as many zeros. -/
theorem isWhole_iff_of_small (finite : x.isFinite = true) (small : x.scale ≤ 0) :
    x.isWhole = true ↔ ∃ number, number * (1 <<< (-x.scale).toNat) = x.significand := by
  rcases Int.lt_or_eq_of_le small with less | none
  · have quotient := Nat.div_add_mod x.significand (1 <<< (-x.scale).toNat)
    simp only [isWhole, finite, Int.not_le.mpr less, decide_false, Bool.true_and, Bool.false_or, beq_iff_eq]
    constructor
    · intro exact
      exact ⟨x.significand / (1 <<< (-x.scale).toNat), by rw [Nat.mul_comm]; omega⟩
    · rintro ⟨number, exact⟩
      rw [← exact, Nat.mul_mod_left]
  · have large : 0 ≤ x.scale := Int.le_of_eq none.symm
    simp [isWhole_of_large finite large, none]

/-- Up to 53 bits an interval is counted in quarters of the last bit. -/
theorem interval_of_small (small : x.scale ≤ 0) :
    x.interval.unit = 4 * (1 <<< (-x.scale).toNat) ∧ x.interval.value = 4 * x.significand ∧
      4 * x.significand - 2 ≤ x.interval.low ∧ x.interval.high = 4 * x.significand + 2 := by
  obtain ⟨below, low, step⟩ := x.interval_low
  have none : (x.scale - 2).toNat = 0 := by omega
  have more : (2 - x.scale).toNat = 2 + (-x.scale).toNat := by omega
  refine ⟨?_, ?_, ?_, ?_⟩
  · show 1 <<< (2 - x.scale).toNat = _
    rw [more, one_shiftLeft_add]
    rfl
  · show 4 * x.significand * (1 <<< (x.scale - 2).toNat) = _
    rw [none]
    exact Nat.mul_one _
  · rw [low, none, Nat.shiftLeft_zero, Nat.mul_one]
    omega
  · show (4 * x.significand + 2) * (1 <<< (x.scale - 2).toNat) = _
    rw [none]
    exact Nat.mul_one _

/-- From 53 bits on the step to the next real is a whole number. -/
theorem interval_of_large (large : 0 ≤ x.scale) :
    4 * (1 <<< (x.scale - 2).toNat) = (1 <<< x.scale.toNat) * x.interval.unit := by
  show 4 * (1 <<< (x.scale - 2).toNat) = (1 <<< x.scale.toNat) * (1 <<< (2 - x.scale).toNat)
  rw [← one_shiftLeft_add, show 4 = 1 <<< 2 from rfl, ← one_shiftLeft_add]
  congr 1
  omega

theorem interval_value (whole : x.isWhole = true) : x.interval.value = x.wholePart * x.interval.unit := by
  have finite : x.isFinite = true := (Bool.and_eq_true_iff.mp whole).1
  rcases Int.le_total 0 x.scale with large | small
  · rw [wholePart_of_large large, Nat.mul_assoc, ← interval_of_large large, ← Nat.mul_assoc, Nat.mul_comm x.significand]
    rfl
  · obtain ⟨number, exact⟩ := (isWhole_iff_of_small finite small).mp whole
    obtain ⟨unit, value, _⟩ := interval_of_small small
    rw [unit, value, wholePart_of_small small exact, ← exact, Nat.mul_left_comm]

theorem contains_wholePart (whole : x.isWhole = true) (nonzero : x.significand ≠ 0) :
    x.interval.contains x.wholePart = true := by
  have sound := interval_sound nonzero
  have value := interval_value whole
  exact Interval.contains_of_between (value ▸ sound.below) (value ▸ sound.above)

/-- Where reals are no further apart than integers, an integer inside is the real itself. -/
theorem significand_of_contains (small : x.scale ≤ 0) (inside : x.interval.contains number = true) :
    number * (1 <<< (-x.scale).toNat) = x.significand := by
  obtain ⟨unit, _, low, high⟩ := interval_of_small small
  have above := Interval.low_le_of_contains inside
  have below := Interval.le_high_of_contains inside
  rw [unit, Nat.mul_left_comm] at above below
  omega

theorem isWhole_of_contains (finite : x.isFinite = true) (inside : x.interval.contains number = true) :
    x.isWhole = true := by
  rcases Int.le_total 0 x.scale with large | small
  · exact isWhole_of_large finite large
  · exact (isWhole_iff_of_small finite small).mpr ⟨number, significand_of_contains small inside⟩

end whole

/-- A whole real is shown without a fraction, by a whole number inside its interval. -/
theorem shortest_of_whole (whole : x.isWhole = true) (nonzero : x.significand ≠ 0) :
    0 ≤ x.shortest.exponent ∧
      x.interval.contains (x.shortest.digits * Nat.pow 10 x.shortest.exponent.toNat) = true := by
  obtain ⟨inside, coarsest⟩ := shortest_spec nonzero
  have sound := interval_sound nonzero
  have reached : x.interval.unit ≤ x.interval.value := by
    rw [interval_value whole]
    exact Nat.le_mul_of_pos_left _ (sound.pos_of_contains (contains_wholePart whole nonzero))
  have large : 0 ≤ x.shortest.exponent := by
    apply Int.not_lt.mp
    intro fine
    have self := contains_wholePart whole nonzero
    rw [← Interval.contains_countedIn_mul (Int.le_refl 0)] at self
    exact coarsest 0 fine (Interval.leading_nonneg reached) _ self
  rw [Interval.contains_countedIn large] at inside
  exact ⟨large, inside⟩

/-- What is shown for any other real has a digit behind the point. -/
theorem shortest_of_fraction (finite : x.isFinite = true) (fraction : ¬ x.isWhole = true)
    (nonzero : x.significand ≠ 0) :
    x.shortest.exponent < 0 ∧ x.shortest.digits % Nat.pow 10 (-x.shortest.exponent).toNat ≠ 0 := by
  obtain ⟨inside, _⟩ := shortest_spec nonzero
  have small : x.shortest.exponent < 0 := by
    apply Int.not_le.mp
    intro large
    rw [Interval.contains_countedIn large] at inside
    exact fraction (isWhole_of_contains finite inside)
  refine ⟨small, ?_⟩
  intro none
  obtain ⟨number, multiple⟩ := Nat.dvd_of_mod_eq_zero none
  rw [multiple, Nat.mul_comm, Interval.contains_countedIn_mul (Int.le_of_lt small)] at inside
  exact fraction (isWhole_of_contains finite inside)

end SqliteReader.Binary64

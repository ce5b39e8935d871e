import SqliteReader.Proofs.RealOrder
import SqliteReader.Value

/-! The order of values. It puts any two values in one of three relations, the same from
either side. It is no order of all values: two integers that are told apart can both be
nearest to one real, which then is equal to both. That is all that is wrong with it. -/

namespace SqliteReader.Value

/-- Where a number stands among the reals. -/
def standing? : Value → Option Binary64
  | .integer number => some (.ofInt64 number)
  | .real number => some number
  | _ => none

/-- Of three values the outer two are integers, the first above the last, and the real
between them is nearest to both. -/
inductive Blurred : Value → Value → Value → Prop
  | between {greater less : Int64} (apart : less.toInt < greater.toInt)
      (near : Binary64.ofInt64 less = Binary64.ofInt64 greater) :
      Blurred (.integer greater) (.real (.ofInt64 greater)) (.integer less)

variable {a b c : Value} {x y : Binary64}

theorem compare_self (a : Value) : a.compare a = .eq := by
  cases a <;> simp only [compare, Binary64.compare] <;> exact Std.ReflCmp.compare_self

theorem compare_swap (a b : Value) : b.compare a = (a.compare b).swap := by
  cases a <;> cases b <;> simp only [compare, Binary64.compare] <;> exact Std.OrientedCmp.eq_swap

theorem compare_of_rank_lt (less : a.storage.rank < b.storage.rank) : a.compare b = .lt := by
  cases a <;> cases b <;> simp only [storage, StorageClass.rank] at less <;> first | rfl | omega

theorem rank_le_of_compare (below : a.compare b ≠ .gt) : a.storage.rank ≤ b.storage.rank := by
  apply Nat.le_of_not_lt
  intro less
  have order := compare_of_rank_lt less
  rw [compare_swap, Ordering.swap_eq_lt] at order
  exact below order

theorem compare_standing (first : a.standing? = some x) (second : b.standing? = some y)
    (unlike : ¬ (a.storage = .integer ∧ b.storage = .integer)) : a.compare b = Ord.compare x.rank y.rank := by
  cases a with
  | null | text | blob => cases first
  | integer number | real number =>
    cases b with
    | null | text | blob => cases second
    | integer other | real other =>
      cases first
      cases second
      first | rfl | exact absurd ⟨rfl, rfl⟩ unlike

theorem rank_standing_le (first : a.standing? = some x) (second : b.standing? = some y) (below : a.compare b ≠ .gt) :
    x.rank ≤ y.rank := by
  by_cases alike : a.storage = .integer ∧ b.storage = .integer
  · obtain ⟨both, also⟩ := alike
    cases a <;> cases both
    cases b <;> cases also
    cases first
    cases second
    exact Binary64.rank_ofInt64_mono (Int.compare_ne_gt.mp below)
  · rw [compare_standing first second alike] at below
    exact Int.compare_ne_gt.mp below

theorem exists_standing (number : a.storage.rank = 1) : ∃ x, a.standing? = some x := by
  cases a with
  | null | text | blob => cases number
  | integer number | real number => exact ⟨_, rfl⟩

/-- Numbers are in order but for an integer and a lesser one with both of which the real
between them is equal. -/
theorem numbers_trans (first : a.storage.rank = 1) (second : b.storage.rank = 1) (third : c.storage.rank = 1)
    (below : a.compare b ≠ .gt) (above : b.compare c ≠ .gt) (sharp : ¬ Blurred a b c) : a.compare c ≠ .gt := by
  obtain ⟨x, standsA⟩ := exists_standing first
  obtain ⟨y, standsB⟩ := exists_standing second
  obtain ⟨z, standsC⟩ := exists_standing third
  have lower := rank_standing_le standsA standsB below
  have upper := rank_standing_le standsB standsC above
  by_cases outer : a.storage = .integer ∧ c.storage = .integer
  · obtain ⟨isA, isC⟩ := outer
    cases a <;> cases isA
    cases c <;> cases isC
    next greater less =>
      intro wrong
      have apart : less.toInt < greater.toInt := Int.compare_eq_gt.mp wrong
      cases b with
      | null | text | blob => cases second
      | integer between =>
        have under : greater.toInt ≤ between.toInt := Int.compare_ne_gt.mp below
        have beyond : between.toInt ≤ less.toInt := Int.compare_ne_gt.mp above
        omega
      | real between =>
        cases standsA
        cases standsB
        cases standsC
        have order := Binary64.rank_ofInt64_mono (Int.le_of_lt apart)
        have nearA : Binary64.ofInt64 greater = y := Binary64.rank_inj (by omega)
        have nearC : Binary64.ofInt64 less = y := Binary64.rank_inj (by omega)
        subst nearA
        exact sharp (.between apart nearC)
  · rw [compare_standing standsA standsC outer]
    exact Int.compare_ne_gt.mpr (Int.le_trans lower upper)

theorem compare_trans (below : a.compare b ≠ .gt) (above : b.compare c ≠ .gt) (sharp : ¬ Blurred a b c) :
    a.compare c ≠ .gt := by
  have lower := rank_le_of_compare below
  have upper := rank_le_of_compare above
  rcases Nat.eq_or_lt_of_le (Nat.le_trans lower upper) with same | less
  · have middle : a.storage.rank = b.storage.rank := Nat.le_antisymm lower (same ▸ upper)
    cases a with
    | null =>
      cases c <;> cases same
      exact Ordering.noConfusion
    | integer | real => exact numbers_trans rfl middle.symm same.symm below above sharp
    | text words =>
      cases b <;> cases middle
      cases c <;> cases same
      rw [ne_eq, Ordering.ne_gt_iff_isLE] at below above ⊢
      exact Std.TransOrd.isLE_trans below above
    | blob bytes =>
      cases b <;> cases middle
      cases c <;> cases same
      rw [ne_eq, Ordering.ne_gt_iff_isLE] at below above ⊢
      exact Std.TransOrd.isLE_trans below above
  · rw [compare_of_rank_lt less]
    exact Ordering.noConfusion

theorem Blurred.compare (blurred : Blurred a b c) : a.compare b = .eq ∧ b.compare c = .eq ∧ a.compare c = .gt := by
  obtain ⟨apart, near⟩ := blurred
  refine ⟨?_, ?_, Int.compare_eq_gt.mpr apart⟩ <;> simp only [Value.compare, Binary64.compare]
  · exact Std.ReflCmp.compare_self
  · rw [near]
    exact Std.ReflCmp.compare_self

theorem Blurred.beyond {greater less : Int64} (blurred : Blurred (.integer greater) b (.integer less)) :
    0x20000000000000 ≤ less.toInt ∨ greater.toInt ≤ -0x20000000000000 := by
  cases blurred with
  | between apart near => exact Binary64.beyond_of_ofInt64_eq apart near

/-- Values are compared alike from either side, and each is equal to itself. Three of them are
in order unless two integers of more than 53 bits are both nearest to the real between them. -/
theorem compare_orders (a b c : Value) :
    a.compare a = .eq ∧ b.compare a = (a.compare b).swap ∧
    ((a.compare b ≠ .gt → b.compare c ≠ .gt → a.compare c ≠ .gt) ↔ ¬ Blurred a b c) ∧
    ∀ greater less, a = .integer greater → c = .integer less → Blurred a b c →
      0x20000000000000 ≤ less.toInt ∨ greater.toInt ≤ -0x20000000000000 := by
  refine ⟨compare_self a, compare_swap a b, ⟨?_, ?_⟩, ?_⟩
  · intro trans blurred
    obtain ⟨lower, upper, wrong⟩ := blurred.compare
    exact trans (by simp [lower]) (by simp [upper]) wrong
  · intro sharp below above
    exact compare_trans below above sharp
  · rintro greater less rfl rfl blurred
    exact blurred.beyond

/-- A real that is nearest to the integer above it does no harm between that integer and one
below. -/
theorem compare_orders_apart :
    (Value.integer 0x1fffffffffffff).compare (.real ⟨0x4340000000000000⟩) ≠ .gt ∧
      (Value.real ⟨0x4340000000000000⟩).compare (.integer 0x20000000000001) ≠ .gt ∧
      (Value.integer 0x1fffffffffffff).compare (.integer 0x20000000000001) ≠ .gt := by
  have below : (Value.integer 0x1fffffffffffff).compare (.real ⟨0x4340000000000000⟩) ≠ .gt := by decide
  have above : (Value.real ⟨0x4340000000000000⟩).compare (.integer 0x20000000000001) ≠ .gt := by decide
  refine ⟨below, above, (compare_orders _ _ _).2.2.1.mpr ?_ below above⟩
  intro blurred
  exact absurd blurred.compare.2.2 (by decide)

/-- The integers on either side of the last bit that a real has room for. -/
theorem compare_not_transitive :
    ¬ ∀ a b c : Value, a.compare b ≠ .gt → b.compare c ≠ .gt → a.compare c ≠ .gt := by
  intro trans
  exact trans (.integer 0x20000000000001) (.real ⟨0x4340000000000000⟩) (.integer 0x20000000000000)
    (by decide) (by decide) (by decide)

end SqliteReader.Value

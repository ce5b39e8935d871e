import Mathlib.Data.List.Induction
import Mathlib.Data.List.Nodup
import SqliteReader.Registers

/-! Registers after any sets and casts. A register holds what was last set there and what the
casts since then have made of it, whatever was done to others. How many there are is settled
by the largest index alone, although they are only ever doubled from as many as there were. -/

namespace SqliteReader

/-- What casts, one after the other, make of a value. One that fails leaves it alone. -/
def Value.recast (value : Value) (targets : List Affinity) : Value :=
  targets.foldl (fun current target => (current.cast? target).getD current) value

theorem Value.recast_null (targets : List Affinity) : Value.null.recast targets = .null := by
  induction targets with
  | nil => rfl
  | cons target targets ih => exact ih

namespace Registers

variable {registers : Registers} {index : Nat}

/-- Twice as many slots, again and again, until there is one for the index. -/
def doubled (slots index : Nat) : Nat :=
  if 0 < slots ∧ slots ≤ index then doubled (slots * 2) index else slots
termination_by index + 1 - slots

def growDoubling (registers : Registers) (index : Nat) : Registers :=
  if index < registers.size then registers
  else ⟨registers.slots ++ Array.replicate (doubled (max registers.size 1) index - registers.size) .null⟩

/-- There are no registers yet or as many as a power of two. -/
def Powered (registers : Registers) : Prop :=
  registers.size = 0 ∨ ∃ power, registers.size = 1 <<< power

theorem exists_covering (index : Nat) : ∃ power, covering index = 1 <<< power := by
  by_cases first : index = 0
  · exact ⟨0, by rw [covering, if_pos first]; rfl⟩
  · exact ⟨index.log2 + 1, by rw [covering, if_neg first]⟩

theorem covering_le_covering {other : Nat} (below : index < covering other) : covering index ≤ covering other := by
  obtain ⟨power, same⟩ := exists_covering other
  rw [same] at below ⊢
  exact covering_le below

theorem double_le_of_lt {power other : Nat} (below : 1 <<< power < 1 <<< other) : 1 <<< power * 2 ≤ 1 <<< other := by
  simp only [Nat.one_shiftLeft] at below ⊢
  rw [← Nat.pow_succ]
  exact Nat.pow_le_pow_right (by decide) ((Nat.pow_lt_pow_iff_right (by decide)).mp below)

/-- Doubling a power of two that is not too large ends at the least one above the index. -/
theorem doubled_eq_covering {slots power : Nat} (whole : slots = 1 <<< power) (low : slots ≤ covering index) :
    doubled slots index = covering index := by
  fun_induction doubled slots index generalizing power with
  | case1 slots inside ih =>
    have below : slots < covering index := Nat.lt_of_le_of_lt inside.2 (lt_covering index)
    obtain ⟨last, same⟩ := exists_covering index
    apply @ih (power + 1)
    · rw [whole, Nat.shiftLeft_succ, Nat.mul_comm]
    · rw [same, whole] at below ⊢
      exact double_le_of_lt below
  | case2 slots outside =>
    have positive : 0 < slots := by
      rw [whole, Nat.one_shiftLeft]
      exact Nat.two_pow_pos power
    have inside : index < slots := by omega
    exact Nat.le_antisymm low (whole ▸ covering_le (whole ▸ inside))

theorem grow_eq_growDoubling (powered : registers.Powered) : registers.grow index = registers.growDoubling index := by
  by_cases inside : index < registers.size
  · rw [grow, growDoubling, if_pos inside, if_pos inside]
  · have above := lt_covering index
    have doubles : doubled (max registers.size 1) index = covering index := by
      rcases powered with none | ⟨power, some⟩
      · rw [none]
        have whole : max 0 1 = 1 <<< 0 := rfl
        exact doubled_eq_covering whole (by omega)
      · have positive : 0 < registers.size := by
          rw [some, Nat.one_shiftLeft]
          exact Nat.two_pow_pos power
        rw [Nat.max_eq_left positive]
        exact doubled_eq_covering some (by omega)
    rw [grow, growDoubling, if_neg inside, if_neg inside, doubles]

theorem grow_of_lt (inside : index < registers.size) : registers.grow index = registers := by
  rw [grow, if_pos inside]

theorem size_set (registers : Registers) (index : Nat) (value : Value) :
    (registers.set index value).size = if index < registers.size then registers.size else covering index := by
  by_cases inside : index < registers.size
  · rw [set, grow_of_lt inside, if_pos inside, size, Array.size_setIfInBounds, ← size]
  · have above := lt_covering index
    rw [set, grow, if_neg inside, if_neg inside]
    simp only [size, Array.size_setIfInBounds, Array.size_append, Array.size_replicate] at inside ⊢
    omega

theorem lt_size_set (registers : Registers) (index : Nat) (value : Value) : index < (registers.set index value).size := by
  have above := lt_covering index
  rw [size_set]
  split <;> assumption

theorem get_of_size_le (outside : registers.size ≤ index) : registers.get index = .null := by
  rw [get, Array.getD_eq_getD_getElem?, Array.getElem?_eq_none outside]
  rfl

theorem get_eq_getElem (inside : index < registers.slots.size) : registers.get index = registers.slots[index] := by
  simp [get, Array.getD_eq_getD_getElem?, inside]

/-- Registers are what they hold and how many there are. -/
theorem ext_get {others : Registers} (sizes : registers.size = others.size)
    (contents : ∀ index, registers.get index = others.get index) : registers = others := by
  obtain ⟨slots⟩ := registers
  obtain ⟨entries⟩ := others
  congr 1
  apply Array.ext sizes
  intro index inside within
  have same := contents index
  rwa [get_eq_getElem inside, get_eq_getElem within] at same

theorem set_get (inside : index < registers.size) : registers.set index (registers.get index) = registers := by
  apply ext_get
  · rw [size_set, if_pos inside]
  · intro other
    rw [get_set]
    split
    next same => rw [same]
    next => rfl

theorem cast_eq (registers : Registers) (index : Nat) (target : Affinity) :
    registers.cast index target =
      if registers.size ≤ index then .error (.unknownRegister index)
      else match (registers.get index).cast? target with
        | none => .error (.unsupportedCast index (registers.get index).storage target.storage)
        | some cast => .ok (registers.set index cast) := by
  by_cases outside : registers.size ≤ index
  · rw [if_pos outside, cast, Array.getElem?_eq_none outside]
  · have inside : index < registers.slots.size := Nat.lt_of_not_le outside
    have placed (value : Value) :
        registers.set index value = ⟨registers.slots.setIfInBounds index value⟩ := by
      rw [set, grow_of_lt inside]
    rw [if_neg outside, cast, Array.getElem?_eq_getElem inside, get_eq_getElem inside]
    cases converted : (registers.slots[index]).cast? target with
    | none => simp only [converted]
    | some cast => simp only [converted, placed]

theorem set_of_cast {target : Affinity} {cast : Registers} (ran : registers.cast index target = .ok cast) :
    ∃ value, cast = registers.set index value := by
  rw [cast_eq] at ran
  split at ran
  · cases ran
  split at ran
  · cases ran
  next value _ =>
    cases ran
    exact ⟨value, rfl⟩

theorem set_comm (registers : Registers) {index other : Nat} (apart : index ≠ other) (value last : Value) :
    (registers.set index value).set other last = (registers.set other last).set index value := by
  apply ext_get
  · have above := lt_covering index
    have beyond := lt_covering other
    have within := @covering_le_covering index other
    have around := @covering_le_covering other index
    simp only [size_set]
    grind
  · intro place
    simp only [get_set]
    grind

inductive Change
  | set (index : Nat) (value : Value)
  | cast (index : Nat) (target : Affinity)

namespace Change

def apply (registers : Registers) : Change → Registers
  | .set index value => registers.set index value
  | .cast index target =>
    match registers.cast index target with
    | .ok after => after
    | .error _ => registers

def setIndex? : Change → Option Nat
  | .set index _ => some index
  | .cast _ _ => none

def castAt? (index : Nat) : Change → Option Affinity
  | .set _ _ => none
  | .cast other target => if other = index then some target else none

end Change

def after (changes : List Change) : Registers := changes.foldl Change.apply {}

def setIndices (changes : List Change) : List Nat := changes.filterMap Change.setIndex?

def castsAt (index : Nat) (changes : List Change) : List Affinity := changes.filterMap (Change.castAt? index)

/-- A cast that fails sets the register to what it holds. -/
theorem apply_cast (registers : Registers) (index : Nat) (target : Affinity) :
    (Change.cast index target).apply registers =
      if index < registers.size then registers.set index ((registers.get index).recast [target]) else registers := by
  simp only [Change.apply, cast_eq, Value.recast, List.foldl_cons, List.foldl_nil]
  by_cases inside : index < registers.size
  · rw [if_neg (Nat.not_le_of_lt inside), if_pos inside]
    cases converted : (registers.get index).cast? target with
    | none => exact (set_get inside).symm
    | some cast => rfl
  · rw [if_pos (Nat.le_of_not_lt inside), if_neg inside]

theorem get_apply_cast (registers : Registers) (index other : Nat) (target : Affinity) :
    ((Change.cast other target).apply registers).get index =
      if other = index then (registers.get index).recast [target] else registers.get index := by
  rw [apply_cast]
  by_cases same : other = index
  · subst same
    rw [if_pos rfl]
    split
    next inside => rw [get_set, if_pos rfl]
    next outside => rw [get_of_size_le (Nat.le_of_not_lt outside), Value.recast_null]
  · rw [if_neg same]
    split
    next inside => rw [get_set, if_neg same]
    next outside => rfl

theorem size_apply_cast (registers : Registers) (index : Nat) (target : Affinity) :
    ((Change.cast index target).apply registers).size = registers.size := by
  rw [apply_cast]
  split
  next inside => rw [size_set, if_pos inside]
  next outside => rfl

/-- While a register is not set, only casts of it count. -/
theorem get_foldl {changes : List Change} (unset : index ∉ setIndices changes) (registers : Registers) :
    (changes.foldl Change.apply registers).get index = (registers.get index).recast (castsAt index changes) := by
  induction changes generalizing registers with
  | nil => rfl
  | cons change changes ih =>
    cases change with
    | set other value =>
      simp only [setIndices, List.filterMap_cons, Change.setIndex?, List.mem_cons, not_or] at unset
      rw [List.foldl_cons, ih unset.2, Change.apply, get_set, if_neg (Ne.symm unset.1)]
      rfl
    | cast other target =>
      rw [List.foldl_cons, ih unset, get_apply_cast, castsAt, castsAt, List.filterMap_cons, Change.castAt?]
      split
      next => rfl
      next => rfl

/-- The least power of two above an index. -/
structure LeastAbove (index size : Nat) : Prop where
  whole : ∃ power, size = 1 <<< power
  above : index < size
  least : ∀ power, index < 1 <<< power → size ≤ 1 <<< power

theorem leastAbove_covering (index : Nat) : LeastAbove index (covering index) :=
  ⟨exists_covering index, lt_covering index, fun _ => covering_le⟩

/-- There are as many registers as the largest index that was set asks for. -/
theorem size_after (changes : List Change) :
    (setIndices changes = [] ∧ (after changes).size = 0) ∨
      ∃ largest ∈ setIndices changes, (∀ index ∈ setIndices changes, index ≤ largest) ∧
        (after changes).size = covering largest := by
  induction changes using List.reverseRecOn with
  | nil => exact .inl ⟨rfl, rfl⟩
  | append_singleton changes change ih =>
    have last : after (changes ++ [change]) = change.apply (after changes) := by simp [after]
    rw [last]
    cases change with
    | cast other target =>
      have same : setIndices (changes ++ [.cast other target]) = setIndices changes := by
        simp [setIndices, Change.setIndex?]
      rw [same, size_apply_cast]
      exact ih
    | set other value =>
      right
      have added : setIndices (changes ++ [.set other value]) = setIndices changes ++ [other] := by
        simp [setIndices, Change.setIndex?]
      have size : ((Change.set other value).apply (after changes)).size =
        if other < (after changes).size then (after changes).size else covering other := size_set _ _ _
      rw [added, size]
      rcases ih with ⟨none, empty⟩ | ⟨largest, member, most, sized⟩
      · rw [none, empty]
        exact ⟨other, by simp⟩
      · rw [sized]
        have above := lt_covering largest
        by_cases larger : largest ≤ other
        · refine ⟨other, List.mem_append_right _ List.mem_cons_self, ?_, ?_⟩
          · intro index within
            rcases List.mem_append.mp within with earlier | now
            · exact Nat.le_trans (most index earlier) larger
            · exact Nat.le_of_eq (List.mem_singleton.mp now)
          · split
            next inside =>
              have beyond := lt_covering other
              exact Nat.le_antisymm (covering_le_covering (by omega)) (covering_le_covering inside)
            next => rfl
        · refine ⟨largest, List.mem_append_left _ member, ?_, if_pos (by omega)⟩
          intro index within
          rcases List.mem_append.mp within with earlier | now
          · exact most index earlier
          · rw [List.mem_singleton.mp now]
            omega

theorem powered_after (changes : List Change) : (after changes).Powered := by
  rcases size_after changes with ⟨_, empty⟩ | ⟨largest, _, _, sized⟩
  · exact .inl empty
  · exact .inr (sized ▸ exists_covering largest)

theorem after_append (changes later : List Change) :
    after (changes ++ later) = later.foldl Change.apply (after changes) := List.foldl_append

/-- What changes call for. -/
structure Follows (registers : Registers) (changes : List Change) : Prop where
  unset : ∀ index, index ∉ setIndices changes → registers.get index = .null
  latest : ∀ earlier index value later, changes = earlier ++ .set index value :: later →
    index ∉ setIndices later → registers.get index = value.recast (castsAt index later)
  empty : setIndices changes = [] → registers.size = 0
  least : ∀ largest ∈ setIndices changes, (∀ index ∈ setIndices changes, index ≤ largest) →
    LeastAbove largest registers.size
  doubles : ∀ index, registers.grow index = registers.growDoubling index
  unknown : ∀ index target, registers.cast index target = .error (.unknownRegister index) ↔ registers.size ≤ index
  spares : ∀ earlier index target later reason, changes = earlier ++ .cast index target :: later →
    (after earlier).cast index target = .error reason → registers = after (earlier ++ later)

theorem cast_unknown_iff (registers : Registers) (index : Nat) (target : Affinity) :
    registers.cast index target = .error (.unknownRegister index) ↔ registers.size ≤ index := by
  rw [cast_eq]
  split
  next outside => simp [outside]
  next inside => cases (registers.get index).cast? target <;> simp [inside]

theorem after_follows (changes : List Change) : (after changes).Follows changes where
  unset index unset := by
    rw [after, get_foldl unset]
    exact Value.recast_null _
  latest earlier index value later split unset := by
    rw [split, after_append, List.foldl_cons, get_foldl unset, Change.apply, get_set, if_pos rfl]
  empty none := by
    rcases size_after changes with ⟨_, empty⟩ | ⟨largest, member, _⟩
    · exact empty
    · rw [none] at member
      cases member
  least largest member most := by
    rcases size_after changes with ⟨none, _⟩ | ⟨greatest, within, above, sized⟩
    · rw [none] at member
      cases member
    · have same : greatest = largest := Nat.le_antisymm (most greatest within) (above largest member)
      rw [sized, same]
      exact leastAbove_covering largest
  doubles _ := grow_eq_growDoubling (powered_after changes)
  unknown := cast_unknown_iff _
  spares earlier index target later reason split failed := by
    have still : (Change.cast index target).apply (after earlier) = after earlier := by rw [Change.apply, failed]
    rw [split, after_append, List.foldl_cons, still, after_append]

theorem size_after_congr {changes others : List Change}
    (same : ∀ index, index ∈ setIndices changes ↔ index ∈ setIndices others) :
    (after changes).size = (after others).size := by
  rcases size_after changes with ⟨none, empty⟩ | ⟨largest, member, most, sized⟩
  · have nothing : setIndices others = [] := by
      apply List.eq_nil_iff_forall_not_mem.mpr
      intro index member
      exact absurd ((same index).mpr member) (by simp [none])
    rw [empty, (after_follows others).empty nothing]
  · rcases size_after others with ⟨none, _⟩ | ⟨greatest, within, above, other⟩
    · rw [same, none] at member
      cases member
    · have equal : largest = greatest :=
        Nat.le_antisymm (above largest ((same largest).mp member)) (most greatest ((same greatest).mpr within))
      rw [sized, other, equal]

def Change.ofPair (pair : Nat × Value) : Change := .set pair.1 pair.2

theorem after_perm (changes : List Change) {assigned others : List (Nat × Value)} (perm : assigned.Perm others)
    (distinct : (assigned.map Prod.fst).Nodup) :
    after (changes ++ assigned.map .ofPair) = after (changes ++ others.map .ofPair) := by
  rw [after_append, after_append, List.foldl_map, List.foldl_map]
  apply perm.foldl_eq'
  intro first member second within registers
  by_cases same : first = second
  · rw [same]
  · apply set_comm
    intro shared
    exact same (List.inj_on_of_nodup_map distinct member within shared)

/-- While all indices are small no doubling leaves the range of a word. -/
theorem size_after_le (changes : List Change) {power : Nat} (small : ∀ index ∈ setIndices changes, index < 1 <<< power) :
    (after changes).size ≤ 1 <<< power := by
  rcases size_after changes with ⟨_, empty⟩ | ⟨largest, member, _, sized⟩
  · rw [empty]
    exact Nat.zero_le _
  · rw [sized]
    exact covering_le (small largest member)

/-- New registers refine a map under any sets and casts, the failing ones included. Their
number hangs on which indices were set and on nothing else, neither does the order matter in
which different registers are set, and indices that a word can double are never doubled
beyond it. -/
theorem registers_follow_changes (changes : List Change) :
    (after changes).Follows changes ∧
      (∀ others, (∀ index, index ∈ setIndices changes ↔ index ∈ setIndices others) →
        (after changes).size = (after others).size) ∧
      (∀ assigned others : List (Nat × Value), assigned.Perm others → (assigned.map Prod.fst).Nodup →
        after (changes ++ assigned.map .ofPair) = after (changes ++ others.map .ofPair)) ∧
      ((∀ index ∈ setIndices changes, index < 1 <<< 62) → (after changes).size ≤ 1 <<< 62) :=
  ⟨after_follows changes, fun _ => size_after_congr, fun _ _ => after_perm changes, size_after_le changes⟩

/-- Two registers, one cast to a blob, one to nothing that an integer becomes. -/
theorem registers_follow_changes_pair :
    let changes : List Change :=
      [.cast 9 .text, .set 2 (.text "k"), .cast 2 .blob, .set 9 (.integer 3), .cast 9 .blob]
    (after changes).get 2 = .blob [107] ∧ (after changes).get 9 = .integer 3 ∧ (after changes).get 5 = .null ∧
      LeastAbove 9 (after changes).size ∧ (after changes).size ≤ 1 <<< 62 ∧
      after changes = after [.cast 9 .text, .set 2 (.text "k"), .cast 2 .blob, .set 9 (.integer 3)] ∧
      (after changes).size = (after [.set 9 .null, .set 2 .null]).size ∧
      after (changes ++ [.set 0 .null, .set 31 .null]) = after (changes ++ [.set 31 .null, .set 0 .null]) := by
  intro changes
  obtain ⟨follows, sizes, orders, small⟩ := registers_follow_changes changes
  refine ⟨?_, ?_, ?_, ?_, ?_, ?_, ?_, ?_⟩
  · exact follows.latest [.cast 9 .text] 2 (.text "k") _ rfl (by decide)
  · exact follows.latest [.cast 9 .text, .set 2 (.text "k"), .cast 2 .blob] 9 (.integer 3) _ rfl (by decide)
  · exact follows.unset 5 (by decide)
  · exact follows.least 9 (by decide) (by decide)
  · exact small (by decide)
  · exact follows.spares [.cast 9 .text, .set 2 (.text "k"), .cast 2 .blob, .set 9 (.integer 3)] 9 .blob []
      (.unsupportedCast 9 .integer .blob) rfl (by decide)
  · exact sizes _ fun _ => (List.Perm.swap 9 2 []).mem_iff
  · exact orders [(0, .null), (31, .null)] [(31, .null), (0, .null)] (by decide) (by decide)

end Registers
end SqliteReader

import SqliteReader.Proofs.SharedFile

/-! Readers and writers keep out of each other's way. While a pager is at SHARED no other
process holds a write lock on the shared range, however the steps of the two are mixed; the
way to SHARED leads through a moment without any write lock on it and on the pending byte;
and a reader for whom there is no such moment is left as it was. -/

namespace SqliteReader.Scene

variable {scene next later : Scene}

/-- The pager has not got through to the shared range. -/
def Waits (scene : Scene) : Prop :=
  scene.pager.level = .none ∧ ∀ call, scene.underway ≠ some (call, .both) ∧ scene.underway ≠ some (call, .granted)

/-- Both the pending byte and the shared range are read-locked. -/
def Through (scene : Scene) : Prop := ∃ call, scene.underway = some (call, .both)

theorem Waits.of_idle (idle : scene.underway = none) (free : scene.pager.level = .none) : scene.Waits := by
  refine ⟨free, ?_⟩
  simp [idle]

theorem Waits.advance (waits : scene.Waits) {call : Call} {progress : Acquisition} {disk : Disk}
    (underway : scene.underway = some (call, progress)) :
    (progress.step disk).1 ≠ .granted := by
  cases progress with
  | both => exact absurd underway (waits.2 call).1
  | granted => exact absurd underway (waits.2 call).2
  | idle => rcases locked : disk.lockOwn pendingByte with ⟨_ | _, _⟩ <;> simp [Acquisition.step, locked]
  | pending => rcases locked : disk.lockOwn sharedRange with ⟨_ | _, _⟩ <;> simp [Acquisition.step, locked]
  | refused => simp [Acquisition.step]
  | busy => simp [Acquisition.step]

theorem Sound.step_waits (sound : scene.Sound) (waits : scene.Waits) (moved : Step scene next) :
    next.Waits ∨ next.Through := by
  cases moved with
  | foreign act => exact .inl waits
  | direct idle direct =>
    exact .inl (.of_idle rfl (((sound.between idle).run_effect direct).level waits.1))
  | begin idle acquires => exact .inl ⟨waits.1, fun call => by simp⟩
  | @advance call progress underway =>
    by_cases both : (progress.step scene.pager.disk).1 = .both
    · exact .inr ⟨call, by simp [both]⟩
    · refine .inl ⟨waits.1, ?_⟩
      intro other
      simp [both, waits.advance underway]
  | grant underway => exact absurd underway (waits.2 _).2
  | refuse underway => exact .inl (.of_idle rfl waits.1)

theorem Sound.steps_waits (sound : scene.Sound) (waits : scene.Waits) (moved : Steps scene later) :
    later.Waits ∨ ∃ middle, Steps scene middle ∧ Steps middle later ∧ middle.Through := by
  induction moved with
  | refl => exact .inl waits
  | @tail last next before moved ih =>
    rcases ih with waits | ⟨middle, first, rest, through⟩
    · rcases (sound.steps before).step_waits waits moved with waits | through
      · exact .inl waits
      · exact .inr ⟨next, before.tail moved, .refl, through⟩
    · exact .inr ⟨middle, first, rest.tail moved, through⟩

theorem Sound.through_unwritten (sound : scene.Sound) (through : scene.Through) {byte : Nat}
    (inside : pendingByte.contains byte = true ∨ sharedRange.contains byte = true) :
    scene.pager.disk.other.at? byte ≠ some .write := by
  obtain ⟨call, underway⟩ := through
  refine (sound.within call .both underway).2.locks.unwritten byte ?_
  simpa [Acquisition.bytes, or_comm] using inside

/-- What the calls that have ended meanwhile did to level and count: none of them nothing,
and a single one that was refused for the lock nothing either. -/
def LeftAlone (scene later : Scene) : List (Call × Except Error Answer) → Prop
  | [] => later.pager.level = scene.pager.level ∧ later.pager.held = scene.pager.held
  | [(_, outcome)] => outcome = .error (.lock .busy) →
      scene.pager.level = .none ∧ later.pager.level = .none ∧ later.pager.held = scene.pager.held
  | _ => True

theorem Sound.leaves_alone (sound : scene.Sound) (moved : Steps scene later) :
    ∃ ended, later.past = ended ++ scene.past ∧ scene.LeftAlone later ended := by
  induction moved with
  | refl => exact ⟨[], rfl, rfl, rfl⟩
  | @tail last next before moved ih =>
    obtain ⟨ended, same, alone⟩ := ih
    rcases (sound.steps before).quiet_or_ends moved with ⟨quiet, level, held⟩ | ⟨call, outcome, ends, kept⟩
    · refine ⟨ended, quiet.trans same, ?_⟩
      rcases ended with _ | ⟨_, _ | _⟩
      · exact ⟨level.trans alone.1, held.trans alone.2⟩
      · intro busy
        obtain ⟨free, left, count⟩ := alone busy
        exact ⟨free, level.trans left, held.trans count⟩
      · trivial
    · refine ⟨(call, outcome) :: ended, by rw [ends, same, List.cons_append], ?_⟩
      rcases ended with _ | _
      · intro busy
        obtain ⟨free, left, count⟩ := kept busy
        exact ⟨alone.1.symm.trans free, left, count.trans alone.2⟩
      · trivial

/-- Readers and writers exclude each other, in whatever order their steps come. -/
theorem shared_excludes_writers (reachable : scene.Reachable) :
    (scene.pager.level = .shared ∨ 0 < scene.pager.held →
      ∀ byte, sharedRange.contains byte = true → scene.pager.disk.other.at? byte ≠ some .write) ∧
    (scene.underway = none → scene.pager.level = .none → ∀ later, Steps scene later → later.pager.level = .shared →
      ∃ middle call, Steps scene middle ∧ Steps middle later ∧ middle.underway = some (call, .both) ∧
        ∀ byte, pendingByte.contains byte = true ∨ sharedRange.contains byte = true →
          middle.pager.disk.other.at? byte ≠ some .write) ∧
    (∀ later call, Steps scene later → later.underway = none →
      later.past = (call, .error (.lock .busy)) :: scene.past →
        (∀ byte, later.pager.disk.own.at? byte = none) ∧
          later.pager.level = scene.pager.level ∧ later.pager.held = scene.pager.held) := by
  have sound := reachable.sound
  refine ⟨?_, ?_, ?_⟩
  · intro reading byte inside
    have shared : scene.pager.level = .shared := reading.elim id sound.shared_of_held
    refine (sound.between_of_shared shared).locks.unwritten byte ?_
    simp [shared, inside]
  · intro idle free later moved shared
    rcases sound.steps_waits (.of_idle idle free) moved with waits | ⟨middle, first, rest, call, underway⟩
    · cases waits.1.symm.trans shared
    · refine ⟨middle, call, first, rest, underway, ?_⟩
      intro byte inside
      exact (sound.steps first).through_unwritten ⟨call, underway⟩ inside
  · intro later call moved settled refused
    obtain ⟨ended, same, alone⟩ := sound.leaves_alone moved
    obtain rfl : [(call, .error (.lock .busy))] = ended := List.append_cancel_right (refused.symm.trans same)
    obtain ⟨free, left, count⟩ := alone rfl
    refine ⟨?_, left.trans free.symm, count⟩
    intro byte
    rw [((sound.steps moved).between settled).locks.own byte]
    simp [left]

theorem shared_excludes_writers_page :
    ∃ scene : Scene, scene.Reachable ∧ 0 < scene.pager.held ∧
      ∀ byte, sharedRange.contains byte = true →
        (Foreign.act (.lock .write sharedRange) scene.pager.disk).other.at? byte ≠ some .write := by
  obtain ⟨scene, ⟨disk, fresh, moved⟩, _, held⟩ := exists_holding
  have asked := (shared_excludes_writers ⟨disk, fresh, moved.tail (.foreign (.lock .write sharedRange))⟩).1
  refine ⟨scene, ⟨disk, fresh, moved⟩, by omega, ?_⟩
  exact asked (.inr (show 0 < scene.pager.held by omega))

end SqliteReader.Scene

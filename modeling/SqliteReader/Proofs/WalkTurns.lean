import Mathlib.Logic.Relation
import SqliteReader.Tree

/-! A walk one turn at a time. A turn leaves a node without positions, passes a record, or
goes down to a child. What holds of every turn holds of all that a cursor does, and as the
way shrinks with each of them no walk goes on without end. -/

namespace SqliteReader

variable {σ : Type} [Source σ]

namespace Walk

/-- All turns up to the first record that is asked for, with the records passed on the way. -/
inductive Ends (asked : Record → Bool) : Walk σ → List Record → Option Finding → Walk σ → Prop
  | exhausted {walk : Walk σ} (turned : walk.turn = none) : Ends asked walk [] none walk
  | failed {walk last : Walk σ} {reason : Error} (turned : walk.turn = some (some (.failure reason), last)) :
      Ends asked walk [] (some (.failure reason)) last
  | found {walk last : Walk σ} {record : Record} (turned : walk.turn = some (some (.record record), last))
      (wanted : asked record = true) : Ends asked walk [] (some (.record record)) last
  | passed {walk next last : Walk σ} {record : Record} {passed : List Record} {finding : Option Finding}
      (turned : walk.turn = some (some (.record record), next)) (unwanted : asked record = false)
      (rest : Ends asked next passed finding last) : Ends asked walk (record :: passed) finding last
  | onward {walk next last : Walk σ} {passed : List Record} {finding : Option Finding}
      (turned : walk.turn = some (none, next)) (rest : Ends asked next passed finding last) :
      Ends asked walk passed finding last

def Turns (walk next : Walk σ) : Prop := ∃ finding, walk.turn = some (finding, next)

variable {root : UInt32} {walk next last : Walk σ} {finding : Option Finding} {asked : Record → Bool}
  {passed : List Record}

/-- Every walk comes to an end, and by its turns. -/
theorem run_ends (asked : Record → Bool) (walk : Walk σ) (shaped : Shaped root walk.nodes walk.frames)
    (before : Array Record) :
    ∃ passed, Ends asked walk passed (walk.run asked shaped before).finding (walk.run asked shaped before).walk ∧
      (walk.run asked shaped before).passed = before ++ passed.toArray := by
  fun_induction run asked walk shaped before with
  | case1 walk shaped before ran => exact ⟨[], .exhausted ran, by simp⟩
  | case2 walk shaped before next ran ih =>
    obtain ⟨passed, ends, same⟩ := ih
    exact ⟨passed, .onward ran ends, same⟩
  | case3 walk shaped before reason next ran => exact ⟨[], .failed ran, by simp⟩
  | case4 walk shaped before record next ran wanted => exact ⟨[], .found ran wanted, by simp⟩
  | case5 walk shaped before record next ran unwanted ih =>
    obtain ⟨passed, ends, same⟩ := ih
    exact ⟨record :: passed, .passed ran (Bool.eq_false_iff.mpr unwanted) ends, by simp [same]⟩

theorem Ends.turns (ends : Ends asked walk passed finding last) :
    Relation.ReflTransGen Turns walk last := by
  induction ends with
  | exhausted => exact .refl
  | failed ran | found ran => exact .single ⟨_, ran⟩
  | passed ran _ _ ih => exact .head ⟨_, ran⟩ ih
  | onward ran _ ih => exact .head ⟨_, ran⟩ ih

/-- A walk that ends with a finding has taken a turn at least. -/
theorem Ends.turned {found : Finding} (ends : Ends asked walk passed (some found) last) :
    Relation.TransGen Turns walk last := by
  generalize stopped : some found = finding at ends
  induction ends with
  | exhausted => cases stopped
  | failed ran | found ran => exact .single ⟨_, ran⟩
  | passed ran _ _ ih => exact .head ⟨_, ran⟩ (ih stopped)
  | onward ran _ ih => exact .head ⟨_, ran⟩ (ih stopped)

theorem shaped_of_turns (turns : Relation.ReflTransGen Turns walk last) (shaped : Shaped root walk.nodes walk.frames) :
    Shaped root last.nodes last.frames := by
  induction turns with
  | refl => exact shaped
  | tail _ turn ih =>
    obtain ⟨_, ran⟩ := turn
    exact (Walk.turned ran).shaped ih

theorem shrinks_of_turns (turns : Relation.TransGen Turns walk last) (shaped : Shaped root walk.nodes walk.frames) :
    Relation.TransGen Shrinks last.frames walk.frames := by
  induction turns with
  | single turn =>
    obtain ⟨_, ran⟩ := turn
    exact .single ((Walk.turned ran).shrinks shaped)
  | tail before turn ih =>
    obtain ⟨_, ran⟩ := turn
    exact .head ((Walk.turned ran).shrinks (shaped_of_turns before.to_reflTransGen shaped)) ih

theorem Ends.unique {others : List Record} {result : Option Finding} {other : Walk σ}
    (first : Ends asked walk passed finding last) (second : Ends asked walk others result other) :
    passed = others ∧ finding = result ∧ last = other := by
  induction first generalizing others with
  | exhausted ran =>
    cases second with
    | exhausted => exact ⟨rfl, rfl, rfl⟩
    | failed again | found again _ | passed again _ _ | onward again _ => cases ran.symm.trans again
  | failed ran =>
    cases second with
    | failed again => cases ran.symm.trans again; exact ⟨rfl, rfl, rfl⟩
    | exhausted again | found again _ | passed again _ _ | onward again _ => cases ran.symm.trans again
  | found ran wanted =>
    cases second with
    | found again _ => cases ran.symm.trans again; exact ⟨rfl, rfl, rfl⟩
    | passed again unwanted _ => cases ran.symm.trans again; cases wanted.symm.trans unwanted
    | exhausted again | failed again | onward again _ => cases ran.symm.trans again
  | passed ran unwanted rest ih =>
    cases second with
    | passed again _ onward =>
      cases ran.symm.trans again
      obtain ⟨rfl, same⟩ := ih onward
      exact ⟨rfl, same⟩
    | found again wanted => cases ran.symm.trans again; cases wanted.symm.trans unwanted
    | exhausted again | failed again | onward again _ => cases ran.symm.trans again
  | onward ran rest ih =>
    cases second with
    | onward again onward => cases ran.symm.trans again; exact ih onward
    | exhausted again | failed again | found again _ | passed again _ _ => cases ran.symm.trans again

theorem Ends.frames_exhausted (ends : Ends asked walk passed none last) : last.frames = [] := by
  generalize stopped : (none : Option Finding) = finding at ends
  induction ends with
  | exhausted ran => exact frames_of_exhausted ran
  | failed | found => cases stopped
  | passed _ _ _ ih => exact ih stopped
  | onward _ _ ih => exact ih stopped

theorem Ends.on_record {record : Record} (ends : Ends asked walk passed (some (.record record)) last) :
    recordOf? last.frames = some record ∧ asked record = true := by
  generalize stopped : some (Finding.record record) = finding at ends
  induction ends with
  | exhausted | failed => cases stopped
  | found ran wanted =>
    cases stopped
    cases Walk.turned ran with
    | record here left => exact ⟨rfl, wanted⟩
  | passed _ _ _ ih => exact ih stopped
  | onward _ _ ih => exact ih stopped

end Walk
end SqliteReader

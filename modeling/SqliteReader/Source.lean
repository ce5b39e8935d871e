import SqliteReader.Header
import SqliteReader.Node

/-! Where headers and nodes come from. Cursors, machines and the schema ask a source for
them and use nothing else of a file, so that the answers settle everything they do. What a
node says of the file may be anything; its number and its parent are those asked for, and
it knows of no other node yet. -/

namespace SqliteReader

/-- A computation that uses a source and may fail. The source outlives the failure. -/
def Using (σ α : Type) : Type := σ → Except Error α × σ

namespace Using

variable {σ α β : Type}

instance : Monad (Using σ) where
  pure result := fun source => (.ok result, source)
  bind first next := fun source =>
    match first source with
    | (.ok result, source) => next result source
    | (.error reason, source) => (.error reason, source)

instance : MonadExceptOf Error (Using σ) where
  throw reason := fun source => (.error reason, source)
  tryCatch first handle := fun source =>
    match first source with
    | (.ok result, source) => (.ok result, source)
    | (.error reason, source) => handle reason source

instance : MonadLift (Except MachineError) (Using σ) where
  monadLift outcome := fun source => (outcome.mapError .machine, source)

@[simp] theorem pure_apply (result : α) (source : σ) : (pure result : Using σ α) source = (.ok result, source) := rfl

@[simp] theorem throw_apply (reason : Error) (source : σ) :
    (throw reason : Using σ α) source = (.error reason, source) := rfl

@[simp] theorem lift_apply (outcome : Except MachineError α) (source : σ) :
    (liftM outcome : Using σ α) source = (outcome.mapError .machine, source) := rfl

theorem bind_apply (first : Using σ α) (next : α → Using σ β) (source : σ) :
    (first >>= next) source = match first source with
      | (.ok result, source) => next result source
      | (.error reason, source) => (.error reason, source) := rfl

@[simp] theorem ok_bind (result : α) (next : α → Using σ β) :
    (liftM (.ok result : Except MachineError α) : Using σ α) >>= next = next result := rfl

@[simp] theorem throw_bind (reason : Error) (next : α → Using σ β) :
    (throw reason : Using σ α) >>= next = throw reason := rfl

theorem bind_of_ok {first : Using σ α} {next : α → Using σ β} {source after : σ} {result : α}
    (ran : first source = (.ok result, after)) : (first >>= next) source = next result after := by
  rw [bind_apply, ran]

theorem bind_of_error {first : Using σ α} {next : α → Using σ β} {source after : σ} {reason : Error}
    (ran : first source = (.error reason, after)) : (first >>= next) source = (.error reason, after) := by
  rw [bind_apply, ran]

theorem bind_pure {first : Using σ α} {outcome : Except Error α} {source after : σ} (ran : first source = (outcome, after))
    (finish : α → β) : (first >>= fun result => pure (finish result)) source = (outcome.map finish, after) := by
  rw [bind_apply, ran]
  cases outcome <;> rfl

theorem of_bind_ok {first : Using σ α} {next : α → Using σ β} {source last : σ} {result : β}
    (ran : (first >>= next) source = (.ok result, last)) :
    ∃ middle after, first source = (.ok middle, after) ∧ next middle after = (.ok result, last) := by
  rw [bind_apply] at ran
  split at ran
  next middle after same => exact ⟨middle, after, same, ran⟩
  next => cases ran

theorem of_lift_ok {outcome : Except MachineError α} {source last : σ} {result : α}
    (ran : (liftM outcome : Using σ α) source = (.ok result, last)) : outcome = .ok result := by
  cases outcome with
  | error reason => cases ran
  | ok other =>
    cases ran
    rfl

end Using

class Source (σ : Type) where
  header : Using σ Header
  /-- The node on a page. Of its parent it is told the place and the kind. -/
  node (page : UInt32) (parent : Option (Nat × PageKind)) : Using σ Node
  given {page : UInt32} {parent : Option (Nat × PageKind)} {source last : σ} {decoded : Node} :
    node page parent source = (.ok decoded, last) → decoded.Given page parent

end SqliteReader

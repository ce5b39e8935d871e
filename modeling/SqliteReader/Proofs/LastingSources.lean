import SqliteReader.Proofs.RowExchange

/-! What lasts of a source while it is used. Where the two answers of a source leave
something as it is, so does everything that is made of them: cursors, the schema, machines,
and the worker of an exchange at whatever time one looks. -/

namespace SqliteReader

variable {σ α : Type} [Source σ]

/-- Holds of a source after whatever has been asked of it. -/
structure Lasts (good : σ → Prop) : Prop where
  header : ∀ {source : σ}, good source → good (Source.header source).2
  node : ∀ {source : σ} (page : UInt32) (parent : Option (Nat × PageKind)), good source →
    good (Source.node page parent source).2

/-- All that a source is used for above its two questions. -/
inductive Uses (source : σ) : σ → Prop
  | header {outcome : Except Error Header} {last : σ} (ran : Source.header source = (outcome, last)) : Uses source last
  | node {page : UInt32} {parent : Option (Nat × PageKind)} {outcome : Except Error Node} {last : σ}
      (ran : Source.node page parent source = (outcome, last)) : Uses source last
  | opens {root : UInt32} {outcome : Except Error Tree} {last : σ} (ran : Tree.openAt root source = (outcome, last)) :
      Uses source last
  | moves {tree after : Tree} {motion : Motion} {found : Bool} {last : σ}
      (ran : motion.act tree source = (found, after, last)) : Uses source last
  | schema {outcome : Except Error (List SchemaEntry)} {last : σ} (ran : Schema.entries source = (outcome, last)) :
      Uses source last
  | tables {outcome : Except Error (List String)} {last : σ} (ran : Schema.tableNames source = (outcome, last)) :
      Uses source last
  | counts {table : String} {outcome : Except Error (Option Nat)} {last : σ}
      (ran : Schema.countRows table source = (outcome, last)) : Uses source last
  | steps {machine : Machine} {outcome : Except Error (Event × Machine)} {last : σ}
      (ran : machine.step source = (outcome, last)) : Uses source last
  | runs {program : Program} {rows : List Row} {ending : Option Error} {last : σ}
      (ran : Runs { program } source rows ending last) : Uses source last
  | exchanges {program : Program} {capacity : Nat} {exchange : Exchange σ}
      (reached : Exchange.Reached program capacity source exchange) : Uses source exchange.source

namespace Lasts

variable {good : σ → Prop} {source last : σ}

theorem and {other : σ → Prop} (lasts : Lasts good) (also : Lasts other) :
    Lasts fun source => good source ∧ other source where
  header before := ⟨lasts.header before.1, also.header before.2⟩
  node page parent before := ⟨lasts.node page parent before.1, also.node page parent before.2⟩

theorem alike (lasts : Lasts good) : Alike fun source copy : σ => source = copy ∧ good source where
  header := by
    rintro source _ ⟨rfl, before⟩
    exact ⟨_, _, _, rfl, rfl, rfl, lasts.header before⟩
  node page parent := by
    rintro source _ ⟨rfl, before⟩
    exact ⟨_, _, _, rfl, rfl, rfl, lasts.node page parent before⟩

omit [Source σ] in
theorem of_similar {act : Using σ α} {outcome : Except Error α}
    (similar : Similar (fun source copy : σ => source = copy ∧ good source) act act) (before : good source)
    (ran : act source = (outcome, last)) : good last := by
  obtain ⟨_, _, _, same, _, _, kept⟩ := similar source source ⟨rfl, before⟩
  cases same.symm.trans ran
  exact kept

variable (lasts : Lasts good) (before : good source)
include lasts before

theorem moves {tree after : Tree} {motion : Motion} {found : Bool} (ran : motion.act tree source = (found, after, last)) :
    good last := by
  obtain ⟨_, _, _, _, same, _, _, kept⟩ := lasts.alike.motion tree motion source source ⟨rfl, before⟩
  cases same.symm.trans ran
  exact kept

theorem steps {machine : Machine} {outcome : Except Error (Event × Machine)} (ran : machine.step source = (outcome, last)) :
    good last :=
  of_similar (lasts.alike.step machine) before ran

theorem runs {machine : Machine} {rows : List Row} {ending : Option Error} (ran : Runs machine source rows ending last) :
    good last := by
  induction ran with
  | ended stopped => exact lasts.steps before stopped
  | failed stopped => exact lasts.steps before stopped
  | silent stepped _ ih => exact ih (lasts.steps before stepped)
  | row stepped _ ih => exact ih (lasts.steps before stepped)

omit before in
/-- Only steps of the machine have to do with the source. -/
theorem exchange {exchange next : Exchange σ} (before : good exchange.source) (step : Exchange.Steps exchange next) :
    good next.source := by
  rcases step with work | ask
  · cases work with
    | goes _ stepped | emits _ stepped | ends _ stepped | fails _ stepped => exact lasts.steps before stepped
    | puts | hands | abandons | leaves | reports | forgets | exits => exact before
  · cases ask <;> exact before

omit before in
theorem exchanges {exchange next : Exchange σ} (before : good exchange.source)
    (path : Relation.ReflTransGen Exchange.Steps exchange next) : good next.source := by
  induction path with
  | refl => exact before
  | tail _ step ih => exact lasts.exchange ih step

theorem uses (use : Uses source last) : good last := by
  cases use with
  | header ran =>
    have kept := lasts.header before
    rw [ran] at kept
    exact kept
  | @node page parent _ _ ran =>
    have kept := lasts.node page parent before
    rw [ran] at kept
    exact kept
  | opens ran => exact of_similar (lasts.alike.openAt _) before ran
  | moves ran => exact lasts.moves before ran
  | schema ran => exact of_similar lasts.alike.entries before ran
  | tables ran => exact of_similar (lasts.alike.entries.bind fun _ => .pure _) before ran
  | counts ran => exact of_similar (lasts.alike.countRows _) before ran
  | steps ran => exact lasts.steps before ran
  | runs ran => exact lasts.runs before ran
  | exchanges reached => exact @exchanges _ _ good lasts (.opened _ _ source) _ before reached

end Lasts
end SqliteReader

import SqliteReader.Proofs.ArenaShape

/-! Trees that are wholly in memory. A walk that comes to its end without a failure has
entered every child on its way, and each child entered is kept. From then on a walk finds
all nodes there, whatever it would find in the file. -/

namespace SqliteReader

namespace Extends

variable {nodes later last : Array Node}

theorem refl (nodes : Array Node) : Extends nodes nodes where
  kept _ node found := ⟨node, found, rfl, rfl, rfl, rfl⟩
  noted _ _ _ _ listed _ := listed

theorem trans (first : Extends nodes later) (second : Extends later last) : Extends nodes last where
  kept place node found := by
    obtain ⟨middle, there, page, parent, kind, slots⟩ := first.kept place node found
    obtain ⟨same, here, samePage, sameParent, sameKind, sameSlots⟩ := second.kept place middle there
    exact ⟨same, here, samePage.trans page, sameParent.trans parent, sameKind.trans kind, sameSlots.trans slots⟩
  noted holder index child place listed noted :=
    second.noted holder index child place (first.noted holder index child place listed noted) noted

theorem rest_before {place : Nat} {page : UInt32} {node : Node} (more : Extends nodes later)
    (found : nodes[place]? = some node) : (Frame.before later place page).rest = (Frame.before nodes place page).rest := by
  obtain ⟨same, there, _, _, _, slots⟩ := more.kept place node found
  simp [Frame.before, found, there, slots]

end Extends

/-- Everything at these positions of the node at a place, and below them, is in memory. The
records are given in their order. -/
inductive Kept (nodes : Array Node) : Nat → List Slot → List Record → Prop
  | done {place : Nat} : Kept nodes place [] []
  | record {place : Nat} {record : Record} {slots : List Slot} {records : List Record}
      (rest : Kept nodes place slots records) : Kept nodes place (.record record :: slots) (record :: records)
  | child {place index known : Nat} {page : UInt32} {child : Child} {slots : List Slot} {inner records : List Record}
      (listed : listing? nodes place index = some child) (noted : child.node = some known)
      (below : Kept nodes known (Frame.before nodes known page).rest inner) (rest : Kept nodes place slots records) :
      Kept nodes place (.child index page :: slots) (inner ++ records)

inductive Ahead (nodes : Array Node) : List Frame → List Record → Prop
  | ended : Ahead nodes [] []
  | node {frame : Frame} {outer : List Frame} {records others : List Record}
      (here : Kept nodes frame.node frame.rest records) (behind : Ahead nodes outer others) :
      Ahead nodes (frame :: outer) (records ++ others)

variable {σ : Type} [Source σ]

theorem Visited.noted {nodes : Array Node} {way : List UInt32} {holder index known : Nat} {page : UInt32} {child : Child}
    {source last : σ} {outcome : Except Error (Nat × Array Node)}
    (visited : Visited nodes way holder index page source outcome last)
    (listed : listing? nodes holder index = some child) (noted : child.node = some known) :
    outcome = .ok (known, nodes) ∧ last = source := by
  have here : (listing? nodes holder index).bind Child.node = some known := by rw [listed, Option.bind_some, noted]
  cases visited with
  | known again same =>
    cases listed.symm.trans again
    cases noted.symm.trans same
    exact ⟨rfl, rfl⟩
  | cyclic unknown | unreadable unknown | decoded unknown => cases unknown.symm.trans here

namespace Walk

variable {walk next last : Walk σ} {finding : Option Finding} {records : List Record}

section

variable {root : UInt32}

theorem Turned.extends (turned : walk.Turned finding next) (shaped : Shaped root walk.nodes walk.frames) :
    Extends walk.nodes next.nodes := by
  obtain ⟨_, levels⟩ := shaped
  cases turned with
  | left | record | refused => exact .refl _
  | entered here left visited =>
    rw [here] at levels
    obtain ⟨_, child, _, listed, _⟩ := levels.listed left
    cases visited with
    | known => exact .refl _
    | decoded unknown =>
      rw [listed, Option.bind_some] at unknown
      exact extends_adopted listed unknown

/-- What a turn has ahead in memory, and what it comes upon, was ahead before it. -/
theorem Turned.ahead {after : Array Node} (turned : walk.Turned finding next) (shaped : Shaped root walk.nodes walk.frames)
    (more : Extends next.nodes after) (fine : finding.bind Finding.failure? = none) (ahead : Ahead after next.frames records) :
    Ahead after walk.frames ((finding.bind Finding.record?).toList ++ records) := by
  have onward := (turned.shaped shaped).levels
  cases turned with
  | @left frame outer here left =>
    rw [here]
    have done : Kept after frame.node frame.rest [] := left ▸ .done
    exact .node done ahead
  | @record frame outer record slots here left =>
    rw [here]
    cases ahead with
    | @node _ _ records others rest behind =>
      have entered : Kept after frame.node frame.rest (record :: records) := left ▸ .record rest
      have whole := Ahead.node entered behind
      exact whole
  | refused => cases fine
  | @entered frame outer index place page rest nodes last here left visited =>
    rw [here]
    cases ahead with
    | @node _ _ inner _ below behind =>
      cases behind with
      | @node _ _ records others rest behind =>
        cases onward with
        | within stands entered listed noted _ =>
          cases entered
          obtain ⟨node, _, found, _⟩ := stands
          have same (page : UInt32) : (Frame.before after place page).rest = (Frame.before nodes place page).rest :=
            more.rest_before found
          rw [← same] at below
          have entry := more.noted _ _ _ _ listed noted
          have descended : Kept after frame.node frame.rest (inner ++ records) := left ▸ .child entry noted below rest
          have whole := Ahead.node descended behind
          rw [List.append_assoc] at whole
          exact whole

theorem Ends.ahead {nodes : Array Node} {passed : List Record}
    (ends : Ends (fun _ => true) walk passed finding last) (shaped : Shaped root walk.nodes walk.frames)
    (fine : finding.bind Finding.failure? = none) (more : Extends last.nodes nodes)
    (ahead : Ahead nodes last.frames records) :
    Extends walk.nodes nodes ∧ Ahead nodes walk.frames ((finding.bind Finding.record?).toList ++ records) := by
  generalize always : (fun _ : Record => true) = asked at ends
  induction ends with
  | exhausted ran => exact ⟨more, ahead⟩
  | failed ran => cases fine
  | found ran wanted =>
    have turned := Walk.turned ran
    exact ⟨(turned.extends shaped).trans more, turned.ahead shaped more fine ahead⟩
  | passed ran unwanted rest =>
    subst always
    cases unwanted
  | onward ran rest ih =>
    have turned := Walk.turned ran
    obtain ⟨more, ahead⟩ := ih (turned.shaped shaped) fine more ahead
    exact ⟨(turned.extends shaped).trans more, turned.ahead shaped more rfl ahead⟩

end

theorem Turned.kept (turned : walk.Turned finding next) (ahead : Ahead walk.nodes walk.frames records) :
    next.nodes = walk.nodes ∧ next.source = walk.source ∧
      ∃ others, records = (finding.bind Finding.record?).toList ++ others ∧ Ahead walk.nodes next.frames others ∧
        finding.bind Finding.failure? = none := by
  cases turned with
  | @left frame outer here left =>
    rw [here] at ahead
    cases ahead with
    | node inside behind =>
      rw [left] at inside
      cases inside
      exact ⟨rfl, rfl, _, rfl, behind, rfl⟩
  | @record frame outer record slots here left =>
    rw [here] at ahead
    cases ahead with
    | node inside behind =>
      rw [left] at inside
      cases inside with
      | record rest => exact ⟨rfl, rfl, _, rfl, .node rest behind, rfl⟩
  | refused here left visited =>
    rw [here] at ahead
    cases ahead with
    | node inside behind =>
      rw [left] at inside
      cases inside with
      | child listed noted => cases (visited.noted listed noted).1
  | entered here left visited =>
    rw [here] at ahead
    cases ahead with
    | node inside behind =>
      rw [left] at inside
      cases inside with
      | child listed noted below rest =>
        obtain ⟨same, rfl⟩ := visited.noted listed noted
        cases same
        exact ⟨rfl, rfl, _, List.append_assoc .., .node below (.node rest behind), rfl⟩

/-- A walk over nodes that are in memory is one over the list of their records, whatever its
source is. -/
theorem Ends.kept {asked : Record → Bool} {passed : List Record} (ends : Ends asked walk passed finding last)
    (ahead : Ahead walk.nodes walk.frames records) :
    last.nodes = walk.nodes ∧ last.source = walk.source ∧
      finding = (records.dropWhile (!asked ·)).head?.map .record ∧
      Ahead walk.nodes last.frames (records.dropWhile (!asked ·)).tail := by
  induction ends generalizing records with
  | exhausted ran =>
    rw [frames_of_exhausted ran] at ahead ⊢
    cases ahead
    exact ⟨rfl, rfl, rfl, .ended⟩
  | failed ran =>
    obtain ⟨_, _, _, _, _, fine⟩ := (Walk.turned ran).kept ahead
    cases fine
  | @found walk last record ran wanted =>
    obtain ⟨nodes, source, others, rfl, behind, _⟩ := (Walk.turned ran).kept ahead
    have stops : ((some (Finding.record record)).bind Finding.record?).toList ++ others = record :: others := rfl
    rw [stops, List.dropWhile_cons_of_neg (by simp [wanted])]
    exact ⟨nodes, source, rfl, behind⟩
  | @passed walk next last record passed finding ran unwanted rest ih =>
    obtain ⟨nodes, source, others, rfl, behind, _⟩ := (Walk.turned ran).kept ahead
    have skips : ((some (Finding.record record)).bind Finding.record?).toList ++ others = record :: others := rfl
    obtain ⟨same, left, stopped, further⟩ := ih (nodes ▸ behind)
    rw [skips, List.dropWhile_cons_of_pos (by simp [unwanted])]
    exact ⟨same.trans nodes, left.trans source, stopped, nodes ▸ further⟩
  | onward ran rest ih =>
    obtain ⟨nodes, source, others, rfl, behind, _⟩ := (Walk.turned ran).kept ahead
    obtain ⟨same, left, stopped, further⟩ := ih (nodes ▸ behind)
    exact ⟨same.trans nodes, left.trans source, stopped, nodes ▸ further⟩

end Walk
end SqliteReader

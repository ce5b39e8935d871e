import SqliteReader.Proofs.TreeFindings
import SqliteReader.Proofs.WalkTurns

/-! A walk finds what there is to find. At every moment the positions left on the way of a
cursor account for everything still to come, whatever nodes have been decoded before and
whatever was asked for; each turn takes what it comes upon off the front. -/

namespace SqliteReader

/-- What is on a page does not depend on where the parent is kept. -/
theorem Node.ofPage_place (page : Page) (place : Nat) (kind : PageKind) :
    ofPage page (some (place, kind)) =
      (ofPage page (some (0, kind))).map fun node => { node with parent := some place } := by
  unfold ofPage
  change _ = Functor.map _ _
  simp only [map_bind]
  apply bind_congr
  intro front
  apply bind_congr
  intro entries
  rfl

theorem Image.node_place (image : Image) (page : UInt32) (place : Nat) (kind : PageKind) :
    image.node page (some (place, kind)) =
      (image.node page (some (0, kind))).map fun node => { node with parent := some place } := by
  unfold Image.node
  cases image.page page with
  | error reason => rfl
  | ok page =>
    dsimp only
    rw [Node.ofPage_place]
    cases Node.ofPage page (some (0, kind)) <;> rfl

/-- A kept node has the positions of its page. -/
def Node.Shows (kept : Node) (image : Image) (page : UInt32) (parent : Option PageKind) : Prop :=
  ∃ read, image.node page (parent.map fun kind => (0, kind)) = .ok read ∧ kept.kind = read.kind ∧ kept.slots = read.slots

theorem Image.shows_node {image : Image} {page : UInt32} {place : Nat} {kind : PageKind} {node : Node}
    (decoded : image.node page (some (place, kind)) = .ok node) : node.Shows image page (some kind) := by
  rw [node_place] at decoded
  cases read : image.node page (some (0, kind)) with
  | error reason =>
    rw [read] at decoded
    cases decoded
  | ok other =>
    rw [read] at decoded
    cases decoded
    exact ⟨other, read, rfl, rfl⟩

theorem Image.refuses_node {image : Image} {page : UInt32} {place : Nat} {kind : PageKind} {reason : Error}
    (refused : image.node page (some (place, kind)) = .error reason) :
    image.node page (some (0, kind)) = .error reason := by
  rw [node_place] at refused
  cases read : image.node page (some (0, kind)) with
  | error other =>
    rw [read] at refused
    cases refused
    rfl
  | ok node =>
    rw [read] at refused
    cases refused

def parentKind? (nodes : Array Node) (node : Node) : Option PageKind :=
  (node.parent.bind (nodes[·]?)).map Node.kind

def Faithful (image : Image) (nodes : Array Node) : Prop :=
  ∀ (place : Nat) (node : Node), nodes[place]? = some node → node.Shows image node.page (parentKind? nodes node)

section

variable {image : Image} {root : UInt32} {nodes : Array Node}

theorem faithful_root {node : Node} (decoded : image.node root none = .ok node) : Faithful image #[node] := by
  have given := Source.given (Prod.ext decoded rfl : Source.node root none image = (.ok node, image))
  intro place other found
  obtain ⟨_, rfl⟩ := of_getElem?_root found
  rw [parentKind?, given.parent, given.page]
  exact ⟨other, decoded, rfl, rfl⟩

theorem Faithful.rooted (faithful : Faithful image nodes) (arena : Arena root nodes) :
    ∃ node, nodes[0]? = some node ∧ node.Shows image root none := by
  obtain ⟨node, found, rfl, top⟩ := arena.rooted
  have shown := faithful 0 node found
  rw [parentKind?, top] at shown
  exact ⟨node, found, shown⟩

theorem Faithful.noted (faithful : Faithful image nodes) (arena : Arena root nodes) {holder index place : Nat}
    {node : Node} {child : Child} (found : nodes[holder]? = some node)
    (listed : listing? nodes holder index = some child) (noted : child.node = some place) :
    ∃ below, nodes[place]? = some below ∧ below.Shows image child.page (some node.kind) := by
  obtain ⟨below, there, page, parent⟩ := arena.noted listed noted
  have shown := faithful place below there
  rw [parentKind?, parent, Option.bind_some, found, page] at shown
  exact ⟨below, there, shown⟩

theorem Faithful.adopted {holder index : Nat} {node decoded : Node} {child : Child} {kind : PageKind}
    (faithful : Faithful image nodes) (arena : Arena root nodes) (found : nodes[holder]? = some node)
    (given : decoded.Given child.page (some (holder, kind))) (shown : decoded.Shows image child.page (some node.kind)) :
    Faithful image (adopted nodes holder index decoded) := by
  have still {place : Nat} {other : Node} (there : nodes[place]? = some other) :
      ((SqliteReader.adopted nodes holder index decoded)[place]?).map Node.kind = some other.kind := by
    rw [adopted_old there]
    split <;> rfl
  intro place other there
  rcases adopted_cases there with ⟨_, rfl⟩ | ⟨before, earlier, rfl⟩
  · rw [parentKind?, given.parent, Option.map_some, Option.bind_some, still found, given.page]
    exact shown
  · have kept := faithful place before earlier
    have same : parentKind? (SqliteReader.adopted nodes holder index decoded) before = parentKind? nodes before := by
      cases parent : before.parent with
      | none => simp [parentKind?, parent]
      | some above =>
        have counted : place ≠ 0 := by
          rintro rfl
          obtain ⟨top, first, _, none⟩ := arena.rooted
          cases first.symm.trans earlier
          cases none.symm.trans parent
        obtain ⟨_, _, _, _, known, listed, _⟩ := arena.parented place before earlier counted
        cases known.symm.trans parent
        obtain ⟨upper, held, _⟩ := Option.bind_eq_some_iff.mp listed
        rw [parentKind?, parentKind?, parent, Option.bind_some, Option.bind_some, still held, held, Option.map_some]
    obtain ⟨read, decoded, kind, slots⟩ := kept
    split
    · exact ⟨read, same ▸ decoded, kind, (before.slots_link _ _).trans slots⟩
    · exact ⟨read, same ▸ decoded, kind, slots⟩

end

/-- Everything still to come, position by position from the innermost node outwards. -/
def pending (image : Image) (nodes : Array Node) : List Frame → List Finding
  | [] => []
  | frame :: outer =>
    frame.rest.flatMap (image.slotFindings (pagesOf (frame :: outer)) (nodes[frame.node]?.map Node.kind)) ++
      pending image nodes outer

theorem pending_extends {image : Image} {nodes later : Array Node} {frames : List Frame} (levels : Levels nodes frames)
    (more : Extends nodes later) : pending image later frames = pending image nodes frames := by
  induction frames with
  | nil => rfl
  | cons frame outer ih =>
    obtain ⟨node, _, found, _⟩ := levels.stands
    obtain ⟨same, there, _, _, kind, _⟩ := more.kept frame.node node found
    simp only [pending, found, there, Option.map_some, kind]
    rw [ih levels.left]

theorem pending_onward {image : Image} {nodes : Array Node} {frame : Frame} {outer : List Frame} {slot : Slot}
    {rest : List Slot} (left : frame.rest = slot :: rest) :
    pending image nodes (frame :: outer) =
      image.slotFindings (pagesOf (frame :: outer)) (nodes[frame.node]?.map Node.kind) slot ++
        pending image nodes (frame.enter slot rest :: outer) := by
  simp only [pending, left, List.flatMap_cons, List.append_assoc]
  rfl

theorem pending_child {image : Image} {nodes : Array Node} {frame : Frame} {outer : List Frame} {node : Node}
    {index : Nat} {page : UInt32} {rest : List Slot} (found : nodes[frame.node]? = some node)
    (left : frame.rest = .child index page :: rest) :
    pending image nodes (frame :: outer) = image.findings (pagesOf (frame :: outer)) page (some node.kind) ++
      pending image nodes (frame.enter (.child index page) rest :: outer) := by
  rw [pending_onward left, found]
  rfl

/-- The positions of a node that shows its page are what there is to find on the page. -/
theorem pending_before {image : Image} {nodes : Array Node} {frames : List Frame} {place : Nat} {page : UInt32}
    {parent : Option PageKind} {node : Node} (found : nodes[place]? = some node) (shown : node.Shows image page parent)
    (clear : page ∉ pagesOf frames) :
    pending image nodes (.before nodes place page :: frames) =
      image.findings (pagesOf frames) page parent ++ pending image nodes frames := by
  obtain ⟨read, decoded, kind, slots⟩ := shown
  rw [Image.findings_of_node clear decoded]
  simp only [pending, pagesOf_cons, Frame.before, found, Option.map_some, Option.getD_some, kind, slots]

namespace Walk

variable {root : UInt32} {image : Image} {walk next last : Walk Image} {finding : Option Finding}

/-- What a turn comes upon, and nothing else, is no longer to come behind it. -/
theorem Turned.accounts (turned : walk.Turned finding next) (shaped : Shaped root walk.nodes walk.frames)
    (source : walk.source = image) (faithful : Faithful image walk.nodes) :
    next.source = image ∧ Faithful image next.nodes ∧
      pending image walk.nodes walk.frames = finding.toList ++ pending image next.nodes next.frames := by
  obtain ⟨arena, levels⟩ := shaped
  cases turned with
  | left here left =>
    refine ⟨source, faithful, ?_⟩
    simp [here, pending, left]
  | record here left =>
    refine ⟨source, faithful, ?_⟩
    rw [here, pending_onward left]
    rfl
  | refused here left visited =>
    rw [here] at levels ⊢
    obtain ⟨node, child, found, listed, rfl⟩ := levels.listed left
    rw [pending_child found left, Image.findings]
    cases visited with
    | cyclic _ cyclic =>
      rw [dif_pos cyclic]
      exact ⟨source, faithful, rfl⟩
    | unreadable _ clear asked =>
      rw [found, source] at asked
      obtain ⟨refused, same⟩ := Prod.mk.inj asked
      have decoding : image.node child.page ((some node.kind).map fun kind => (0, kind)) = .error _ :=
        Image.refuses_node refused
      rw [dif_neg clear, decoding]
      exact ⟨same.symm, faithful, rfl⟩
  | @entered frame outer index place page rest nodes last here left visited =>
    rw [here] at levels ⊢
    obtain ⟨node, child, found, listed, rfl⟩ := levels.listed left
    have samePages : pagesOf (frame.enter (.child index child.page) rest :: outer) = pagesOf (frame :: outer) := rfl
    rw [pending_child found left, ← samePages]
    cases visited with
    | known same noted =>
      cases listed.symm.trans same
      obtain ⟨below, there, shown⟩ := faithful.noted arena found listed noted
      have clear := arena.not_above listed noted (levels.ascent arena)
      rw [← samePages] at clear
      exact ⟨source, faithful, (pending_before there shown clear).symm⟩
    | decoded unknown clear asked =>
      rw [listed, Option.bind_some] at unknown
      rw [found, source] at asked
      obtain ⟨decoded, same⟩ := Prod.mk.inj asked
      have given := Source.given asked
      have shown := Image.shows_node decoded
      refine ⟨same.symm, faithful.adopted arena found given shown, ?_⟩
      rw [← samePages] at clear
      rw [← pending_extends (levels.onward left) (extends_adopted listed unknown)]
      exact (pending_before adopted_new shown clear).symm

/-- A walk accounts for all that was to come before it, in order: what it passed, what it
stopped at, and what is still to come. -/
theorem Ends.accounts {asked : Record → Bool} {passed : List Record} (ends : Ends asked walk passed finding last)
    (shaped : Shaped root walk.nodes walk.frames) (source : walk.source = image) (faithful : Faithful image walk.nodes) :
    last.source = image ∧ Faithful image last.nodes ∧ (∀ record ∈ passed, asked record = false) ∧
      pending image walk.nodes walk.frames =
        passed.map .record ++ finding.toList ++ pending image last.nodes last.frames := by
  induction ends with
  | exhausted ran => exact ⟨source, faithful, List.forall_mem_nil _, rfl⟩
  | failed ran | found ran _ =>
    obtain ⟨stays, kept, comes⟩ := (Walk.turned ran).accounts shaped source faithful
    exact ⟨stays, kept, List.forall_mem_nil _, comes⟩
  | passed ran unwanted _ ih =>
    have turned := Walk.turned ran
    obtain ⟨stays, kept, comes⟩ := turned.accounts shaped source faithful
    obtain ⟨ended, still, unasked, rest⟩ := ih (turned.shaped shaped) stays kept
    exact ⟨ended, still, List.forall_mem_cons.mpr ⟨unwanted, unasked⟩, by rw [comes, rest]; rfl⟩
  | onward ran _ ih =>
    have turned := Walk.turned ran
    obtain ⟨stays, kept, comes⟩ := turned.accounts shaped source faithful
    obtain ⟨ended, still, unasked, rest⟩ := ih (turned.shaped shaped) stays kept
    exact ⟨ended, still, unasked, by rw [comes, rest]; rfl⟩

end Walk
end SqliteReader

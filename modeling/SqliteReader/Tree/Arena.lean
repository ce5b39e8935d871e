import SqliteReader.Node

/-! The nodes that a tree has decoded so far, in the order in which they were. Each but the
root is below a parent kept before it, whose entry for the child is the only one that notes
the place. A page is decoded only if it is not one of those above it, so that no page comes
twice on the way from a node up to the root, and no child that is kept is above itself. -/

namespace SqliteReader

/-- An entry for a child, wherever it is kept. -/
def listing? (nodes : Array Node) (holder index : Nat) : Option Child := nodes[holder]?.bind (·.children[index]?)

def Notes (nodes : Array Node) (holder index place : Nat) : Prop :=
  ∃ child, listing? nodes holder index = some child ∧ child.node = some place

/-- The pages from the node at a place up to the root, from parent to parent. -/
inductive Ascent (nodes : Array Node) : Nat → List UInt32 → Prop
  | root {place : Nat} {node : Node} (found : nodes[place]? = some node) (top : node.parent = none) :
      Ascent nodes place [node.page]
  | under {place parent : Nat} {node : Node} {above : List UInt32} (found : nodes[place]? = some node)
      (known : node.parent = some parent) (rest : Ascent nodes parent above) : Ascent nodes place (node.page :: above)

structure Arena (root : UInt32) (nodes : Array Node) : Prop where
  rooted : ∃ node, nodes[0]? = some node ∧ node.page = root ∧ node.parent = none
  parented : ∀ (place : Nat) (node : Node), nodes[place]? = some node → place ≠ 0 →
    ∃ parent index child, parent < place ∧ node.parent = some parent ∧ listing? nodes parent index = some child ∧
      child.node = some place ∧ child.page = node.page
  unique : ∀ holder index other position place, Notes nodes holder index place → Notes nodes other position place →
    holder = other ∧ index = position
  inside : ∀ holder index place, Notes nodes holder index place → place ≠ 0 ∧ place < nodes.size
  apart : ∀ place pages, Ascent nodes place pages → pages.Nodup

theorem of_getElem?_root {root other : Node} {place : Nat} (found : #[root][place]? = some other) :
    place = 0 ∧ other = root := by
  cases place with
  | zero =>
    cases found
    exact ⟨rfl, rfl⟩
  | succ place => simp at found

/-- The nodes once a child has been decoded and its place has been noted. -/
def adopted (nodes : Array Node) (parent index : Nat) (decoded : Node) : Array Node :=
  let place := nodes.size
  (nodes.modify parent (·.link index place)).push decoded

section

variable {nodes : Array Node} {parent index holder position place : Nat} {decoded : Node} {child below : Child}

theorem listing_of_getElem? {node : Node} (found : nodes[holder]? = some node) :
    listing? nodes holder index = node.children[index]? := by
  rw [listing?, found, Option.bind_some]

@[simp] theorem size_adopted : (adopted nodes parent index decoded).size = nodes.size + 1 := by
  simp only [adopted, Array.size_push, Array.size_modify]

theorem adopted_old {node : Node} (found : nodes[place]? = some node) :
    (adopted nodes parent index decoded)[place]? =
      some (if parent = place then node.link index nodes.size else node) := by
  have inside := (Array.getElem?_eq_some_iff.mp found).1
  simp only [adopted]
  rw [Array.getElem?_push, Array.size_modify, if_neg (by omega), Array.getElem?_modify, found]
  split <;> rfl

theorem adopted_new : (adopted nodes parent index decoded)[nodes.size]? = some decoded := by
  simp only [adopted]
  rw [Array.getElem?_push, Array.size_modify, if_pos rfl]

theorem adopted_cases {node : Node} (found : (adopted nodes parent index decoded)[place]? = some node) :
    (place = nodes.size ∧ node = decoded) ∨
      ∃ before, nodes[place]? = some before ∧ node = if parent = place then before.link index nodes.size else before := by
  by_cases last : place = nodes.size
  · rw [last, adopted_new] at found
    exact .inl ⟨last, (Option.some.inj found).symm⟩
  · cases earlier : nodes[place]? with
    | none =>
      have outside := Array.getElem?_eq_none_iff.mp earlier
      have inside := (Array.getElem?_eq_some_iff.mp found).1
      rw [size_adopted] at inside
      omega
    | some before =>
      rw [adopted_old earlier] at found
      exact .inr ⟨before, rfl, (Option.some.inj found).symm⟩

/-- Of the entries kept before only the one of the child just decoded has changed. -/
theorem listing_adopted (listed : listing? nodes holder position = some below) :
    listing? (adopted nodes parent index decoded) holder position =
      some (if parent = holder ∧ index = position then { below with node := some nodes.size } else below) := by
  obtain ⟨node, found, there⟩ := Option.bind_eq_some_iff.mp listed
  rw [listing_of_getElem? (adopted_old found)]
  by_cases here : parent = holder
  · rw [if_pos here, Node.children_link, there, Option.map_some]
    simp only [here, true_and]
  · rw [if_neg here, there, if_neg fun both => here both.1]

theorem entry_adopted (listed : listing? nodes parent index = some child) :
    listing? (adopted nodes parent index decoded) parent index = some { child with node := some nodes.size } := by
  rw [listing_adopted listed, if_pos ⟨rfl, rfl⟩]

theorem of_listing_adopted (listed : listing? (adopted nodes parent index decoded) holder position = some below)
    (noted : below.node = some place) (fresh : decoded.Fresh) : ∃ old, listing? nodes holder position = some old := by
  obtain ⟨node, found, there⟩ := Option.bind_eq_some_iff.mp listed
  rcases adopted_cases found with ⟨_, rfl⟩ | ⟨before, earlier, rfl⟩
  · rw [fresh below (Array.mem_of_getElem? there)] at noted
    cases noted
  · rw [listing_of_getElem? earlier]
    by_cases here : parent = holder
    · rw [if_pos here, Node.children_link] at there
      obtain ⟨old, same, _⟩ := Option.map_eq_some_iff.mp there
      exact ⟨old, same⟩
    · rw [if_neg here] at there
      exact ⟨below, there⟩

/-- A place is noted where it was before, and the new one for the child just decoded. -/
theorem notes_adopted (listed : listing? nodes parent index = some child) (unknown : child.node = none)
    (fresh : decoded.Fresh) :
    Notes (adopted nodes parent index decoded) holder position place ↔
      Notes nodes holder position place ∨ (holder = parent ∧ position = index ∧ place = nodes.size) := by
  constructor
  · rintro ⟨below, there, noted⟩
    obtain ⟨old, before⟩ := of_listing_adopted there noted fresh
    rw [listing_adopted before] at there
    split at there
    next here =>
      cases there
      cases noted
      exact .inr ⟨here.1.symm, here.2.symm, rfl⟩
    next =>
      cases there
      exact .inl ⟨_, before, noted⟩
  · rintro (⟨below, before, noted⟩ | ⟨rfl, rfl, rfl⟩)
    · refine ⟨below, ?_, noted⟩
      rw [listing_adopted before, if_neg]
      rintro ⟨rfl, rfl⟩
      cases listed.symm.trans before
      cases unknown.symm.trans noted
    · exact ⟨_, entry_adopted listed, rfl⟩

end

/-- Nodes stay what they are, and so do the entries that note a place. -/
structure Extends (nodes later : Array Node) : Prop where
  kept : ∀ (place : Nat) (node : Node), nodes[place]? = some node →
    ∃ same, later[place]? = some same ∧ same.page = node.page ∧ same.parent = node.parent ∧ same.kind = node.kind ∧
      same.slots = node.slots
  noted : ∀ holder index child place, listing? nodes holder index = some child → child.node = some place →
    listing? later holder index = some child

theorem extends_adopted {nodes : Array Node} {parent index : Nat} {decoded : Node} {child : Child}
    (listed : listing? nodes parent index = some child) (unknown : child.node = none) :
    Extends nodes (adopted nodes parent index decoded) where
  kept place node found := by
    refine ⟨_, adopted_old found, ?_⟩
    split
    · exact ⟨rfl, rfl, rfl, node.slots_link _ _⟩
    · exact ⟨rfl, rfl, rfl, rfl⟩
  noted holder position below place before noted := by
    rw [listing_adopted before, if_neg]
    rintro ⟨rfl, rfl⟩
    cases listed.symm.trans before
    cases unknown.symm.trans noted

namespace Ascent

variable {nodes : Array Node} {place : Nat} {pages others : List UInt32}

theorem unique (first : Ascent nodes place pages) (second : Ascent nodes place others) : pages = others := by
  induction first generalizing others with
  | root found top =>
    cases second with
    | root again => cases found.symm.trans again; rfl
    | under again known => cases found.symm.trans again; cases top.symm.trans known
  | under found known _ ih =>
    cases second with
    | root again top => cases found.symm.trans again; cases top.symm.trans known
    | under again same rest =>
      cases found.symm.trans again
      cases known.symm.trans same
      rw [ih rest]

end Ascent

namespace Arena

variable {root : UInt32} {nodes : Array Node} {parent index place : Nat} {decoded : Node} {child : Child} {kind : PageKind}

/-- The node at a noted place is that of the entry's child. -/
theorem noted (arena : Arena root nodes) {holder index place : Nat} {child : Child}
    (listed : listing? nodes holder index = some child) (noted : child.node = some place) :
    ∃ node, nodes[place]? = some node ∧ node.page = child.page ∧ node.parent = some holder := by
  obtain ⟨below, within⟩ := arena.inside _ _ _ ⟨child, listed, noted⟩
  have found := Array.getElem?_eq_getElem within
  obtain ⟨parent, position, same, _, known, there, here, page⟩ := arena.parented _ _ found below
  obtain ⟨rfl, rfl⟩ := arena.unique _ _ _ _ _ ⟨child, listed, noted⟩ ⟨same, there, here⟩
  cases listed.symm.trans there
  exact ⟨_, found, page.symm, known⟩

/-- A child that is kept is none of the pages above it. -/
theorem not_above (arena : Arena root nodes) {above : List UInt32} (listed : listing? nodes parent index = some child)
    (noted : child.node = some place) (ascent : Ascent nodes parent above) : child.page ∉ above := by
  obtain ⟨node, found, page, known⟩ := arena.noted listed noted
  have distinct := arena.apart place _ (.under found known ascent)
  rw [page] at distinct
  exact (List.nodup_cons.mp distinct).1

/-- What is above a node does not change when others are decoded. -/
theorem ascent_of_adopted (arena : Arena root nodes) {pages : List UInt32}
    (ascent : Ascent (adopted nodes parent index decoded) place pages) (old : place < nodes.size) :
    Ascent nodes place pages := by
  have before {place : Nat} {node : Node} (found : (adopted nodes parent index decoded)[place]? = some node)
      (old : place < nodes.size) : ∃ same, nodes[place]? = some same ∧ same.page = node.page ∧ same.parent = node.parent := by
    rcases adopted_cases found with ⟨rfl, _⟩ | ⟨same, earlier, rfl⟩
    · exact absurd old (Nat.lt_irrefl _)
    · refine ⟨same, earlier, ?_⟩
      split <;> exact ⟨rfl, rfl⟩
  induction ascent with
  | root found top =>
    obtain ⟨same, earlier, page, known⟩ := before found old
    exact page ▸ .root earlier (known.trans top)
  | @under place parent node above found known _ ih =>
    obtain ⟨same, earlier, page, sameParent⟩ := before found old
    by_cases first : place = 0
    · obtain ⟨top, there, _, none⟩ := arena.rooted
      subst first
      cases there.symm.trans earlier
      cases none.symm.trans (sameParent.trans known)
    · obtain ⟨above, _, _, ordered, named, _⟩ := arena.parented _ _ earlier first
      cases named.symm.trans (sameParent.trans known)
      exact page ▸ .under earlier named (ih (Nat.lt_trans ordered old))

theorem ofRoot {page : UInt32} (given : decoded.Given page none) : Arena page #[decoded] := by
  have unnoted : ∀ holder index place, ¬ Notes #[decoded] holder index place := by
    rintro holder index place ⟨child, listed, noted⟩
    obtain ⟨other, found, there⟩ := Option.bind_eq_some_iff.mp listed
    obtain ⟨_, rfl⟩ := of_getElem?_root found
    rw [given.fresh child (Array.mem_of_getElem? there)] at noted
    cases noted
  refine ⟨⟨decoded, rfl, given.page, given.parent⟩, ?_, ?_, ?_, ?_⟩
  · intro place other found counted
    exact absurd (of_getElem?_root found).1 counted
  · intro holder index other position place noted
    exact absurd noted (unnoted _ _ _)
  · intro holder index place noted
    exact absurd noted (unnoted _ _ _)
  · intro place pages ascent
    cases ascent with
    | root => simp
    | under found known =>
      obtain ⟨_, rfl⟩ := of_getElem?_root found
      cases given.parent.symm.trans known

theorem adopted (arena : Arena root nodes) (listed : listing? nodes parent index = some child)
    (unknown : child.node = none) (clear : ∀ above, Ascent nodes parent above → child.page ∉ above)
    (given : decoded.Given child.page (some (parent, kind))) :
    Arena root (adopted nodes parent index decoded) := by
  have more : Extends nodes _ := @extends_adopted nodes parent index decoded child listed unknown
  have notes {holder position place : Nat} := @notes_adopted nodes parent index holder position place _ _ listed unknown
    given.fresh
  obtain ⟨holding, held, _⟩ := Option.bind_eq_some_iff.mp listed
  have within : parent < nodes.size := (Array.getElem?_eq_some_iff.mp held).1
  refine ⟨?_, ?_, ?_, ?_, ?_⟩
  · obtain ⟨node, found, page, top⟩ := arena.rooted
    obtain ⟨same, there, samePage, sameParent, _⟩ := more.kept _ _ found
    exact ⟨same, there, samePage.trans page, sameParent.trans top⟩
  · intro place node found counted
    rcases adopted_cases found with ⟨rfl, rfl⟩ | ⟨before, earlier, _⟩
    · exact ⟨parent, index, _, within, given.parent, entry_adopted listed, rfl, given.page.symm⟩
    · obtain ⟨same, there, page, sameParent, _⟩ := more.kept _ _ earlier
      cases found.symm.trans there
      obtain ⟨above, position, below, ordered, known, entry, noted, samePage⟩ := arena.parented _ _ earlier counted
      exact ⟨above, position, below, ordered, sameParent.trans known, more.noted _ _ _ _ entry noted, noted,
        samePage.trans page.symm⟩
  · intro holder position other slot place first second
    rcases notes.mp first with before | ⟨rfl, rfl, rfl⟩
    · rcases notes.mp second with earlier | ⟨_, _, rfl⟩
      · exact arena.unique _ _ _ _ _ before earlier
      · exact absurd (arena.inside _ _ _ before).2 (Nat.lt_irrefl _)
    · rcases notes.mp second with earlier | ⟨rfl, rfl, _⟩
      · exact absurd (arena.inside _ _ _ earlier).2 (Nat.lt_irrefl _)
      · exact ⟨rfl, rfl⟩
  · intro holder position place noted
    rw [size_adopted]
    rcases notes.mp noted with before | ⟨_, _, rfl⟩
    · have bounds := arena.inside _ _ _ before
      omega
    · omega
  · intro place pages ascent
    by_cases old : place < nodes.size
    · exact arena.apart place pages (arena.ascent_of_adopted ascent old)
    · -- The node just decoded comes before the pages above its parent, of which it is none.
      have new {node : Node} (found : (SqliteReader.adopted nodes parent index decoded)[place]? = some node) :
          node = decoded := by
        rcases adopted_cases found with ⟨_, same⟩ | ⟨_, earlier, _⟩
        · exact same
        · exact absurd (Array.getElem?_eq_some_iff.mp earlier).1 old
      cases ascent with
      | root => simp
      | under found known rest =>
        cases new found
        cases given.parent.symm.trans known
        have above := arena.ascent_of_adopted rest within
        rw [given.page]
        exact List.nodup_cons.mpr ⟨clear _ above, arena.apart _ _ above⟩

end Arena
end SqliteReader

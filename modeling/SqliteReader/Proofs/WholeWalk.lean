import SqliteReader.Proofs.WatchedReads
import SqliteReader.Schema

/-! Trees that are read as a whole. On a walk every child of a node read so far has been
read or is still ahead, and once the walk has come to its end nothing is ahead any more. -/

namespace SqliteReader

theorem Watched.node_ok {watched after : Watched} {page : UInt32} {parent : Option (Nat × PageKind)} {node : Node}
    (ran : Source.node page parent watched = (.ok node, after)) :
    after.reads = watched.reads ++ [.node page (.ok node)] := by
  rcases asked : Pager.readNode page parent watched.pager with ⟨outcome, pager⟩
  have same : (Source.node page parent watched : Except Error Node × Watched) =
      (outcome, ⟨pager, watched.reads ++ [.node page outcome]⟩) := by
    simp only [Source.node, asked]
  cases same.symm.trans ran
  rfl

def Decoded (reads : List Read) (page : UInt32) : Prop := ∃ node, .node page (.ok node) ∈ reads

/-- Reads without a failure that leave out no page of a tree. -/
structure Whole (reads : List Read) (root : UInt32) : Prop where
  unfailing : ∀ read ∈ reads, read.failure? = none
  rooted : Decoded reads root
  closed : ∀ page node index child, .node page (.ok node) ∈ reads → .child index child ∈ node.slots →
    Decoded reads child

/-- A walk that has not left out a page so far. -/
structure Covering (walk : Walk Watched) : Prop where
  read : ∀ (place : Nat) (node : Node), walk.nodes[place]? = some node → Decoded walk.source.reads node.page
  covers : ∀ page node index child, .node page (.ok node) ∈ walk.source.reads → .child index child ∈ node.slots →
    Decoded walk.source.reads child ∨ ∃ frame ∈ walk.frames, ∃ position, .child position child ∈ frame.rest

namespace Covering

variable {root page : UInt32} {frame : Frame} {outer : List Frame} {rest : List Slot}

/-- The position that a frame enters is not ahead any more, and no other one is lost. -/
theorem ahead_onward {slot : Slot} {child : UInt32} (left : frame.rest = slot :: rest)
    (ahead : ∃ other ∈ frame :: outer, ∃ position, .child position child ∈ other.rest) :
    (∃ position, slot = .child position child) ∨
      ∃ other ∈ frame.enter slot rest :: outer, ∃ position, .child position child ∈ other.rest := by
  obtain ⟨other, member, position, ahead⟩ := ahead
  rcases List.mem_cons.mp member with rfl | member
  · rw [left] at ahead
    rcases List.mem_cons.mp ahead with entered | later
    · exact .inl ⟨position, entered.symm⟩
    · exact .inr ⟨_, List.mem_cons_self, position, later⟩
  · exact .inr ⟨other, List.mem_cons_of_mem _ member, position, ahead⟩

theorem ahead_entered {index : Nat} {child : UInt32} {inner : Frame} (left : frame.rest = .child index page :: rest)
    (ahead : ∃ other ∈ frame :: outer, ∃ position, .child position child ∈ other.rest) :
    child = page ∨
      ∃ other ∈ inner :: frame.enter (.child index page) rest :: outer, ∃ position, .child position child ∈ other.rest := by
  rcases ahead_onward left ahead with ⟨position, same⟩ | ⟨other, member, still⟩
  · cases same
    exact .inl rfl
  · exact .inr ⟨other, List.mem_cons_of_mem _ member, still⟩

variable {walk next last : Walk Watched} {finding : Option Finding}

theorem turned (turned : walk.Turned finding next) (shaped : Shaped root walk.nodes walk.frames)
    (fine : finding.bind Finding.failure? = none) (covering : Covering walk) : Covering next := by
  obtain ⟨arena, levels⟩ := shaped
  obtain ⟨read, covers⟩ := covering
  cases turned with
  | left here left =>
    refine ⟨read, fun page node index child seen listed => ?_⟩
    rcases covers page node index child seen listed with done | ⟨other, member, position, ahead⟩
    · exact .inl done
    rw [here] at member
    rcases List.mem_cons.mp member with rfl | member
    · rw [left] at ahead
      cases ahead
    · exact .inr ⟨other, member, position, ahead⟩
  | record here left =>
    refine ⟨read, fun page node index child seen listed => ?_⟩
    rcases covers page node index child seen listed with done | ahead
    · exact .inl done
    rw [here] at ahead
    rcases ahead_onward left ahead with ⟨position, impossible⟩ | still
    · cases impossible
    · exact .inr still
  | refused => cases fine
  | @entered frame outer index place page rest nodes last here left visited =>
    rw [here] at levels covers
    obtain ⟨node, child, found, listed, rfl⟩ := levels.listed left
    cases visited with
    | known same noted =>
      cases listed.symm.trans same
      obtain ⟨below, there, page, _⟩ := arena.noted listed noted
      refine ⟨read, fun number other position grandchild seen slot => ?_⟩
      rcases covers number other position grandchild seen slot with done | ahead
      · exact .inl done
      rcases ahead_entered left ahead with rfl | still
      · exact .inl (page ▸ read _ below there)
      · exact .inr still
    | @decoded decoded _ unknown clear asked =>
      have told := Watched.node_ok asked
      have given := Source.given asked
      have stays : ∀ page, Decoded walk.source.reads page → Decoded last.reads page := by
        intro page ⟨node, member⟩
        exact ⟨node, told ▸ List.mem_append_left _ member⟩
      have done : Decoded last.reads child.page := ⟨decoded, told ▸ List.mem_append_right _ List.mem_cons_self⟩
      refine ⟨?_, fun number other position grandchild seen slot => ?_⟩
      · intro place other there
        rcases adopted_cases there with ⟨_, rfl⟩ | ⟨before, earlier, rfl⟩
        · exact given.page ▸ done
        · have kept := stays _ (read place before earlier)
          split <;> exact kept
      · rw [told] at seen
        rcases List.mem_append.mp seen with seen | new
        · rcases covers number other position grandchild seen slot with before | ahead
          · exact .inl (stays _ before)
          rcases ahead_entered left ahead with rfl | still
          · exact .inl done
          · exact .inr still
        · cases List.mem_singleton.mp new
          refine .inr ⟨_, List.mem_cons_self, position, ?_⟩
          rw [Frame.before, adopted_new]
          exact slot

theorem ends {asked : Record → Bool} {passed : List Record} (ends : Walk.Ends asked walk passed none last)
    (shaped : Shaped root walk.nodes walk.frames) (covering : Covering walk) : Covering last := by
  generalize finished : (none : Option Finding) = finding at ends
  induction ends with
  | exhausted => exact covering
  | failed | found => cases finished
  | passed ran _ _ ih | onward ran _ ih =>
    have turn := Walk.turned ran
    exact ih (turn.shaped shaped) (covering.turned turn shaped rfl) finished

theorem opened {root : UInt32} {pager : Pager} {tree : Tree} {watched : Watched}
    (opened : Tree.openAt root (⟨pager, []⟩ : Watched) = (.ok tree, watched)) : Covering (tree.walk watched) := by
  obtain ⟨node, asked, arena, rfl⟩ := Tree.of_openAt_ok opened
  have told := Watched.node_ok asked
  have given := Source.given asked
  refine ⟨?_, fun page other index child seen slot => ?_⟩
  · intro place other found
    obtain ⟨_, rfl⟩ := of_getElem?_root found
    exact ⟨other, told ▸ given.page ▸ List.mem_cons_self⟩
  · change _ ∈ watched.reads at seen
    rw [told] at seen
    cases List.mem_singleton.mp seen
    exact .inr ⟨_, List.mem_cons_self, index, slot⟩

end Covering

theorem Candid.readTree (root : UInt32) : Candid (readTree root) := by
  intro watched
  simp only [SqliteReader.readTree]
  rcases opened : Tree.openAt root watched with ⟨outcome, middle⟩
  have told := (Candid.openAt root).tells opened
  cases outcome with
  | error reason => exact told
  | ok tree =>
    obtain ⟨found, passed, after, last, sought, rest⟩ := search_tells tree (fun _ => false) middle
    simp only [Tree.rest, sought]
    cases latched : after.failure with
    | none =>
      rw [latched] at rest
      exact told.trans rest
    | some reason =>
      rw [latched] at rest
      exact told.trans rest

/-- All records of a tree are given out only when all its pages have been read. -/
theorem readTree_whole {root : UInt32} {pager : Pager} {records : Array Record} {after : Watched}
    (ran : readTree root (⟨pager, []⟩ : Watched) = (.ok records, after)) : Whole after.reads root := by
  have told := (Candid.readTree root).tells ran
  have unfailing : ∀ read ∈ after.reads, read.failure? = none := List.filterMap_eq_nil_iff.mp told
  simp only [readTree] at ran
  rcases opened : Tree.openAt root (⟨pager, []⟩ : Watched) with ⟨outcome, middle⟩
  simp only [opened] at ran
  cases outcome with
  | error reason => cases ran
  | ok tree =>
    have clear : tree.failure = none := openAt_unlatched opened
    obtain ⟨passed, finding, last, reached, ends, sought, left⟩ := Tree.search_ends clear (fun _ => false) middle
    simp only [Tree.rest, sought, left.failure] at ran
    cases finding with
    | some finding =>
      cases finding with
      | failure reason => cases ran
      | record record => cases ends.on_record.2
    | none =>
      cases ran
      have finished := (Covering.opened opened).ends ends tree.shaped
      have shaped := Walk.shaped_of_turns ends.turns tree.shaped
      have emptied := ends.frames_exhausted
      obtain ⟨node, found, page, _⟩ := shaped.arena.rooted
      obtain ⟨_, _, _, rfl⟩ := Tree.of_openAt_ok opened
      have rooted := finished.read 0 node found
      rw [page] at rooted
      refine ⟨unfailing, rooted, ?_⟩
      intro page node index child read listed
      rcases finished.covers page node index child read listed with done | ⟨_, impossible, _⟩
      · exact done
      · rw [emptied] at impossible
        cases impossible

end SqliteReader

import SqliteReader.Proofs.AbidingFile

/-! A pager that several use at once. Each call is made as a whole, but before each call of
one user the others make theirs, also between getting a page and giving it back. As long as
nobody closes the pager or gives back the pages of another, none of this can be seen. -/

namespace SqliteReader

structure Crowded where
  pager : Pager
  /-- What the others would like to call before each call of this one. -/
  others : Nat → List Call
  theirs : Nat
  asked : Nat := 0

/-- A call that takes nothing away from another user. -/
def Call.fair (theirs : Nat) : Call → Bool
  | .releasePage => theirs ≠ 0
  | .close => false
  | _ => true

def Call.tally (call : Call) (outcome : Except Error Answer) (pages : Nat) : Nat :=
  if !outcome.isOk then pages
  else if call.takesPage then pages + 1
  else if call.givesPage then pages - 1
  else pages

namespace Crowded

def meddle (crowded : Crowded) (call : Call) : Crowded :=
  if call.fair crowded.theirs then
    let (outcome, pager) := call.run crowded.pager
    { crowded with pager, theirs := call.tally outcome crowded.theirs }
  else crowded

def met (crowded : Crowded) : Crowded := (crowded.others crowded.asked).foldl meddle crowded

def ask {α : Type} (act : Access α) : Using Crowded α := fun crowded =>
  let (outcome, pager) := act crowded.met.pager
  (outcome, { crowded.met with pager, asked := crowded.asked + 1 })

def readNode (number : UInt32) (parent : Option (Nat × PageKind)) : Using Crowded Node := do
  let page ← ask (Pager.getPage number)
  ask Pager.releasePage
  match Node.ofPage page parent with
  | .ok node => return node
  | .error reason => throw (.corrupt reason)

theorem readNode_page {crowded after : Crowded} {number : UInt32} {parent : Option (Nat × PageKind)} {node : Node}
    (ran : readNode number parent crowded = (.ok node, after)) :
    ∃ page : Page, page.number = number ∧ Node.ofPage page parent = .ok node := by
  obtain ⟨page, _, taken, ran⟩ := Using.of_bind_ok ran
  obtain ⟨_, _, _, ran⟩ := Using.of_bind_ok ran
  have here : (Pager.getPage number crowded.met.pager).1 = .ok page := (Prod.mk.inj taken).1
  cases decoded : Node.ofPage page parent with
  | error reason =>
    rw [decoded] at ran
    cases ran
  | ok other =>
    rw [decoded] at ran
    cases ran
    exact ⟨page, Pager.getPage_number (Prod.ext here rfl), decoded⟩

instance : Source Crowded where
  header := ask Pager.header
  node := readNode
  given := by
    intro number parent crowded after decoded ran
    obtain ⟨page, rfl, read⟩ := readNode_page ran
    exact Node.ofPage_given read

end Crowded

theorem Pager.Resting.tally {pager : Pager} (resting : pager.Resting) (call : Call) :
    (call.run pager).2.held = call.tally (call.run pager).1 pager.held := by
  obtain ⟨scene, ⟨disk, fresh, moved⟩, idle, rfl⟩ := resting
  have before := (Scene.Reachable.sound ⟨disk, fresh, moved⟩).counted
  have after := (Scene.Reachable.sound ⟨disk, fresh, moved.trans (Scene.steps_run idle call)⟩).counted
  simp only [Scene.successes, Scene.finish, List.countP_cons] at before after
  unfold Call.tally
  cases succeeds : (call.run scene.pager).1.isOk with
  | false =>
    simp only [succeeds, Bool.and_false, Bool.false_eq_true, if_false, Nat.add_zero] at after
    simp only [Bool.not_false, if_true]
    omega
  | true =>
    cases call <;> simp [succeeds, Call.takesPage, Call.givesPage] at before after ⊢ <;> omega

/-- One's pages are counted apart from those of others, as long as only pages that are there
are given back. -/
theorem Call.tally_add (call : Call) (outcome : Except Error Answer) {pages : Nat} (others : Nat)
    (there : call.givesPage = true → pages ≠ 0) :
    call.tally outcome (pages + others) = call.tally outcome pages + others := by
  unfold tally
  split
  · rfl
  · split
    · omega
    · split
      next gives =>
        have some := there gives
        omega
      next => rfl

namespace Crowded

/-- Of the pages that are handed out so many belong to the one who asks. -/
structure Apart (crowded : Crowded) (image : Image) (mine : Nat) : Prop where
  undisturbed : crowded.pager.Undisturbed image
  counted : crowded.pager.held = crowded.theirs + mine

namespace Apart

variable {crowded : Crowded} {image : Image} {mine : Nat}

theorem meddle (apart : crowded.Apart image mine) (call : Call) : (crowded.meddle call).Apart image mine := by
  unfold Crowded.meddle
  split
  next fair =>
    have stays : call ≠ .close := by
      rintro rfl
      cases fair
    have there : call.givesPage = true → crowded.theirs ≠ 0 := by
      intro gives
      cases call <;> cases gives
      simpa [Call.fair] using fair
    refine ⟨apart.undisturbed.call stays, ?_⟩
    rw [apart.undisturbed.abiding.resting.tally call, apart.counted, call.tally_add _ mine there]
  next => exact apart

theorem met (apart : crowded.Apart image mine) : crowded.met.Apart image mine := by
  unfold Crowded.met
  generalize crowded.others crowded.asked = calls
  induction calls generalizing crowded with
  | nil => exact apart
  | cons call calls ih => exact ih (apart.meddle call)

theorem ask {α : Type} (apart : crowded.Apart image mine) (call : Call) (act : Access α) {wrap : α → Answer}
    (same : call.run = Access.answer act wrap) (other : call ≠ .close) (there : call.givesPage = true → mine ≠ 0) :
    ∃ after, Crowded.ask act crowded = ((act crowded.met.pager).1, after) ∧
      after.Apart image (call.tally ((act crowded.met.pager).1.map wrap) mine) := by
  have met := apart.met
  have undisturbed := met.undisturbed.call other
  have counted := met.undisturbed.abiding.resting.tally call
  rw [same] at undisturbed counted
  refine ⟨_, rfl, undisturbed, counted.trans ?_⟩
  rw [met.counted, Nat.add_comm, call.tally_add _ _ there, Nat.add_comm]
  rfl

end Apart

theorem alike_image : Alike fun (crowded : Crowded) (image : Image) => crowded.Apart image 0 where
  header crowded image apart := by
    obtain ⟨_, told, _⟩ := apart.met.undisturbed.serves.header
    obtain ⟨after, asked, kept⟩ := apart.ask .header Pager.header rfl Call.noConfusion (by simp [Call.givesPage])
    rw [told] at asked kept
    refine ⟨image.header, after, image, asked, rfl, ?_⟩
    cases parsed : image.header <;> simpa [parsed, Call.tally, Call.takesPage, Call.givesPage] using kept
  node number parent crowded image apart := by
    obtain ⟨_, told, _⟩ := apart.met.undisturbed.serves.getPage number
    obtain ⟨taken, asked, kept⟩ :=
      apart.ask (.getPage number) (Pager.getPage number) rfl Call.noConfusion (by simp [Call.givesPage])
    rw [told] at asked kept
    cases found : image.page number with
    | error reason =>
      rw [found] at asked kept
      refine ⟨.error reason, taken, image, Using.bind_of_error asked, ?_, kept⟩
      simp [Source.node, Image.node, found]
    | ok page =>
      rw [found] at asked kept
      have one : taken.Apart image 1 := kept
      have held : taken.met.pager.held ≠ 0 := by
        have counted := one.met.counted
        omega
      obtain ⟨_, given, _⟩ := one.met.undisturbed.serves.releasePage held
      obtain ⟨after, returned, kept⟩ := one.ask .releasePage Pager.releasePage rfl Call.noConfusion fun _ => Nat.one_ne_zero
      rw [given] at returned kept
      refine ⟨image.node number parent, after, image, ?_, rfl, kept⟩
      refine (Using.bind_of_ok asked).trans ((Using.bind_of_ok returned).trans ?_)
      simp only [Image.node, found]
      cases Node.ofPage page parent <;> rfl

end Crowded
end SqliteReader

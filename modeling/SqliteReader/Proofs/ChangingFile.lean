import SqliteReader.Pager
import SqliteReader.Proofs.ByteLocks

/-! A pager over a file that another process works on at the same time. Before each thing
that is asked of the pager the other process may have changed the file or its locks. -/

namespace SqliteReader

structure Disturbed where
  pager : Pager
  /-- What the other process does before each thing that is asked. -/
  acts : Nat → List Foreign
  /-- How many things have been asked. -/
  asked : Nat := 0

def Pager.disturb (pager : Pager) (acts : List Foreign) : Pager :=
  { pager with disk := acts.foldl (fun disk act => act.act disk) pager.disk }

namespace Disturbed

def ask {α : Type} (act : Access α) : Using Disturbed α := fun disturbed =>
  let (outcome, pager) := act (disturbed.pager.disturb (disturbed.acts disturbed.asked))
  (outcome, { disturbed with pager, asked := disturbed.asked + 1 })

instance : Source Disturbed where
  header := ask Pager.header
  node page parent := ask (Pager.readNode page parent)
  given ran := Source.given (Prod.ext (Prod.mk.inj ran).1 rfl)

end Disturbed
end SqliteReader

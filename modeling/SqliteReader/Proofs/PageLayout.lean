import SqliteReader.Proofs.TreeFindings

/-! Files laid out page by page. Each page is read back as it was laid out, whatever is on
the others, once the front of the first page has been read as a header. A small file is
laid out here for the runs that other modules show. -/

namespace SqliteReader

namespace Image

def ofPages (pages : List (List UInt8)) : Image := ⟨⟨pages.flatten.toArray⟩⟩

private theorem take_drop_flatten {α : Type} {size : Nat} {blocks : List (List α)} {place : Nat} {block : List α}
    (sizes : ∀ block ∈ blocks, block.length = size) (found : blocks[place]? = some block) :
    (blocks.flatten.drop (place * size)).take size = block := by
  induction blocks generalizing place with
  | nil => simp at found
  | cons first blocks ih =>
    have length := sizes first List.mem_cons_self
    cases place with
    | zero =>
      cases Option.some.inj found
      rw [Nat.zero_mul, List.drop_zero, List.flatten_cons, ← length]
      exact List.take_left
    | succ place =>
      have behind : (place + 1) * size = first.length + place * size := by rw [length, Nat.succ_mul, Nat.add_comm]
      rw [List.flatten_cons, behind, List.drop_length_add_append]
      exact ih (fun block member => sizes block (List.mem_cons_of_mem first member)) found

private theorem length_flatten_blocks {α : Type} {size : Nat} {blocks : List (List α)}
    (sizes : ∀ block ∈ blocks, block.length = size) : blocks.flatten.length = blocks.length * size := by
  rw [List.length_flatten, List.map_congr_left sizes, List.map_const', List.sum_replicate_nat]

theorem extract_ofPages (pages : List (List UInt8)) (start stop : Nat) :
    (ofPages pages).bytes.extract start stop = ⟨((pages.flatten.drop start).take (stop - start)).toArray⟩ := by
  apply ByteArray.ext
  apply Array.toList_inj.mp
  simp [ofPages, ByteArray.data_extract, List.extract_eq_take_drop]

variable {pages : List (List UInt8)} {header : Header}

theorem header_ofPages {first : List UInt8} {others : List (List UInt8)} (enough : Header.size ≤ first.length)
    (parsed : Header.parse (first.take Header.size) = .ok header) :
    (ofPages (first :: others)).header = .ok header := by
  rw [Image.header, extract_ofPages, List.drop_zero, List.flatten_cons, Nat.sub_zero, List.take_append_of_le_length enough,
    parsed]
  rfl

theorem page_ofPages {number : UInt32} {page : List UInt8} (parsed : (ofPages pages).header = .ok header)
    (sizes : ∀ page ∈ pages, page.length = header.pageSize) (inside : number ≤ header.databaseSize)
    (found : pages[number.toNat - 1]? = some page) (counted : number ≠ 0) :
    (ofPages pages).page number = .ok ⟨number, ⟨page.toArray⟩⟩ := by
  have here := (List.getElem?_eq_some_iff.mp found).1
  have room : (number.toNat - 1) * header.pageSize + header.pageSize ≤ (ofPages pages).bytes.size := by
    have bound : (number.toNat - 1 + 1) * header.pageSize ≤ pages.length * header.pageSize := Nat.mul_le_mul_right _ here
    rw [Nat.succ_mul] at bound
    simpa [ofPages, ByteArray.size, length_flatten_blocks sizes] using bound
  have within : ¬ header.databaseSize < number := UInt32.not_lt.mpr inside
  simp only [Image.page, if_neg counted, parsed, Pager.readPage, if_neg within, Disk.read?, opened, ByteRange.stop,
    if_pos room, extract_ofPages, Nat.add_sub_cancel_left, take_drop_flatten sizes found]

end Image

namespace Sample

def header : Header where
  pageSize := 512
  writeVersion := 2
  readVersion := 2
  reservedSpace := 0
  maxEmbeddedPayload := 64
  minEmbeddedPayload := 32
  leafPayload := 32
  changeCounter := 1
  databaseSize := 4
  firstFreelistPage := 0
  freelistSize := 0
  schemaCookie := 7
  schemaFormat := 4
  defaultCacheSize := 0
  largestRootPage := 0
  textEncoding := 1
  userVersion := 0
  incrementalVacuum := 0
  applicationId := 0
  versionValidFor := 1
  writerVersion := 0

def front : List UInt8 := header.front ++ List.replicate 20 0 ++ header.back

def schemaPage : List UInt8 := front ++ [13, 0, 0, 0, 0, 2, 0, 0] ++ List.replicate 404 0

def loopPage : List UInt8 := [5, 0, 0, 0, 1, 1, 251, 0, 0, 0, 0, 2, 1, 251] ++ List.replicate 493 0 ++ [0, 0, 0, 3, 5]

def rowPage : List UInt8 := [13, 0, 0, 0, 1, 1, 249, 0, 1, 249] ++ List.replicate 495 0 ++ [5, 5, 3, 14, 1, 107, 42]

def entryPage : List UInt8 := [10, 0, 0, 0, 1, 1, 250, 0, 1, 250] ++ List.replicate 496 0 ++ [5, 3, 14, 1, 107, 5]

/-- No table, a tree on the second page that has itself as a child behind the third, a row
on the third page, and an entry that points to the row on the fourth. -/
def file : Image := .ofPages [schemaPage, loopPage, rowPage, entryPage]

def row : Record := ⟨5, [⟨14, [107]⟩, ⟨1, [42]⟩]⟩

def entry : Record := ⟨5, [⟨14, [107]⟩]⟩

theorem file_header : file.header = .ok header := Image.header_ofPages (by decide +kernel) (by decide +kernel)

private theorem file_page {number : UInt32} {page : List UInt8} (inside : number ≤ header.databaseSize)
    (found : [schemaPage, loopPage, rowPage, entryPage][number.toNat - 1]? = some page) (counted : number ≠ 0) :
    file.page number = .ok ⟨number, ⟨page.toArray⟩⟩ :=
  Image.page_ofPages file_header (by decide +kernel) inside found counted

def node (page : UInt32) (kind : PageKind) (start : UInt16) (records : Array Record) (children : Array Child)
    (parent : Option Nat) : Node where
  page := page
  kind := kind
  firstFreeblock := 0
  cellCount := 1
  contentStart := start
  fragmentedBytes := 0
  records := records
  children := children
  parent := parent

theorem loop_node :
    file.node 2 none =
      .ok (node 2 .tableInterior 507 #[] #[{ page := 3, key := some (.rowid 5) }, { page := 2, key := none }] none) := by
  rw [Image.node, file_page (by decide) rfl (by decide)]
  decide +kernel

private theorem inner_node :
    file.node 3 (some (0, .tableInterior)) = .ok (node 3 .tableLeaf 505 #[row] #[] (some 0)) := by
  rw [Image.node, file_page (by decide) rfl (by decide)]
  decide +kernel

theorem row_node : file.node 3 none = .ok (node 3 .tableLeaf 505 #[row] #[] none) := by
  rw [Image.node, file_page (by decide) rfl (by decide)]
  decide +kernel

theorem entry_node : file.node 4 none = .ok (node 4 .indexLeaf 506 #[entry] #[] none) := by
  rw [Image.node, file_page (by decide) rfl (by decide)]
  decide +kernel

-- Its bytes have done their part: nothing below should try to compute with them.
attribute [irreducible] file

theorem findings_row : file.findings [] 3 none = [.record row] := by
  rw [@Image.findings_of_node file [] 3 none _ List.not_mem_nil row_node]
  rfl

theorem findings_entry : file.findings [] 4 none = [.record entry] := by
  rw [@Image.findings_of_node file [] 4 none _ List.not_mem_nil entry_node]
  rfl

theorem findings_loop : file.findings [] 2 none = [.record row, .failure (.corrupt (.treeCycle 2))] := by
  have below : file.findings [2] 3 (some .tableInterior) = [.record row] := by
    rw [@Image.findings_of_node file [2] 3 (some .tableInterior) _ (by decide) inner_node]
    rfl
  have again : file.findings [2] 2 (some .tableInterior) = [.failure (.corrupt (.treeCycle 2))] := by
    rw [Image.findings, dif_pos List.mem_cons_self]
  rw [@Image.findings_of_node file [] 2 none _ List.not_mem_nil loop_node]
  simp [node, Node.slots, Node.childSlots, Image.slotFindings, below, again]

end Sample
end SqliteReader

import SqliteReader.Header

/-! The header as a table for people: one line a field, in the order of the file. -/

namespace SqliteReader.Header

def rows (header : Header) : List (String × Nat × String) :=
  [("Page Size (bytes)", header.pageSize, ""),
   ("File Format (write)", header.writeVersion.toNat, "2 = WAL, 1 = Rollback"),
   ("File Format (read)", header.readVersion.toNat, "2 = WAL, 1 = Rollback"),
   ("End of Page Reservation (bytes)", header.reservedSpace.toNat, ""),
   ("Max Embedded Payload (%)", header.maxEmbeddedPayload.toNat, ""),
   ("Min Embedded Payload (%)", header.minEmbeddedPayload.toNat, ""),
   ("Min Leaf Payload (%)", header.leafPayload.toNat, ""),
   ("File Change Counter", header.changeCounter.toNat, ""),
   ("Database Size (pages)", header.databaseSize.toNat, ""),
   ("Freelist First Page (page no)", header.firstFreelistPage.toNat, ""),
   ("Freelist Size (pages)", header.freelistSize.toNat, ""),
   ("Schema Cookie", header.schemaCookie.toNat, ""),
   ("Schema Format Number", header.schemaFormat.toNat, ""),
   ("Suggested Page Cache Size", header.defaultCacheSize.toNat, "deprecated"),
   ("Vacuuming Next Tree (page no)", header.largestRootPage.toNat, ""),
   ("Text Encoding", header.textEncoding.toNat, "1 = UTF-8"),
   ("User Version", header.userVersion.toNat, ""),
   ("Incremental Vacuuming Enabled", header.incrementalVacuum.toNat, ""),
   ("Application ID", header.applicationId.toNat, ""),
   ("Version Valid For", header.versionValidFor.toNat, ""),
   ("SQLite Last Write Version", header.writerVersion.toNat, "")]

/-- Notes line up behind the numbers; a number without a note ends its line. -/
def line (label content note : String) : String :=
  let shown := if note.isEmpty then content else Text.padRight 20 content ++ " # " ++ note
  Text.padRight 34 (label ++ ":") ++ " " ++ shown ++ "\n"

def table (header : Header) : String :=
  line "Magic String" magicText "" ++
    String.join (header.rows.map fun (label, number, note) => line label number.repr note)

end SqliteReader.Header

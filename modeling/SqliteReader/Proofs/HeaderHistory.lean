import SqliteReader.Proofs.AbidingFile

/-! The headers a pager goes by while another process writes. The header is read from the
file each time the SHARED lock is taken, and it holds as long as the lock. What is read is
compared with what was read last, however long ago and whatever failed since, so that the
generation counts the changes between one reading and the next. -/

namespace SqliteReader

namespace Image

/-- The bytes of a page as a header has it: zeros behind the end of the database, and nothing
where the file ends before the page does. -/
def content? (image : Image) (header : Header) (number : UInt32) : Option (List UInt8) :=
  if header.databaseSize < number then some (List.replicate header.pageSize 0)
  else if image.bytes.size < number.toNat * header.pageSize then none
  else some ((image.bytes.data.toList.drop ((number.toNat - 1) * header.pageSize)).take header.pageSize)

private theorem behind_earlier {number : UInt32} (counted : number ≠ 0) (size : Nat) :
    (number.toNat - 1) * size + size = number.toNat * size := by
  have positive : number.toNat ≠ 0 := fun zero => counted (UInt32.toNat_inj.mp zero)
  rw [← Nat.succ_mul, Nat.succ_eq_add_one, Nat.sub_add_cancel (Nat.one_le_iff_ne_zero.mpr positive)]

theorem length_content {image : Image} {header : Header} {number : UInt32} {content : List UInt8} (counted : number ≠ 0)
    (found : image.content? header number = some content) : content.length = header.pageSize := by
  have ends := behind_earlier counted header.pageSize
  unfold content? at found
  split at found
  · cases found
    exact List.length_replicate
  · split at found
    · cases found
    next room =>
      cases found
      rw [List.length_take, List.length_drop, Array.length_toList]
      refine Nat.min_eq_left (Nat.le_sub_of_add_le ?_)
      rw [Nat.add_comm, ends]
      exact Nat.not_lt.mp room

end Image

theorem Pager.readPage_content (pager : Pager) (header : Header) {number : UInt32} (counted : number ≠ 0) :
    pager.readPage number header = match Image.content? ⟨pager.disk.image⟩ header number with
      | some content => .ok ⟨number, ⟨content.toArray⟩⟩
      | none => .error (.io .unexpectedEnd) := by
  have ends := Image.behind_earlier counted header.pageSize
  unfold Pager.readPage Image.content? Disk.read?
  split
  · simp [Page.zeroed]
  · simp only [ByteRange.stop, ends]
    by_cases short : pager.disk.image.size < number.toNat * header.pageSize
    · rw [if_pos short, if_neg (Nat.not_le.mpr short)]
    · rw [if_neg short, if_pos (Nat.not_lt.mp short)]
      have same : pager.disk.image.extract ((number.toNat - 1) * header.pageSize) (number.toNat * header.pageSize) =
          ⟨((pager.disk.image.data.toList.drop ((number.toNat - 1) * header.pageSize)).take header.pageSize).toArray⟩ := by
        apply ByteArray.ext
        apply Array.toList_inj.mp
        simp [ByteArray.data_extract, List.extract_eq_take_drop, ← ends]
      simp only [same]

namespace Call

/-- The call hands out a header, or a page where a header has it. -/
def goesByHeader : Call → Bool
  | .getPage number => number ≠ 0
  | .header => true
  | _ => false

def giving (call : Call) (image : Image) (header : Header) : Except Error Answer :=
  match call with
  | .getPage number =>
    match image.content? header number with
    | some content => .ok (.page ⟨number, ⟨content.toArray⟩⟩)
    | none => .error (.io .unexpectedEnd)
  | _ => .ok (.header header)

variable {call : Call} {pager : Pager} {header : Header}

theorem giving_page {number : UInt32} (counted : number ≠ 0) (image : Image) (header : Header) :
    (∀ answer, giving (.getPage number) image header = .ok answer →
      ∃ content, answer = .page ⟨number, ⟨content.toArray⟩⟩ ∧ image.content? header number = some content ∧
        content.length = header.pageSize) ∧
    ∀ reason, giving (.getPage number) image header = .error reason ↔
      reason = .io .unexpectedEnd ∧ number ≤ header.databaseSize ∧
        image.bytes.size < number.toNat * header.pageSize := by
  have short : image.content? header number = none ↔
      number ≤ header.databaseSize ∧ image.bytes.size < number.toNat * header.pageSize := by
    unfold Image.content?
    split
    next outside => simp [UInt32.not_le.mpr outside]
    next inside =>
      split
      next short => simp [UInt32.not_lt.mp inside, short]
      next room => simp [room]
  rw [← short]
  unfold giving
  cases found : image.content? header number with
  | none => simp [found, eq_comm]
  | some content =>
    refine ⟨?_, by simp [found]⟩
    intro answer same
    simp only [found] at same
    cases same
    exact ⟨content, rfl, rfl, Image.length_content counted found⟩

theorem page_or_header (goes : call.goesByHeader = true) : (∃ number ≠ 0, call = .getPage number) ∨ call = .header := by
  cases call with
  | getPage number => exact .inl ⟨number, by simpa [goesByHeader] using goes, rfl⟩
  | header => exact .inr rfl
  | releasePage | lock | unlock | close => cases goes

theorem wantsShared_of_goes (goes : call.goesByHeader = true) : call.wantsShared = true := by
  rcases page_or_header goes with ⟨number, _, rfl⟩ | rfl
  · exact goes
  · rfl

theorem follow_gives (goes : call.goesByHeader = true) :
    (call.follow header pager).1 = call.giving ⟨pager.disk.image⟩ header := by
  rcases page_or_header goes with ⟨number, counted, rfl⟩ | rfl
  · simp only [follow, giving, pager.readPage_content header counted]
    cases Image.content? ⟨pager.disk.image⟩ header number <;> rfl
  · rfl

theorem run_gives (goes : call.goesByHeader = true) (ensured : Pager.ensureShared pager = (.ok header, pager)) :
    (call.run pager).1 = call.giving ⟨pager.disk.image⟩ header := by
  rcases page_or_header goes with ⟨number, counted, rfl⟩ | rfl
  · simp only [run, Access.answer, Pager.getPage, if_neg counted, ensured, giving,
      pager.readPage_content header counted]
    cases Image.content? ⟨pager.disk.image⟩ header number <;> rfl
  · simp [run, Access.answer, Pager.header, ensured, giving, Except.map]

theorem run_refused {reason : Error} {after : Pager} (goes : call.goesByHeader = true)
    (ensured : Pager.ensureShared pager = (.error reason, after)) : (call.run pager).1 = .error reason := by
  rcases page_or_header goes with ⟨number, counted, rfl⟩ | rfl
  · simp [run, Access.answer, Pager.getPage, counted, ensured, Except.map]
  · simp [run, Access.answer, Pager.header, ensured, Except.map]

end Call

theorem Pager.Effect.generation {pager after : Pager} {call : Call} {outcome : Except Error Answer}
    (effect : pager.Effect call outcome after) : after.generation = pager.generation := by
  have drops (pager : Pager) : pager.dropIdleLock.generation = pager.generation := by
    unfold Pager.dropIdleLock
    split <;> rfl
  cases effect with
  | unread => exact drops pager
  | toldIdle => exact drops pager
  | returned held => exact drops _
  | refused | handed | told | locked | unlocked | closed => rfl

/-- How many headers show another schema cookie than the one read just before. -/
def Header.changes (headers : List Header) : Nat :=
  (headers.zip headers.tail).countP fun (later, earlier) => later.schemaCookie != earlier.schemaCookie

namespace Header

theorem changes_cons (header : Header) (headers : List Header) :
    changes (header :: headers) =
      changes headers + if headers.head?.any (·.schemaCookie != header.schemaCookie) then 1 else 0 := by
  cases headers with
  | nil => rfl
  | cons earlier rest => simp [changes, List.countP_cons, bne_comm]

private theorem head_around (read earlier : List Header) :
    (read ++ earlier).head? = (read ++ earlier.head?.toList).head? := by
  cases read <;> cases earlier <;> rfl

theorem same_cookie {earlier read : List Header} (same : changes (read ++ earlier) = changes earlier) :
    ∃ cookie, ∀ header ∈ read ++ earlier.head?.toList, header.schemaCookie = cookie := by
  have grows (read : List Header) : changes earlier ≤ changes (read ++ earlier) := by
    induction read with
    | nil => exact Nat.le_refl _
    | cons header read ih =>
      rw [List.cons_append, changes_cons]
      omega
  induction read with
  | nil => exact ⟨earlier.head?.elim 0 (·.schemaCookie), fun header member => by simp [Option.mem_toList.mp member]⟩
  | cons latest read ih =>
    rw [List.cons_append, changes_cons] at same
    have before := grows read
    obtain ⟨cookie, alike⟩ := ih (by omega)
    cases around : read ++ earlier.head?.toList with
    | nil => exact ⟨latest.schemaCookie, by simp [around]⟩
    | cons last rest =>
      rw [head_around, around] at same
      have unchanged : last.schemaCookie = latest.schemaCookie := by
        by_contra changed
        simp [changed] at same
        omega
      have known : last.schemaCookie = cookie := alike last (by simp [around])
      refine ⟨cookie, ?_⟩
      intro header member
      rw [List.cons_append] at member
      rcases List.mem_cons.mp member with rfl | other
      · exact unchanged.symm.trans known
      · exact alike header other

end Header

/-- What became of the headers in a history, the latest first. -/
structure Account where
  read : List Header := []
  /-- Those that were handed out, or used for a page. -/
  used : List Header := []
  /-- What was read when the SHARED lock was taken that is held now. -/
  since : Option Header := none

namespace Scene

def front (scene : Scene) : Except Error Header := Image.header ⟨scene.pager.disk.image⟩

/-- The header for the call that ends now, as the pager picks it. -/
def ensured (scene : Scene) : Except Error Header :=
  match scene.underway with
  | some (_, progress) => (scene.pager.settleShared (progress = .granted)).1
  | none => (Pager.ensureShared scene.pager).1

def read? (scene : Scene) : Option Header :=
  match scene.underway with
  | some (_, .granted) => scene.front.toOption
  | _ => none

def used? (scene : Scene) (call : Call) : Option Header :=
  if call.goesByHeader then scene.ensured.toOption else none

def accounted (scene next : Scene) (call : Call) (account : Account) : Account where
  read := scene.read?.toList ++ account.read
  used := (scene.used? call).toList ++ account.used
  since :=
    if next.pager.level = .none then none
    else if scene.pager.level = .none then scene.read?
    else account.since

/-- A history with the account kept along the way. -/
inductive Course (account : Account) (scene : Scene) : Account → Scene → Prop
  | start : Course account scene account scene
  | quiet {middle : Account} {before after : Scene} (course : Course account scene middle before)
      (moved : Step before after) (same : after.past = before.past) : Course account scene middle after
  | ends {middle : Account} {before after : Scene} {call : Call} {outcome : Except Error Answer}
      (course : Course account scene middle before) (moved : Step before after)
      (ended : after.past = (call, outcome) :: before.past) :
      Course account scene (before.accounted after call middle) after

/-- The header that a call has to go by, if there is one. -/
inductive Ruling (account : Account) (scene : Scene) : Except Error Header → Prop
  | fresh {call : Call} (free : scene.pager.level = .none) (granted : scene.underway = some (call, .granted)) :
      Ruling account scene scene.front
  | kept {header : Header} (shared : scene.pager.level = .shared) (idle : scene.underway = none)
      (since : account.since = some header) : Ruling account scene (.ok header)
  | busy {call : Call} (free : scene.pager.level = .none) (refused : scene.underway = some (call, .busy)) :
      Ruling account scene (.error (.lock .busy))
  | closed (free : scene.pager.level = .none) (idle : scene.underway = none) (shut : scene.pager.isOpen = false) :
      Ruling account scene (.error .closed)

/-- The books of the pager agree with the account. -/
structure Fits (scene : Scene) (account : Account) : Prop where
  known : scene.pager.known = account.read.head?
  generation : scene.pager.generation = Header.changes account.read
  since : scene.pager.level = .shared → account.since = scene.pager.known

variable {account later : Account} {scene next last : Scene} {call : Call} {outcome : Except Error Answer}

theorem Course.of_steps (moved : Steps scene last) (account : Account) : ∃ later, Course account scene later last := by
  induction moved with
  | refl => exact ⟨account, .start⟩
  | tail _ moved ih =>
    obtain ⟨middle, course⟩ := ih
    have step := moved
    cases moved with
    | foreign | begin | advance => exact ⟨middle, course.quiet step rfl⟩
    | direct | grant | refuse => exact ⟨_, course.ends step rfl⟩

theorem Course.steps (course : Course account scene later last) : Steps scene last := by
  induction course with
  | start => exact .refl
  | quiet _ moved _ ih => exact ih.tail moved
  | ends _ moved _ ih => exact ih.tail moved

theorem Step.quiet (moved : Step scene next) (same : next.past = scene.past) :
    next.pager.level = scene.pager.level ∧ next.pager.known = scene.pager.known ∧
      next.pager.generation = scene.pager.generation := by
  cases moved with
  | foreign | begin | advance => exact ⟨rfl, rfl, rfl⟩
  | direct | grant | refuse => exact absurd same (List.cons_ne_self _ _)

theorem Step.ends (moved : Step scene next) (ended : next.past = (call, outcome) :: scene.past) :
    (scene.underway = none ∧ ¬ call.Acquires scene.pager ∧ next.pager = (call.run scene.pager).2 ∧
      outcome = (call.run scene.pager).1) ∨
    ∃ granted, scene.underway = some (call, if granted then .granted else .busy) ∧
      next.pager = (call.resume granted scene.pager).2 ∧ outcome = (call.resume granted scene.pager).1 := by
  cases moved with
  | foreign | begin | advance => exact absurd ended.symm (List.cons_ne_self _ _)
  | direct idle direct =>
    cases ended
    exact .inl ⟨idle, direct, rfl, rfl⟩
  | grant underway =>
    cases ended
    exact .inr ⟨true, underway, rfl, rfl⟩
  | refuse underway =>
    cases ended
    exact .inr ⟨false, underway, rfl, rfl⟩

theorem settle_granted {pager : Pager} (acquiring : pager.Acquiring .granted) :
    pager.settleShared true = match Image.header ⟨pager.disk.image⟩ with
      | .ok header => (.ok header, { pager with level := .shared }.learn header)
      | .error reason => (.error reason, { pager with level := .shared }.dropLock) := by
  simp only [Pager.settleShared, if_true, Pager.refresh, if_pos acquiring.isOpen, Image.header]
  cases Header.parse (pager.disk.image.extract 0 Header.size).data.toList with
  | ok header => rfl
  | error reason => simp [Except.mapError, Pager.dropIdleLock, acquiring.idle]

theorem Sound.step_ruled (sound : scene.Sound) (fits : scene.Fits account) (moved : Step scene next)
    (ended : next.past = (call, outcome) :: scene.past) (goes : call.goesByHeader = true) :
    Ruling account scene scene.ensured ∧
      outcome = scene.ensured.bind (call.giving ⟨scene.pager.disk.image⟩) := by
  rcases moved.ends ended with ⟨idle, direct, -, came⟩ | ⟨granted, underway, -, came⟩
  · have kept := sound.between idle
    have picked : scene.ensured = (Pager.ensureShared scene.pager).1 := by rw [ensured, idle]
    rcases kept.level with free | shared
    · have shut : ¬ scene.pager.isOpen = true := fun isOpen => direct ⟨Call.wantsShared_of_goes goes, free, isOpen⟩
      have refused : Pager.ensureShared scene.pager = (.error .closed, scene.pager) := by
        rw [Pager.ensureShared, if_pos free, Pager.acquireShared_closed shut]
      rw [picked, refused, came, Call.run_refused goes refused]
      exact ⟨.closed free idle (Bool.eq_false_iff.mpr shut), rfl⟩
    · obtain ⟨header, known, same⟩ := kept.ensureShared_shared shared
      rw [picked, same, came, Call.run_gives goes same]
      exact ⟨.kept shared idle ((fits.since shared).trans known), rfl⟩
  · have acquiring := (sound.within _ _ underway).2
    cases granted with
    | false =>
      have picked : scene.ensured = .error (.lock .busy) := by simp [ensured, underway, Pager.settleShared]
      rw [picked, came]
      exact ⟨.busy acquiring.free underway, rfl⟩
    | true =>
      have settled := settle_granted acquiring
      have picked : scene.ensured = scene.front := by
        simp only [ensured, underway, if_true, decide_true, settled, front]
        split <;> simp_all
      refine ⟨picked ▸ .fresh acquiring.free underway, ?_⟩
      rw [picked, came, front, Call.resume, settled]
      cases Image.header ⟨scene.pager.disk.image⟩ with
      | error reason => rfl
      | ok header => exact Call.follow_gives goes

theorem Fits.step (fits : scene.Fits account) (sound : scene.Sound) (moved : Step scene next)
    (ended : next.past = (call, outcome) :: scene.past) : next.Fits (scene.accounted next call account) := by
  rcases moved.ends ended with ⟨idle, direct, left, -⟩ | ⟨granted, underway, left, -⟩
  · have effect := (sound.between idle).run_effect direct
    rw [← left] at effect
    have nothing : scene.read? = none := by rw [read?, idle]
    refine ⟨?_, ?_, ?_⟩
    · simpa [accounted, nothing] using effect.known.trans fits.known
    · simpa [accounted, nothing] using effect.generation.trans fits.generation
    · intro shared
      have before := effect.shared (sound.between idle) shared
      simpa [accounted, shared, before] using (fits.since before).trans effect.known.symm
  · obtain ⟨wants, acquiring⟩ := sound.within _ _ underway
    cases granted with
    | false =>
      have nothing : scene.read? = none := by simp [read?, underway]
      have same : next.pager = scene.pager := left
      rw [accounted, nothing]
      refine ⟨same ▸ fits.known, same ▸ fits.generation, ?_⟩
      intro shared
      cases (same ▸ acquiring.free).symm.trans shared
    | true =>
      have read : scene.read? = scene.front.toOption := by simp [read?, underway]
      rw [Call.resume, settle_granted acquiring] at left
      rw [accounted, read, front]
      cases parsed : Image.header ⟨scene.pager.disk.image⟩ with
      | error reason =>
        simp only [parsed] at left
        have free : next.pager.level = .none := congrArg Pager.level left
        refine ⟨(congrArg Pager.known left).trans fits.known, (congrArg Pager.generation left).trans fits.generation, ?_⟩
        intro shared
        cases free.symm.trans shared
      | ok header =>
        simp only [parsed] at left
        have effect : ({ scene.pager with level := .shared }.learn header).Effect call _ _ :=
          Pager.follow_effect header wants rfl
        rw [← left] at effect
        have known : next.pager.known = some header := effect.known
        refine ⟨known, ?_, ?_⟩
        · rw [effect.generation]
          simp only [Pager.learn, fits.known, fits.generation, Except.toOption, Option.toList_some, List.singleton_append,
            Header.changes_cons]
          split <;> rfl
        · intro shared
          simp [shared, acquiring.free, known, Except.toOption]

theorem Course.sound (course : Course account scene later last) (sound : scene.Sound) : last.Sound :=
  sound.steps course.steps

theorem Course.fits (course : Course account scene later last) (sound : scene.Sound) (fits : scene.Fits account) :
    last.Fits later := by
  induction course with
  | start => exact fits
  | quiet course moved same ih =>
    obtain ⟨level, known, generation⟩ := moved.quiet same
    exact ⟨known.trans ih.known, generation.trans ih.generation, fun shared => (ih.since (level ▸ shared)).trans known.symm⟩
  | ends course moved ended ih => exact ih.step (course.sound sound) moved ended

theorem Ruling.read {picked : Except Error Header} {header : Header} (ruling : Ruling account scene picked)
    (fits : scene.Fits account) (found : picked = .ok header) :
    (scene.read?.toList ++ account.read).head? = some header := by
  cases ruling with
  | fresh free granted => simp [read?, granted, found, Except.toOption]
  | kept shared idle since =>
    cases found
    simpa [read?, idle] using fits.known.symm.trans ((fits.since shared).symm.trans since)
  | busy | closed => cases found

theorem Fits.used_read {header : Header} (fits : scene.Fits account) (sound : scene.Sound) (moved : Step scene next)
    (ended : next.past = (call, outcome) :: scene.past) (used : scene.used? call = some header) :
    (scene.read?.toList ++ account.read).head? = some header := by
  unfold used? at used
  split at used
  next goes =>
    have ruling := (sound.step_ruled fits moved ended goes).1
    cases picked : scene.ensured with
    | error reason => simp [picked, Except.toOption] at used
    | ok chosen =>
      obtain rfl : chosen = header := by simpa [picked, Except.toOption] using used
      exact ruling.read fits picked
  next => cases used

/-- What an account gains. Nothing is used that was not read meanwhile, or as the last before. -/
theorem Course.gains (course : Course account scene later last) (sound : scene.Sound) (fits : scene.Fits account) :
    ∃ read used, later.read = read ++ account.read ∧ later.used = used ++ account.used ∧
      ∀ header ∈ used, header ∈ read ++ account.read.head?.toList := by
  induction course with
  | start => exact ⟨[], [], rfl, rfl, fun _ impossible => by cases impossible⟩
  | quiet course moved same ih => exact ih
  | @ends middle before after call outcome course moved ended ih =>
    obtain ⟨read, used, reads, uses, within⟩ := ih
    refine ⟨before.read?.toList ++ read, (before.used? call).toList ++ used, ?_, ?_, ?_⟩
    · rw [accounted, reads, List.append_assoc]
    · rw [accounted, uses, List.append_assoc]
    · intro header member
      rcases List.mem_append.mp member with now | earlier
      · have latest := (course.fits sound fits).used_read (course.sound sound) moved ended (Option.mem_toList.mp now)
        rw [reads, ← List.append_assoc, Header.head_around] at latest
        exact List.mem_of_head? latest
      · rw [List.append_assoc]
        exact List.mem_append_right _ (within header earlier)

/-- Whatever another process writes meanwhile, a call that has to take the lock goes by what
the file says then, and a call under the lock by what it said when the lock was taken. Of the
pages it gives those bytes that the file has now. The generation counts the changes of the
cookie from one reading to the next, so that nothing with another cookie is read or used
while it stays the same. -/
theorem headers_follow_file {disk : Disk} (fresh : disk.own = {}) :
    (∀ scene, Steps { pager := { disk } } scene → ∃ account, Course {} { pager := { disk } } account scene) ∧
    (∀ number image header, number ≠ 0 →
      (∀ answer, Call.giving (.getPage number) image header = .ok answer →
        ∃ content, answer = .page ⟨number, ⟨content.toArray⟩⟩ ∧ image.content? header number = some content ∧
          content.length = header.pageSize) ∧
      ∀ reason, Call.giving (.getPage number) image header = .error reason ↔
        reason = .io .unexpectedEnd ∧ number ≤ header.databaseSize ∧
          image.bytes.size < number.toNat * header.pageSize) ∧
    ∀ account scene, Course {} { pager := { disk } } account scene →
      (∀ next call outcome, Step scene next → next.past = (call, outcome) :: scene.past → call.goesByHeader = true →
        Ruling account scene scene.ensured ∧
          outcome = scene.ensured.bind (call.giving ⟨scene.pager.disk.image⟩)) ∧
      scene.pager.generation = Header.changes account.read ∧
      ∀ later last, Course account scene later last →
        ∃ read used, later.read = read ++ account.read ∧ later.used = used ++ account.used ∧
          (last.pager.generation = scene.pager.generation →
            ∃ cookie, ∀ header ∈ read ++ used, header.schemaCookie = cookie) := by
  refine ⟨fun _ moved => Course.of_steps moved {}, fun _ image header counted => Call.giving_page counted image header, ?_⟩
  intro account scene course
  have opened : Sound { pager := { disk } } := .opened fresh
  have nothing : Fits { pager := { disk } } {} := ⟨rfl, rfl, fun impossible => by cases impossible⟩
  have sound := course.sound opened
  have fits := course.fits opened nothing
  refine ⟨fun _ _ _ moved ended goes => sound.step_ruled fits moved ended goes, fits.generation, ?_⟩
  intro later last further
  obtain ⟨read, used, reads, uses, within⟩ := further.gains sound fits
  refine ⟨read, used, reads, uses, ?_⟩
  intro same
  rw [(further.fits sound fits).generation, fits.generation, reads] at same
  obtain ⟨cookie, alike⟩ := Header.same_cookie same
  refine ⟨cookie, ?_⟩
  intro header member
  rcases List.mem_append.mp member with meanwhile | gone
  · exact alike header (List.mem_append_left _ meanwhile)
  · exact alike header (within header gone)

theorem headers_follow_file_page :
    ∃ account scene, Course {} { pager := Sample.file.opened } account scene ∧ scene.pager.held = 1 ∧
      scene.pager.generation = Header.changes account.read := by
  obtain ⟨every, _, along⟩ := @headers_follow_file Sample.file.opened.disk rfl
  obtain ⟨account, course⟩ := every _ (steps_run rfl (.getPage 9))
  exact ⟨account, _, course, held_behind, (along account _ course).2.1⟩

end Scene
end SqliteReader

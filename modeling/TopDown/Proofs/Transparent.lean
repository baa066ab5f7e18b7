import TopDown.Proofs.Share

/-!
# What is kept of files does not show

A folder of bars keeps what it has read of a file until the time of the file's last change differs.
Files come and go meanwhile, and the folder does not look at each of them: a file may be removed and
come back between two reads, a malformed one leaves what was kept before, and the time of a change may
lie before that of the change it follows. Here it is shown that nobody can tell. As long as two
versions of a file with the same time say the same (`TopDown.BarFiles.Stamped`), every question is
answered as by a folder of which nothing has been read (`TopDown.BarFiles.serve_transparent`).

What carries the proof is that everything that is kept was read in some version of its file
(`TopDown.BarFiles.Sound`), though not always in the last one that was there. If that version has the
time of the file at hand, it says the same, and so reading the file again would give the same bars.
-/

namespace TopDown.BarFiles

/-! ### Histories of a folder -/

/-- What happens to a folder and to the files in it. -/
inductive Event where
  /-- Something else is found under a path from now on: a file that is written, or nothing once a
  file is removed. -/
  | change (path : String) (found : Found)
  /-- The latest bars of a symbol are asked for. -/
  | bars (symbol : String) (tf : Timeframe) (limit : UInt64)
  /-- The latest bar of a symbol is asked for. -/
  | last (symbol : String) (tf : Timeframe)

/-- The answer to a question for bars, which may be a fault. -/
inductive Answer where
  /-- The latest bars. -/
  | bars (answer : Except Stop (List Bar))
  /-- The latest bar. -/
  | last (answer : Except Stop (Option Bar))

/-- What a folder answers, and what becomes of it. A change of the files passes it unseen. -/
def next (folder : String) (b : BarFiles) : Event → Option Answer × BarFiles
  | .change path found => (none, { b with disk := b.disk.update path found })
  | .bars symbol tf limit =>
    let (answer, b) := (source folder).bars symbol tf limit b
    (some (.bars answer), b)
  | .last symbol tf =>
    let (answer, b) := (source folder).last symbol tf b
    (some (.last answer), b)

/-- The answers of one folder to all the questions of a history. -/
def serve (folder : String) : BarFiles → List Event → List Answer
  | _, [] => []
  | b, e :: rest => (next folder b e).1.toList ++ serve folder (next folder b e).2 rest

/-- The answers of many folders to the questions of a history. Each question is put to a new one, of
which nothing has been read. -/
def serveAnew (folder : String) : Disk → List Event → List Answer
  | _, [] => []
  | d, e :: rest =>
    (next folder (unread d) e).1.toList ++ serveAnew folder (next folder (unread d) e).2.disk rest

/-- A version of the file under a path: one that was there in the beginning, or that is written. -/
def Version (d : Disk) (events : List Event) (path : String) (f : StoredFile) : Prop :=
  d path = .file f ∨ .change path (.file f) ∈ events

/-- **Versions of a file with the same time say the same.** -/
def Stamped (versions : String → StoredFile → Prop) : Prop :=
  ∀ path f g, versions path f → versions path g → f.modified = g.modified → f.text = g.text

/-! ### What is kept -/

/-- **What is kept was read**: all files at hand are among the given versions, and so is a file with
the bars and the time of each entry. -/
structure Sound (folder : String) (versions : String → StoredFile → Prop) (b : BarFiles) : Prop where
  /-- The files at hand. -/
  disk : ∀ p f, b.disk p = .file f → versions p f
  /-- The entries that are kept. -/
  kept : ∀ symbol tf modified bars, b.kept.lookup (symbol, tf) = some (modified, bars) →
    ∃ f, versions (path folder symbol tf) f ∧ f.modified = modified ∧
      parseFile folder symbol tf f.text = .ok bars

section Soundness

variable {folder : String} {versions : String → StoredFile → Prop} {b : BarFiles}

theorem sound_unread {d : Disk} (h : ∀ p f, d p = .file f → versions p f) :
    Sound folder versions (unread d) where
  disk := h
  kept symbol tf modified bars hlookup := by
    rw [unread, List.lookup_nil] at hlookup
    cases hlookup

/-- Another file does no harm to what is kept, even where it takes the place of the one that was
read. -/
theorem Sound.update (h : Sound folder versions b) {p : String} {found : Found}
    (hfound : ∀ f, found = .file f → versions p f) :
    Sound folder versions { b with disk := b.disk.update p found } where
  disk q f hq := by
    change (if q = p then found else b.disk q) = .file f at hq
    split at hq
    · rename_i heq
      rw [heq]
      exact hfound f hq
    · exact h.disk q f hq
  kept := h.kept

/-- Nothing is said of an entry that is forgotten. -/
theorem Sound.forget (h : Sound folder versions b) (symbol : String) (tf : Timeframe) :
    Sound folder versions { b with kept := forget symbol tf b.kept } where
  disk := h.disk
  kept s t modified bars hlookup := by
    rw [lookup_forget] at hlookup
    split at hlookup
    · cases hlookup
    · exact h.kept s t modified bars hlookup

/-- Reading a file anew leaves its own bars and time, or what was kept before. -/
theorem Sound.reread (h : Sound folder versions b) {symbol : String} {tf : Timeframe}
    {f : StoredFile} (hf : versions (path folder symbol tf) f) :
    Sound folder versions (reread folder symbol tf f b).2 := by
  unfold BarFiles.reread
  cases hparse : parseFile folder symbol tf f.text with
  | error stop => exact h
  | ok bars =>
    refine ⟨h.disk, fun s t modified bars' hlookup => ?_⟩
    rw [List.lookup_cons] at hlookup
    by_cases hkey : (s, t) = (symbol, tf)
    · rw [hkey, beq_self_eq_true] at hlookup
      obtain ⟨rfl, rfl⟩ := Prod.mk.inj (Option.some.inj hlookup)
      obtain ⟨rfl, rfl⟩ := Prod.mk.inj hkey
      exact ⟨f, hf, rfl, hparse⟩
    · rw [beq_false_of_ne hkey] at hlookup
      exact (h.forget symbol tf).kept s t modified bars' hlookup

/-- The answer of a file that is read anew is what the file says. -/
theorem reread_fst (folder symbol : String) (tf : Timeframe) (f : StoredFile) (b : BarFiles) :
    (reread folder symbol tf f b).1 = parseFile folder symbol tf f.text := by
  unfold reread
  cases parseFile folder symbol tf f.text <;> rfl

/-- **A look into a file** tells what the file says, and leaves what is kept sound. -/
theorem Sound.read (h : Sound folder versions b) (hstamped : Stamped versions) (symbol : String)
    (tf : Timeframe) :
    (read folder symbol tf b).1 = fresh b.disk folder symbol tf ∧
      Sound folder versions (read folder symbol tf b).2 := by
  unfold BarFiles.read fresh
  cases hfound : b.disk (path folder symbol tf) with
  | nothing => exact ⟨rfl, h.forget symbol tf⟩
  | unreadable reason => exact ⟨rfl, h⟩
  | file f =>
    have hf := h.disk _ f hfound
    cases hlookup : b.kept.lookup (symbol, tf) with
    | none => exact ⟨reread_fst folder symbol tf f b, h.reread hf⟩
    | some e =>
      obtain ⟨modified, bars⟩ := e
      dsimp only
      split
      · -- the entry was read in a version of the same time, and so of the same text
        rename_i hmodified
        obtain ⟨g, hg, hgm, hparse⟩ := h.kept symbol tf modified bars hlookup
        have htext : g.text = f.text := hstamped _ g f hg hf (hgm.trans hmodified)
        rw [← htext]
        exact ⟨hparse.symm, h⟩
      · exact ⟨reread_fst folder symbol tf f b, h.reread hf⟩

/-- There is one version of each file that is at hand. -/
theorem stamped_disk (d : Disk) : Stamped fun p f => d p = .file f := by
  intro p f g hf hg _
  obtain rfl : f = g := Found.file.inj (hf.symm.trans hg)
  rfl

/-- A folder of which nothing has been read tells what the file says. -/
theorem read_unread (d : Disk) (folder symbol : String) (tf : Timeframe) :
    (read folder symbol tf (unread d)).1 = fresh d folder symbol tf :=
  ((sound_unread fun _ _ h => h).read (stamped_disk d) symbol tf).1

/-- Reading changes no file. -/
theorem disk_read (folder symbol : String) (tf : Timeframe) (b : BarFiles) :
    (read folder symbol tf b).2.disk = b.disk := by
  have hreread (f : StoredFile) : (BarFiles.reread folder symbol tf f b).2.disk = b.disk := by
    unfold BarFiles.reread
    cases parseFile folder symbol tf f.text <;> rfl
  unfold BarFiles.read
  cases b.disk (path folder symbol tf) with
  | nothing => rfl
  | unreadable reason => rfl
  | file f =>
    cases b.kept.lookup (symbol, tf) with
    | none => exact hreread f
    | some e =>
      dsimp only
      split
      · rfl
      · exact hreread f

/-- **One event**: a folder answers like one of which nothing has been read, has the same files
afterwards, and what it keeps stays sound. -/
theorem Sound.next (h : Sound folder versions b) (hstamped : Stamped versions) (e : Event)
    (he : ∀ p f, e = .change p (.file f) → versions p f) :
    (next folder b e).1 = (next folder (unread b.disk) e).1 ∧
      (next folder b e).2.disk = (next folder (unread b.disk) e).2.disk ∧
      Sound folder versions (next folder b e).2 := by
  cases e with
  | change p found =>
    refine ⟨rfl, rfl, h.update fun f hfound => he p f ?_⟩
    rw [hfound]
  | bars symbol tf limit =>
    obtain ⟨hanswer, hsound⟩ := h.read hstamped symbol tf
    refine ⟨?_, ?_, hsound⟩
    · show some (Answer.bars ((BarFiles.read folder symbol tf b).1.map _)) =
        some (Answer.bars ((BarFiles.read folder symbol tf (unread b.disk)).1.map _))
      rw [hanswer, read_unread]
    · exact (disk_read folder symbol tf b).trans (disk_read folder symbol tf (unread b.disk)).symm
  | last symbol tf =>
    obtain ⟨hanswer, hsound⟩ := h.read hstamped symbol tf
    refine ⟨?_, ?_, hsound⟩
    · show some (Answer.last ((BarFiles.read folder symbol tf b).1.map _)) =
        some (Answer.last ((BarFiles.read folder symbol tf (unread b.disk)).1.map _))
      rw [hanswer, read_unread]
    · exact (disk_read folder symbol tf b).trans (disk_read folder symbol tf (unread b.disk)).symm

/-- A whole history of a folder whose entries are sound. -/
theorem Sound.serve (hstamped : Stamped versions) {events : List Event}
    (hevents : ∀ p f, .change p (.file f) ∈ events → versions p f)
    (h : Sound folder versions b) : serve folder b events = serveAnew folder b.disk events := by
  induction events generalizing b with
  | nil => rfl
  | cons e rest ih =>
    obtain ⟨hanswer, hdisk, hsound⟩ := h.next hstamped e fun p f he =>
      hevents p f (List.mem_cons.mpr (.inl he.symm))
    have hrest := ih (fun p f hf => hevents p f (List.mem_cons_of_mem e hf)) hsound
    rw [BarFiles.serve, serveAnew, hanswer, hrest, hdisk]

end Soundness

/-! ### Folders that start without entries -/

/-- **Keeping what was read is transparent**: if versions of a file with the same time say the same,
then one folder answers all questions of a history like folders that read every file anew. -/
theorem serve_transparent (folder : String) (d : Disk) (events : List Event)
    (h : Stamped (Version d events)) :
    serve folder (unread d) events = serveAnew folder d events :=
  Sound.serve h (fun _ _ hf => .inr hf) (sound_unread fun _ _ hf => .inl hf)

/-- A file of one bar. -/
def oneBar : StoredFile :=
  ⟨"open_time,open,high,low,close,volume\n0,1,2,1,2,10\n", 5⟩

/-- A file is spoiled, removed without a look, and comes back as it was, with the old time. -/
def comeback : List Event :=
  let p := path "bars" "BTCUSDT" .h1
  [.change p (.file oneBar), .bars "BTCUSDT" .h1 10,
    .change p (.file ⟨"no header", 9⟩), .last "BTCUSDT" .h1,
    .change p .nothing, .change p (.file oneBar), .last "BTCUSDT" .h1]

/-- The last answer is what was kept of the first look, and it is right. -/
theorem serve_comeback : Stamped (Version Disk.empty comeback) ∧
    serve "bars" (unread Disk.empty) comeback = serveAnew "bars" Disk.empty comeback := by
  have hversion (p : String) (f : StoredFile) (h : Version Disk.empty comeback p f) :
      f = oneBar ∨ f = ⟨"no header", 9⟩ := by
    rcases h with h | h
    · cases h
    · simp only [comeback, List.mem_cons, Event.change.injEq, Found.file.injEq, reduceCtorEq,
        List.not_mem_nil, and_false, or_false, false_or] at h
      rcases h with ⟨-, h⟩ | ⟨-, h⟩ | ⟨-, h⟩
      · exact .inl h
      · exact .inr h
      · exact .inl h
  have hstamped : Stamped (Version Disk.empty comeback) := by
    intro p f g hf hg hm
    rcases hversion p f hf with rfl | rfl <;> rcases hversion p g hg with rfl | rfl
    · rfl
    · exact absurd hm (by decide)
    · exact absurd hm (by decide)
    · rfl
  exact ⟨hstamped, serve_transparent "bars" Disk.empty comeback hstamped⟩

end TopDown.BarFiles

/-
  What cleaning does to the files of a project.

  Each file is backed up and then written without its removed methods, one after the other. All
  the while each file has the bytes that it had, or a copy of it has them. A backup that fails
  ends the cleaning, and so does a file that is locked: the files before were cleaned, the others
  have the bytes that they had.
-/
import SuperForward.Proofs.Backup.Covering
import SuperForward.Proofs.CommandLine.Deciding
import SuperForward.Proofs.Project

namespace SuperForward

open SuperForward.Files (Path Disk Action Location FileSystem Lock)
open SuperForward.Json (Value)
open SuperForward.Project (LeftOf)
open SuperForward.Text (Bytes removeSpans)

namespace CommandLine

open SuperForward.Backup (Record Kept Stamp State Store)

/-! ## Ids -/

namespace Session

variable {s s' : Session} {count : Nat} {used : List String}

/-- The ids for the next copies. -/
def nextIds (s : Session) (count : Nat) : List String :=
  (List.range count).map fun i => (s.stamp (s.stampsUsed + i)).id

theorem nextIds_isPrefix (s : Session) {n m : Nat} (h : n ≤ m) : s.nextIds n <+: s.nextIds m := by
  obtain ⟨more, rfl⟩ := Nat.exists_eq_add_of_le h
  rw [nextIds, nextIds, List.range_add, List.map_append]
  exact List.prefix_append ..

theorem nextIds_succ (hstamp : s'.stamp = s.stamp) (hused : s'.stampsUsed = s.stampsUsed + 1) :
    s.nextIds (count + 1) = (s.stamp s.stampsUsed).id :: s'.nextIds count := by
  rw [nextIds, List.range_succ_eq_map, List.map_cons, List.map_map, nextIds, hstamp, hused]
  refine congrArg _ (List.map_congr_left fun i _ => ?_)
  rw [Function.comp_apply, Nat.succ_eq_add_one, Nat.add_comm i 1, Nat.add_assoc]

theorem Untouched.nextIds (h : s.Untouched s') : s'.nextIds count = s.nextIds count := by
  rw [Session.nextIds, Session.nextIds, h.stamp, h.stampsUsed]

/-- The ids for the next copies are made for times, and they are all different, and new. -/
structure Supplies (s : Session) (count : Nat) (used : List String) : Prop where
  nodup : (s.nextIds count).Nodup
  made : ∀ id ∈ s.nextIds count, Stamp.IsMade id
  unused : ∀ id ∈ s.nextIds count, id ∉ used

theorem Supplies.untouched (h : s.Supplies count used) (hsame : s.Untouched s') :
    s'.Supplies count used := by
  obtain ⟨hnodup, hid, hnew⟩ := h
  rw [← hsame.nextIds] at hnodup hid hnew
  exact ⟨hnodup, hid, hnew⟩

theorem Supplies.first (h : s.Supplies (count + 1) used) :
    Stamp.IsMade (s.stamp s.stampsUsed).id ∧ (s.stamp s.stampsUsed).id ∉ used := by
  have hmem : (s.stamp s.stampsUsed).id ∈ s.nextIds (count + 1) :=
    List.mem_map.2 ⟨0, List.mem_range.2 (Nat.succ_pos _), rfl⟩
  exact ⟨h.made _ hmem, h.unused _ hmem⟩

theorem Supplies.next (h : s.Supplies (count + 1) used) (hstamp : s'.stamp = s.stamp)
    (hused : s'.stampsUsed = s.stampsUsed + 1) :
    s'.Supplies count ((s.stamp s.stampsUsed).id :: used) := by
  obtain ⟨hnodup, hid, hnew⟩ := h
  rw [nextIds_succ hstamp hused] at hnodup hid hnew
  rw [List.forall_mem_cons] at hid hnew
  obtain ⟨hfirst, hrest⟩ := List.nodup_cons.1 hnodup
  refine ⟨hrest, hid.2, fun id hmem hused => ?_⟩
  rcases List.mem_cons.1 hused with rfl | hused
  · exact hfirst hmem
  · exact hnew.2 id hmem hused

end Session

namespace Job

variable {store : Store} {older : List Record} {was : Disk} {st st' : State} {s s' : Session}
  {path : Path} {rs : List Removed}

/-! ## Files that something is cut from -/

/-- A file of a project, outside of the store, that something can be cut from. -/
structure Cuttable (store : Store) (was : Disk) (path : Path) (rs : List Removed) : Prop where
  clean : path.Clean
  outside : ¬ store.place was <+: path.parts
  left : ∃ left, LeftOf was path rs left

/-- A file with a clean path is where its path says. -/
theorem of_read_clean {d : Disk} {bytes : Bytes} (hclean : path.Clean)
    (h : d.read path = .ok bytes) :
    d.locate path = .ok path.parts ∧ d.files.bytesAt? path.parts = some bytes := by
  obtain ⟨q, hq, hfile⟩ := Disk.read_eq_ok_iff.1 h
  have hplace := Disk.eq_of_locate hq
  rw [hclean.resolve_eq] at hplace
  subst hplace
  exact ⟨hq, FileSystem.bytesAt?_eq_some_iff.2 hfile⟩

theorem outcome_pruneFile {spans : List Text.Span} {bytes : Bytes} {text left : String} {count : Nat}
    (hread : s.disk.read path = .ok bytes) (hdecode : Text.Utf8.decode bytes = .ok text)
    (hremove : removeSpans text spans = .ok (left, count)) (hcount : count ≠ 0) :
    (pruneFile path spans).outcome s
      = (.ok (((Action.write path (Text.Utf8.encode left)).outcome s.disk).1.map fun _ => count),
        { s with disk := ((Action.write path (Text.Utf8.encode left)).outcome s.disk).2 }) := by
  rw [pruneFile, outcome_get_bind, hread]
  dsimp only
  rw [outcome_orCrash_bind hdecode, outcome_orCrash_bind hremove]
  dsimp only
  rw [if_neg (by simpa using hcount), outcome_bind_ok (outcome_onDisk _)]
  rfl

/-- As long as a file has its bytes, it is written without its removed methods, unless it is
locked. -/
theorem Cuttable.exists_outcome_pruneFile (h : Cuttable store was path rs)
    (hcont : Disk.Continues was s.disk)
    (hsame : s.disk.files.bytesAt? path.parts = was.files.bytesAt? path.parts) :
    ∃ left count, LeftOf was path rs left
      ∧ (s.disk.files.isLocked path.parts = false →
        (pruneFile path (rs.map Removed.span)).outcome s = (.ok (.ok count),
          { s with disk := s.disk.after [.writeFile path.parts (Text.Utf8.encode left)] }))
      ∧ (s.disk.files.isLocked path.parts = true →
        (pruneFile path (rs.map Removed.span)).outcome s
          = (.ok (.error (.refused .denied (toString path))),
            { s with disk := s.disk.after [.refuse path.parts] })) := by
  obtain ⟨left, hleft⟩ := h.left
  obtain ⟨bytes, text, count, hread, hdecode, hremove, hshorter⟩ := hleft
  obtain ⟨hlocate, hbytes⟩ := of_read_clean h.clean hread
  have hthere := Disk.locate_mono hcont hlocate
  have hfile := FileSystem.bytesAt?_eq_some_iff.1 (hsame.trans hbytes)
  have hcount : count ≠ 0 := by
    rintro rfl
    rw [Text.eq_of_removeSpans_zero hremove] at hshorter
    exact Nat.lt_irrefl _ hshorter
  have hpruned := outcome_pruneFile (Disk.read_eq_ok_iff.2 ⟨_, hthere, hfile⟩) hdecode hremove hcount
  refine ⟨left, count, ⟨bytes, text, count, hread, hdecode, hremove, hshorter⟩,
    fun hfree => ?_, fun hlocked => ?_⟩
  · rw [hpruned, Action.outcome_write hthere ⟨by rw [hfile]; simp, hfree⟩]
    rfl
  · rw [hpruned, Action.outcome_write_of_isLocked hthere hlocked]
    rfl

/-! ## Files that were cleaned -/

/-- From one state of the store to another one, some files were cleaned, and others were backed up
only since they are locked. No other file outside of the store is different. -/
structure Cleans (store : Store) (older : List Record) (was : Disk) (st : State)
    (done : List (Path × List Removed)) (held : List Path) (ids : List String) (st' : State) :
    Prop where
  answers : store.Answers older was st'
  entered : ∃ more, st'.kept = st.kept ++ more ∧ more.map (·.record.id) = ids
    ∧ more.map (·.record.sourcePath) = (done.map Prod.fst ++ held).map toString
  covered : Disk.Throughout (store.Covers was) st.disk st'.disk
  cut : ∀ e ∈ done, ∃ left, LeftOf was e.1 e.2 left
    ∧ st'.disk.files.bytesAt? e.1.parts = some (Text.Utf8.encode left)
  unlocked : ∀ e ∈ done, was.files.isLocked e.1.parts = false
  others : ∀ q, ¬ store.place was <+: q → (∀ e ∈ done, e.1.parts ≠ q) →
    st'.disk.files.bytesAt? q = st.disk.files.bytesAt? q
  locks : ∀ q, ¬ store.place was <+: q → (∀ path ∈ held, path.parts ≠ q) →
    (was.files.bytesAt? q).isSome →
      (st'.disk.files.bytesAt? q).isSome ∧ st'.disk.files.lock? q = was.files.lock? q

/-- The entries of the ledger that are new are those of the files. -/
theorem Cleans.cases_kept {done : List (Path × List Removed)} {held : List Path}
    {ids : List String} {k : Kept} (h : Cleans store older was st done held ids st')
    (hclean : ∀ path ∈ done.map Prod.fst ++ held, path.Clean) (hk : k ∈ st'.kept) :
    k ∈ st.kept ∨ ∃ path ∈ done.map Prod.fst ++ held, k.source = path := by
  obtain ⟨more, hkept, -, hsources⟩ := h.entered
  rw [hkept] at hk
  rcases List.mem_append.1 hk with hk | hk
  · exact .inl hk
  · have hmem : k.record.sourcePath ∈ (done.map Prod.fst ++ held).map toString :=
      hsources ▸ List.mem_map_of_mem hk
    obtain ⟨path, hpath, heq⟩ := List.mem_map.1 hmem
    exact .inr ⟨path, hpath, by
      rw [Kept.source, ← heq, Path.ofText_toString (hclean path hpath).proper]⟩

/-- As long as no file was locked, more files are cleaned; no file is cleaned twice. -/
theorem Cleans.trans {st'' : State} {done done' : List (Path × List Removed)} {held : List Path}
    {ids ids' : List String} (h : Cleans store older was st done [] ids st')
    (h' : Cleans store older was st' done' held ids' st'')
    (houtside : ∀ e ∈ done, ¬ store.place was <+: e.1.parts)
    (hapart : ∀ e ∈ done, ∀ e' ∈ done', e'.1.parts ≠ e.1.parts) :
    Cleans store older was st (done ++ done') held (ids ++ ids') st'' where
  answers := h'.answers
  entered := by
    obtain ⟨more, hkept, hids, hsources⟩ := h.entered
    obtain ⟨more', hkept', hids', hsources'⟩ := h'.entered
    refine ⟨more ++ more', ?_, ?_, ?_⟩
    · rw [hkept', hkept, List.append_assoc]
    · rw [List.map_append, hids, hids']
    · simp only [List.map_append, hsources, hsources', List.append_nil, List.append_assoc]
  covered := h.covered.trans h'.covered
  cut := List.forall_mem_append.2 ⟨fun e he => by
    obtain ⟨left, hleft, hbytes⟩ := h.cut e he
    exact ⟨left, hleft, (h'.others _ (houtside e he) (hapart e he)).trans hbytes⟩, h'.cut⟩
  unlocked := List.forall_mem_append.2 ⟨h.unlocked, h'.unlocked⟩
  others q hq hne := by
    rw [List.forall_mem_append] at hne
    rw [h'.others q hq hne.2, h.others q hq hne.1]
  locks := h'.locks

theorem formed_removedValue (r : Removed) : (removedValue r).Formed := by
  have hnames : ["qualified_name", "file_path", "line", "start", "end"].Nodup := by decide
  refine ⟨hnames, ?_⟩
  cases r.path <;> simp [Value.FormedMembers, Value.Formed]

theorem Cuttable.resolve_eq (h : Cuttable store was path rs) (current : Path) :
    path.resolve current = path := h.clean.resolve_eq

/-- The store answers for the backup of a file of the project. -/
theorem Cuttable.allowed {reason : String} {stamp : Stamp} (hfile : Cuttable store was path rs)
    (h : store.Answers older was st) (hid : Stamp.IsMade stamp.id) (hnew : stamp.id ∉ st.ids) :
    store.Allowed st (.backup path reason (rs.map removedValue) stamp) := by
  refine ⟨hfile.clean.proper, List.forall_mem_map.2 fun r _ => formed_removedValue r, hid.isId, hnew,
    fun hlocate => ?_⟩
  have hplace := Disk.eq_of_locate hlocate
  rw [hfile.resolve_eq] at hplace
  exact h.not_isPrefix hfile.outside ⟨[], (List.append_nil _).trans hplace⟩

/-- A file that is not in the ledger still has its bytes. -/
theorem Cuttable.same (hfile : Cuttable store was path rs) (h : store.Answers older was st)
    (hnot : ∀ k ∈ st.kept, k.source.parts ≠ path.parts) :
    st.disk.files.bytesAt? path.parts = was.files.bytesAt? path.parts := by
  refine (h.files _ hfile.outside).resolve_right ?_
  rintro ⟨k, hk, -, heq⟩
  exact hnot k hk heq

theorem Cuttable.exists_bytes (h : Cuttable store was path rs) :
    ∃ bytes, was.files.bytesAt? path.parts = some bytes := by
  obtain ⟨left, bytes, text, count, hread, -⟩ := h.left
  exact ⟨bytes, (of_read_clean h.clean hread).2⟩

/-- The file can be read as long as it has its bytes. -/
theorem Cuttable.exists_read {d : Disk} (hfile : Cuttable store was path rs)
    (hcont : Disk.Continues was d)
    (hsame : d.files.bytesAt? path.parts = was.files.bytesAt? path.parts) :
    path.Askable ∧ Path.IsName path.name ∧ ∃ bytes, d.read path = .ok bytes := by
  obtain ⟨left, bytes, text, count, hread, -⟩ := hfile.left
  obtain ⟨hlocate, hbytes⟩ := of_read_clean hfile.clean hread
  have hentry := FileSystem.bytesAt?_eq_some_iff.1 hbytes
  have hparts : path.parts ≠ [] := FileSystem.ne_nil_of_not_directory (by rw [hentry]; simp)
  exact ⟨(Disk.locate_eq_ok_iff.1 hlocate).1, hfile.clean.proper.isName_name hparts, bytes,
    Disk.read_eq_ok_iff.2 ⟨_, Disk.locate_mono hcont hlocate,
      FileSystem.bytesAt?_eq_some_iff.1 (hsame.trans hbytes)⟩⟩

/-- An entry for a file, which was not restored. -/
structure IsEntry (path : Path) (id : String) (k : Kept) : Prop where
  id : k.record.id = id
  sourcePath : k.record.sourcePath = toString path
  source : k.source = path
  unrestored : k.record.restored = false

/-- The state of a store after a backup. -/
structure BackedUp (store : Store) (older : List Record) (was : Disk) (st : State) (id : String)
    (more : List Kept) (d : Disk) : Prop where
  answers : store.Answers older was ⟨d, id :: st.ids, st.kept ++ more⟩
  covered : Disk.Throughout (store.Covers was) st.disk d
  spares : ∀ q, ¬ store.place was <+: q → d.files.bytesAt? q = st.disk.files.bytesAt? q
  locks : ∀ q, ¬ store.place was <+: q → d.files.lock? q = st.disk.files.lock? q

/-- A file of the project is backed up, unless its copy cannot be made. -/
theorem Cuttable.cases_backup {reason : String} {stamp : Stamp} {d' : Disk}
    {result : Except Backup.Fault Unit} (hfile : Cuttable store was path rs)
    (h : store.Answers older was st) (hid : Stamp.IsMade stamp.id) (hnew : stamp.id ∉ st.ids)
    (hnot : ∀ k ∈ st.kept, k.source.parts ≠ path.parts)
    (hout : (store.backup path reason (rs.map removedValue) stamp).outcome st.disk = (result, d')) :
    (∃ fault, result = .error fault ∧ BackedUp store older was st stamp.id [] d'
        ∧ ¬ (store.copyPath stamp.id path).Askable)
      ∨ result = .ok () ∧ ∃ k, BackedUp store older was st stamp.id [k] d'
        ∧ IsEntry path stamp.id k := by
  have hallowed : store.Allowed st (.backup path reason (rs.map removedValue) stamp) :=
    hfile.allowed h hid hnew
  obtain ⟨hask, hname, bytes, hread⟩ := hfile.exists_read h.continues (hfile.same h hnot)
  have hnext := h.next_backup hallowed (by rw [hfile.resolve_eq]; exact hfile.outside)
    (by rwa [hfile.resolve_eq]) (by rwa [hfile.resolve_eq])
  have hmoments := h.throughout_backup hallowed hnext hout
  have hspare := fun q hq => h.spares_backup hfile.clean.proper hid.isId hout (q := q) hq
  have hlocks := fun q hq => h.lock?_backup hfile.clean.proper hid.isId hout (q := q) hq
  rcases result with fault | ⟨⟩
  · refine .inl ⟨fault, rfl, ⟨?_, hmoments, hspare, hlocks⟩, fun hcan => ?_⟩
    · simp only [Backup.Store.next, hout] at hnext
      rwa [List.append_nil]
    · have hok : ((store.backup path reason (rs.map removedValue) stamp).outcome st.disk).1
          = .ok () := h.sound.backup_succeeds hid.isId hnew hname hread hid.utf8ByteSize_le hcan
      rw [hout] at hok
      cases hok
  · simp only [Backup.Store.next, hout, hread] at hnext
    exact .inr ⟨rfl, _, ⟨hnext, hmoments, hspare, hlocks⟩, rfl, congrArg toString (hfile.resolve_eq _),
      (Store.source_entryOf hfile.clean.proper h.sound.safe.current).trans (hfile.resolve_eq _), rfl⟩

/-- After a backup a file is locked as it was. -/
theorem BackedUp.lock_eq {id : String} {more : List Kept} {d : Disk}
    (h : BackedUp store older was st id more d) (hlocks : store.SpareLocks was st.disk)
    {q : Location} (hq : ¬ store.place was <+: q) (hfile : (was.files.bytesAt? q).isSome) :
    (d.files.bytesAt? q).isSome ∧ d.files.lock? q = was.files.lock? q := by
  rw [h.spares q hq, h.locks q hq]
  exact hlocks q hq hfile

/-- A file that was backed up cannot be written, because it is locked. It is restored, if it is
not locked any more; or that is refused as well. -/
theorem BackedUp.cases_restore {id : String} {k : Kept} {d d' : Disk} {lock : Lock}
    {result : Except Backup.Fault Unit} (h : BackedUp store older was st id [k] d)
    (hfile : Cuttable store was path rs) (hentry : IsEntry path id k)
    (hsame : d.files.bytesAt? path.parts = was.files.bytesAt? path.parts)
    (hlocks : store.SpareLocks was st.disk) (hlock : d.files.lock? path.parts = some lock)
    (hout : (store.restore id).outcome (d.after [.refuse path.parts]) = (result, d')) :
    ∃ kept, Cleans store older was st [] [path] [id] ⟨d', id :: st.ids, kept⟩
      ∧ (result = .ok () ∧ lock.afterRefusal = none
        ∨ result = .error (.files (.refused .denied (toString path))) ∧ lock.afterRefusal ≠ none) := by
  obtain ⟨rfl, hsource, rfl, hunrestored⟩ := hentry
  have hk : k ∈ st.kept ++ [k] := List.mem_append_right _ (List.mem_singleton_self k)
  have hrefused := Disk.alike_refuse d k.source.parts
  obtain ⟨kept, hanswers, hspares, hcases⟩ := (h.answers.alike hrefused).cases_restore_same hk
    hunrestored ((hrefused.bytesAt? _).trans hsame) hout
  have hall := (h.answers.spares_refuse k.source.parts).trans hspares
  -- what is left of the lock decides
  have hleft : (d.after [.refuse k.source.parts]).files.isLocked k.source.parts
      = lock.afterRefusal.isSome := by
    obtain ⟨bytes, hbytes⟩ := hfile.exists_bytes
    have hlock' : (d.after [.refuse k.source.parts]).files.lock? k.source.parts
        = lock.afterRefusal := by
      rw [Disk.files_after, Files.Change.applyAll_cons, Files.Change.applyAll_nil,
        Files.Change.apply, FileSystem.lock?_setLock, if_pos rfl, hlock]
      rfl
    rw [FileSystem.isLocked, hrefused.bytesAt?, hsame, hbytes, hlock']
    rfl
  -- the entries before are for other copies
  have hkept : ∃ k', kept = st.kept ++ [k'] ∧ k'.record.id = k.record.id
      ∧ k'.record.sourcePath = k.record.sourcePath := by
    rcases hcases with ⟨-, rfl, -⟩ | ⟨-, rfl, -⟩
    · refine ⟨Kept.markedFor k.record.id k, ?_, Store.id_markedFor .., ?_⟩
      · have hnodup := h.answers.sound.safe.consistent.nodup
        rw [List.map_append, List.nodup_append] at hnodup
        rw [List.map_append, List.map_singleton]
        refine congrArg (· ++ _) ((List.map_congr_left fun k' hk' => ?_).trans (List.map_id _))
        exact if_neg (hnodup.2.2 _ (List.mem_map_of_mem hk') _ (by simp))
      · rw [Kept.markedFor, if_pos rfl]
        rfl
    · exact ⟨k, rfl, rfl, rfl⟩
  obtain ⟨k', rfl, hid, hsource'⟩ := hkept
  refine ⟨st.kept ++ [k'], ?_, ?_⟩
  · exact {
      answers := hanswers
      entered := ⟨[k'], rfl, by rw [List.map_singleton, hid], by simp [hsource', hsource]⟩
      covered := h.covered.trans hall.covered
      cut := by simp
      unlocked := by simp
      others := fun q hq _ => (hall.bytes q hq).trans (h.spares q hq)
      locks := fun q hq hne hwas => by
        obtain ⟨hthere, hlocked⟩ := h.lock_eq hlocks hq hwas
        have hne' := (List.forall_mem_singleton.1 hne).symm
        exact ⟨by rwa [hall.bytes q hq], (hall.locks q hq hne' hthere).trans hlocked⟩ }
  · rcases hcases with ⟨rfl, -, hfree⟩ | ⟨rfl, -, hlocked⟩
    · rw [hleft] at hfree
      exact .inl ⟨rfl, by simpa using hfree⟩
    · rw [hleft] at hlocked
      exact .inr ⟨rfl, Option.isSome_iff_ne_none.1 hlocked⟩

/-- A file that was backed up is written without its removed methods. -/
theorem BackedUp.cleans {id left : String} {k : Kept} {d : Disk}
    (h : BackedUp store older was st id [k] d) (hfile : Cuttable store was path rs)
    (hentry : IsEntry path id k) (hleft : LeftOf was path rs left)
    (hsame : d.files.bytesAt? path.parts = was.files.bytesAt? path.parts)
    (hlocks : store.SpareLocks was st.disk) (hfree : was.files.isLocked path.parts = false) :
    Cleans store older was st [(path, rs)] [] [id]
      ⟨d.after [.writeFile path.parts (Text.Utf8.encode left)], id :: st.ids, st.kept ++ [k]⟩ := by
  obtain ⟨bytes, hbytes⟩ := hfile.exists_bytes
  have hnow := FileSystem.bytesAt?_eq_some_iff.1 (hsame.trans hbytes)
  have hwritten := @Disk.entry?_writeFile d path.parts (Text.Utf8.encode left) (by rw [hnow]; simp)
  have hself : (d.after [.writeFile path.parts (Text.Utf8.encode left)]).files.bytesAt? path.parts
      = some (Text.Utf8.encode left) :=
    FileSystem.bytesAt?_eq_some_iff.2 (by rw [hwritten, if_pos rfl])
  have hother : ∀ q, path.parts ≠ q →
      (d.after [.writeFile path.parts (Text.Utf8.encode left)]).files.bytesAt? q
        = d.files.bytesAt? q := fun q hne => by
    rw [FileSystem.bytesAt?, FileSystem.bytesAt?, hwritten, if_neg hne.symm]
  have hanswers := h.answers.rewrite (List.mem_append_right _ (List.mem_singleton_self k))
    hentry.unrestored (Text.Utf8.encode left)
  rw [hentry.source] at hanswers
  exact {
    answers := hanswers
    entered := ⟨[k], rfl, by rw [List.map_singleton, hentry.id], by simp [hentry.sourcePath]⟩
    covered := h.covered.trans (.change h.covered.last hanswers.covers)
    cut := List.forall_mem_singleton.2 ⟨left, hleft, hself⟩
    unlocked := List.forall_mem_singleton.2 hfree
    others := fun q hq hne => by
      rw [hother q (hne _ (List.mem_singleton_self _)), h.spares q hq]
    locks := fun q hq _ hwas => by
      obtain ⟨hthere, hlock⟩ := h.lock_eq hlocks hq hwas
      by_cases hne : path.parts = q
      · -- a file that is written is not locked, before or after
        subst hne
        refine ⟨by rw [hself]; rfl, ?_⟩
        rw [FileSystem.lock?_eq_none_of_file (FileSystem.bytesAt?_eq_some_iff.1 hbytes) hfree]
        exact FileSystem.lock?_put.trans (if_pos rfl)
      · refine ⟨by rwa [hother q hne], (FileSystem.lock?_put.trans (if_neg (Ne.symm hne))).trans hlock⟩ }

end Job

/-- How a run ends at a locked file. Its copy is restored if the file was let go of when the write
was refused; otherwise that is refused as well. -/
def Ending.atLocked (path : Path) (lock : Lock) : Ending :=
  match lock.afterRefusal with
  | none => .exit 1
  | some _ => .crash (.store (.files (.refused .denied (toString path))))

/-- Why nothing is cut from a file: its copy cannot be made, or it is locked and only backed up. -/
inductive Stops (store : Store) (was : Disk) (id : String) (path : Path) :
    (held : List Path) → Ending → Prop where
  | uncopied (fault : Backup.Fault) (h : ¬ (store.copyPath id path).Askable) :
    Stops store was id path [] (.crash (.store fault))
  | locked (lock : Lock) (h : was.files.lock? path.parts = some lock) :
    Stops store was id path [path] (.atLocked path lock)

theorem Stops.held_isPrefix {store : Store} {was : Disk} {id : String} {path : Path}
    {held : List Path} {ending : Ending} (h : Stops store was id path held ending) :
    held <+: [path] := by
  cases h with
  | uncopied => exact List.nil_prefix
  | locked => exact List.prefix_rfl

namespace Job

variable {store : Store} {older : List Record} {was : Disk} {st st' : State} {s s' : Session}
  {path : Path} {rs : List Removed}

/-- A file is backed up and cleaned, unless something stops that. -/
theorem cases_cleanFile {r : Except Ending (Nat × String)} (h : store.Answers older was st)
    (hlocks : store.SpareLocks was st.disk) (hdisk : s.disk = st.disk)
    (hfile : Cuttable store was path rs) (hid : Stamp.IsMade (s.stamp s.stampsUsed).id)
    (hnew : (s.stamp s.stampsUsed).id ∉ st.ids)
    (hnot : ∀ k ∈ st.kept, k.source.parts ≠ path.parts)
    (hout : (cleanFile store path rs).outcome s = (r, s')) :
    (∃ ending held st', r = .error ending ∧ s'.disk = st'.disk
        ∧ Stops store was (s.stamp s.stampsUsed).id path held ending
        ∧ Cleans store older was st [] held (s.nextIds held.length) st')
      ∨ ∃ count st', r = .ok (count, (s.stamp s.stampsUsed).id)
        ∧ s' = { s with disk := st'.disk, stampsUsed := s.stampsUsed + 1 }
        ∧ st'.ids = (s.stamp s.stampsUsed).id :: st.ids
        ∧ Cleans store older was st [(path, rs)] [] [(s.stamp s.stampsUsed).id] st' := by
  rw [cleanFile, outcome_bind_ok outcome_nextStamp] at hout
  rcases hbackup : (store.backup path "super-methods" (rs.map removedValue)
    (s.stamp s.stampsUsed)).outcome st.disk with ⟨result, d'⟩
  rcases hfile.cases_backup h hid hnew hnot hbackup with
    ⟨fault, rfl, hbacked, hcannot⟩ | ⟨rfl, k, hbacked, hentry⟩
  · rw [outcome_bind_error (outcome_onStore_error (by rw [hdisk, hbackup]))] at hout
    cases hout
    refine .inl ⟨_, [], ⟨d', (s.stamp s.stampsUsed).id :: st.ids, st.kept ++ []⟩, rfl, rfl,
      .uncopied fault hcannot, ?_⟩
    exact {
      answers := hbacked.answers
      entered := ⟨[], rfl, rfl, rfl⟩
      covered := hbacked.covered
      cut := by simp
      unlocked := by simp
      others := fun q hq _ => hbacked.spares q hq
      locks := fun q hq _ => hbacked.lock_eq hlocks hq }
  rw [outcome_bind_ok (outcome_onStore_ok (by rw [hdisk, hbackup]))] at hout
  -- the file is the same as before its backup, and is locked as it was
  have hsame := (hbacked.spares _ hfile.outside).trans (hfile.same h hnot)
  obtain ⟨bytes, hbytes⟩ := hfile.exists_bytes
  have hlock := (hbacked.lock_eq hlocks hfile.outside (by rw [hbytes]; rfl)).2
  have hlocked : d'.files.isLocked path.parts = was.files.isLocked path.parts := by
    rw [FileSystem.isLocked, FileSystem.isLocked, hsame, hlock]
  obtain ⟨left, count, hleft, hwrites, hrefuses⟩ := hfile.exists_outcome_pruneFile
    (s := { s with disk := d', stampsUsed := s.stampsUsed + 1 }) hbacked.answers.continues hsame
  rcases hwas : was.files.isLocked path.parts with - | -
  · rw [outcome_bind_ok (hwrites (hlocked.trans hwas))] at hout
    cases hout
    exact .inr ⟨count, _, rfl, rfl, rfl, hbacked.cleans hfile hentry hleft hsame hlocks hwas⟩
  · obtain ⟨-, lock, hlock'⟩ := FileSystem.isLocked_iff.1 hwas
    rw [outcome_bind_ok (hrefuses (hlocked.trans hwas))] at hout
    rcases hrestore : (store.restore (s.stamp s.stampsUsed).id).outcome
      (d'.after [.refuse path.parts]) with ⟨result, d''⟩
    obtain ⟨kept, hcleans, hcases⟩ := hbacked.cases_restore hfile hentry hsame hlocks
      (hlock.trans hlock') hrestore
    refine .inl ⟨.atLocked path lock, [path], _, ?_, ?_, .locked lock hlock', hcleans⟩
    · rcases hcases with ⟨rfl, hfreed⟩ | ⟨rfl, hheld⟩
      · rw [outcome_say_bind, outcome_bind_ok (outcome_onStore_ok hrestore)] at hout
        cases hout
        rw [Ending.atLocked, hfreed]
      · obtain ⟨left, hheld⟩ := Option.ne_none_iff_exists'.1 hheld
        rw [outcome_say_bind, outcome_bind_error (outcome_onStore_error hrestore)] at hout
        cases hout
        rw [Ending.atLocked, hheld]
    · rcases hcases with ⟨rfl, -⟩ | ⟨rfl, -⟩
      · rw [outcome_say_bind, outcome_bind_ok (outcome_onStore_ok hrestore)] at hout
        cases hout
        rfl
      · rw [outcome_say_bind, outcome_bind_error (outcome_onStore_error hrestore)] at hout
        cases hout
        rfl

/-! ## Cleaning one file after the other -/

/-- Cleans the file of an entry. -/
def cleanEntry (store : Store) (e : Path × List Removed) : Job (Path × Nat × String) := do
  let (count, id) ← cleanFile store e.1 e.2
  return (e.1, count, id)

theorem Cleans.refl (h : store.Answers older was st) (hlocks : store.SpareLocks was st.disk) :
    Cleans store older was st [] [] [] st where
  answers := h
  entered := ⟨[], (List.append_nil _).symm, rfl, rfl⟩
  covered := .refl h.covers
  cut := by simp
  unlocked := by simp
  others _ _ _ := rfl
  locks q hq _ := hlocks q hq

theorem Cleans.spareLocks {done : List (Path × List Removed)} {ids : List String}
    (h : Cleans store older was st done [] ids st') : store.SpareLocks was st'.disk :=
  fun q hq => h.locks q hq (by simp)

/-- An entry is cleaned as its file is, and the result names the file. -/
theorem cases_cleanEntry {e : Path × List Removed} {r : Except Ending (Path × Nat × String)}
    (h : store.Answers older was st) (hlocks : store.SpareLocks was st.disk)
    (hdisk : s.disk = st.disk) (hfile : Cuttable store was e.1 e.2)
    (hid : Stamp.IsMade (s.stamp s.stampsUsed).id) (hnew : (s.stamp s.stampsUsed).id ∉ st.ids)
    (hnot : ∀ k ∈ st.kept, k.source.parts ≠ e.1.parts)
    (hout : (cleanEntry store e).outcome s = (r, s')) :
    (∃ ending held st', r = .error ending ∧ s'.disk = st'.disk
        ∧ Stops store was (s.stamp s.stampsUsed).id e.1 held ending
        ∧ Cleans store older was st [] held (s.nextIds held.length) st')
      ∨ ∃ cleaned st', r = .ok cleaned
        ∧ s' = { s with disk := st'.disk, stampsUsed := s.stampsUsed + 1 }
        ∧ st'.ids = (s.stamp s.stampsUsed).id :: st.ids
        ∧ Cleans store older was st [e] [] [(s.stamp s.stampsUsed).id] st' := by
  rcases cases_bind hout with ⟨err, hcleaned, rfl⟩ | ⟨x, between, hcleaned, hpure⟩
  · rcases cases_cleanFile h hlocks hdisk hfile hid hnew hnot hcleaned with
      ⟨ending, held, st', hno, hleft, hstops, hcleans⟩ | ⟨_, _, hno, -⟩
    · obtain rfl := Except.error.inj hno
      exact .inl ⟨_, held, st', rfl, hleft, hstops, hcleans⟩
    · cases hno
  · cases hpure
    rcases cases_cleanFile h hlocks hdisk hfile hid hnew hnot hcleaned with
      ⟨_, _, _, hno, -⟩ | ⟨count, st', -, rfl, hused, hcleans⟩
    · cases hno
    · exact .inr ⟨_, st', rfl, rfl, hused, hcleans⟩

/-- The files are cleaned up to the end, or up to one where something stops that. -/
theorem cases_cleanEntries {files : List (Path × List Removed)}
    {r : Except Ending (List (Path × Nat × String))} (h : store.Answers older was st)
    (hlocks : store.SpareLocks was st.disk) (hdisk : s.disk = st.disk)
    (hfiles : ∀ e ∈ files, Cuttable store was e.1 e.2)
    (hapart : files.Pairwise fun e e' => e.1.parts ≠ e'.1.parts)
    (hids : s.Supplies files.length st.ids)
    (hnot : ∀ e ∈ files, ∀ k ∈ st.kept, k.source.parts ≠ e.1.parts)
    (hout : (files.mapM (cleanEntry store)).outcome s = (r, s')) :
    ∃ done held st', s'.disk = st'.disk
      ∧ Cleans store older was st done held (s.nextIds (done.length + held.length)) st'
      ∧ ((∃ cleaned, r = .ok cleaned) ∧ done = files ∧ held = []
        ∨ ∃ ending e rest, r = .error ending ∧ files = done ++ e :: rest
          ∧ Stops store was (s.stamp (s.stampsUsed + done.length)).id e.1 held ending) := by
  induction files generalizing s st r with
  | nil =>
    cases hout
    exact ⟨[], [], st, hdisk, .refl h hlocks, .inl ⟨⟨_, rfl⟩, rfl, rfl⟩⟩
  | cons e files ih =>
    rw [List.forall_mem_cons] at hfiles hnot
    obtain ⟨hfirst, hrest⟩ := List.pairwise_cons.1 hapart
    obtain ⟨hid, hnew⟩ := hids.first
    rcases cases_mapM_cons hout with ⟨err, hentry, rfl⟩ | ⟨x, between, r', hentry, hrests, rfl⟩
    · rcases cases_cleanEntry h hlocks hdisk hfiles.1 hid hnew hnot.1 hentry with
        ⟨ending, held, st', hno, hleft, hstops, hcleans⟩ | ⟨_, _, hno, -⟩
      · obtain rfl := Except.error.inj hno
        refine ⟨[], held, st', hleft, ?_, .inr ⟨_, e, files, rfl, rfl, hstops⟩⟩
        rwa [List.length_nil, Nat.zero_add]
      · cases hno
    rcases cases_cleanEntry h hlocks hdisk hfiles.1 hid hnew hnot.1 hentry with
      ⟨_, _, _, hno, -⟩ | ⟨_, st₁, -, rfl, hused, hcleans⟩
    · cases hno
    -- the rest: its ids are still new, and its files have not been backed up
    have hids' : ({ s with disk := st₁.disk, stampsUsed := s.stampsUsed + 1 } : Session).Supplies
        files.length st₁.ids := by
      rw [hused]
      exact hids.next rfl rfl
    have hnot' : ∀ e' ∈ files, ∀ k ∈ st₁.kept, k.source.parts ≠ e'.1.parts := by
      intro e' he' k hk
      rcases hcleans.cases_kept (List.forall_mem_singleton.2 hfiles.1.clean) hk with
        hk | ⟨path, hpath, hsource⟩
      · exact hnot.2 e' he' k hk
      · rw [hsource, List.mem_singleton.1 hpath]
        exact hfirst e' he'
    obtain ⟨done, held, st', hleft, hcleans', hend⟩ :=
      ih hcleans.answers hcleans.spareLocks rfl hfiles.2 hrest hids' hnot' hrests
    have hdone : ∀ e' ∈ done, e' ∈ files := by
      rcases hend with ⟨-, rfl, -⟩ | ⟨_, _, _, -, rfl, -⟩
      · exact fun _ he' => he'
      · exact fun _ he' => List.mem_append_left _ he'
    have hall := hcleans.trans hcleans' (List.forall_mem_singleton.2 hfiles.1.outside)
      (List.forall_mem_singleton.2 fun e' he' => (hfirst e' (hdone e' he')).symm)
    refine ⟨e :: done, held, st', hleft, ?_, ?_⟩
    · rw [List.length_cons, Nat.add_right_comm, Session.nextIds_succ]
      exact hall
      · rfl
      · rfl
    rcases hend with ⟨⟨cleaned, rfl⟩, rfl, rfl⟩ | ⟨ending, e', rest, rfl, rfl, hstops⟩
    · exact .inl ⟨⟨_, rfl⟩, rfl, rfl⟩
    · refine .inr ⟨ending, e', rest, rfl, rfl, ?_⟩
      rw [List.length_cons, ← Nat.add_assoc, Nat.add_right_comm]
      exact hstops

end Job

end CommandLine

end SuperForward

import StatsHouse.DiskLedger

/-!
# The disk cache loses no bucket

Along every history of operations and restarts without I/O errors, the shard does what the
ledger of a durable store does: erasing, reading and putting a bucket and restarting keep the
relation between the two, and every reply is the one the ledger gives.
-/

namespace DiskCache

open ByteCodec TLCodec DurableStore List Function AList DiskCacheShard Folder

variable {crc32c : List UInt8 → BitVec 32} {extra : Option Nat} {s : DiskCacheShard}
  {layout : Layout} {l : Ledger Int Bucket} {folder : Folder} {id : Int} {pos : Nat} {x : Record}
  {name : String}

lemma writeAt_eq (calm : folder.faults = []) {offset : Nat} {data file : List UInt8}
    (stored : folder.files.lookup name = some file) :
    folder.writeAt name offset data = (true, { folder with
        files := folder.files.insert name (ChunkedStorage.writeAt file offset data) }) := by
  simp [writeAt, outcome, calm, write, stored]

lemma Disk.rewrite (disk : Disk crc32c folder layout) (name : String) (records : List Record) :
    Disk crc32c { folder with files := folder.files.insert name (contents crc32c records) }
      (update layout name records) := by
  refine ⟨disk.calm, fun {name'} h => ?_, fun {name'} h => ?_⟩
  · by_cases hn : name' = name
    · rw [hn, update_self, lookup_insert]
    · rw [update_of_ne hn, lookup_insert_ne hn]
      exact disk.stored (((mem_insert _).1 h).resolve_left hn)
  · obtain ⟨hn, hab⟩ := not_or.1 (mt (mem_insert _).2 h)
    rw [update_of_ne hn]
    exact disk.absent hab

/-- No file that waits is written to, so the sizes taken at the start stay right. -/
lemma Named.rewrite {files : Files} {heap : Heap} {waiting : List WaitingFile} {p : Nat}
    (named : Named files heap waiting layout) (opened : 0 < (heap p).refCount)
    (file : List UInt8) (records : List Record) :
    Named (files.insert (heap p).name file) heap waiting (update layout (heap p).name records) := by
  refine ⟨named.names, fun hq => ?_, named.nodup, fun hw => ?_, named.closed⟩
  · exact (mem_insert _).2 (.inr (named.opened hq))
  · obtain ⟨hs, hz⟩ := named.waits hw
    rw [update_of_ne (named.closed hw opened).symm]
    exact ⟨(mem_insert _).2 (.inr hs), hz⟩

variable {before after : List Record}

lemma boundary_erase {r : Record}
    (h : Boundary (before ++ r :: after) pos) : Boundary (before ++ r.erase :: after) pos := by
  rcases h with rfl | ⟨x, hx⟩
  · exact .inl (by simp only [extent_append]; rfl)
  · by_cases hp : pos = extent before
    · exact .inr ⟨r.erase, at_erase.2 (.inl ⟨hp, rfl⟩)⟩
    · exact .inr ⟨x, at_erase.2 (.inr ⟨hp, hx⟩)⟩

/-- One record erased, everything else where it was. -/
lemma at_erased {name' : String} {r : Record}
    (joined : layout name = before ++ r :: after) :
    At (update layout name (before ++ r.erase :: after) name') pos x ↔
      (name' = name ∧ pos = extent before) ∧ x = r.erase ∨
        ¬ (name' = name ∧ pos = extent before) ∧ At (layout name') pos x := by
  rw [at_update]
  by_cases hn : name' = name
  · subst hn
    simp [joined, at_erase]
  · simp [hn]

lemma Accounts.erase (accounts : Accounts layout l) {r : Record}
    (joined : layout name = before ++ r :: after) :
    Accounts (update layout name (before ++ r.erase :: after))
      { l with live := l.live.erase r.number, known := update l.known id none } := by
  have hr : At (layout name) (extent before) r := ⟨before, after, joined, rfl⟩
  have hold : ∀ {name' pos x}, At (update layout name (before ++ r.erase :: after) name') pos x →
      ∃ y, At (layout name') pos y ∧ y.number = x.number ∧ y.time = x.time ∧ y.data = x.data := by
    intro name' pos x hx
    rcases (at_erased joined).1 hx with ⟨⟨rfl, rfl⟩, rfl⟩ | ⟨-, hx⟩
    · exact ⟨r, hr, rfl, rfl, rfl⟩
    · exact ⟨x, hx, rfl, rfl, rfl⟩
  refine ⟨fun hx hx' hu => ?_, fun hx => ?_, fun {n} => ?_⟩
  · obtain ⟨y, hy, hn, -, -⟩ := hold hx
    obtain ⟨y', hy', hyn', -, -⟩ := hold hx'
    exact accounts.numbered hy hy' (by rw [hn, hu, hyn'])
  · obtain ⟨y, hy, hn, ht, hd⟩ := hold hx
    rw [← hn, ← ht, ← hd]
    exact accounts.values hy
  · rw [Finset.mem_erase, accounts.live]
    constructor
    · rintro ⟨hne, name', pos, x, hx, rfl, hl⟩
      refine ⟨name', pos, x, (at_erased joined).2 (.inr ⟨?_, hx⟩), rfl, hl⟩
      rintro ⟨rfl, rfl⟩
      exact hne (by rw [hx.unique hr])
    · rintro ⟨name', pos, x, hx, rfl, hl⟩
      rcases (at_erased joined).1 hx with ⟨-, rfl⟩ | ⟨hp, hx⟩
      · cases hl
      · exact ⟨fun h => hp (accounts.numbered hx hr h), name', pos, x, hx, rfl, hl⟩

lemma Inv.eraseBucket_known (inv : Inv crc32c none s layout l) {b : DiskCacheBucket}
    (hb : s.knownBuckets.lookup id = some b) :
    ∃ s' layout' l', s.eraseBucket id = (.ok (), s') ∧ Step Bucket.time l (.erased id) l' ∧
      Inv crc32c none s' layout' l' := by
  obtain ⟨r, ⟨before, after, hl, hg⟩, hv, -, hh⟩ := inv.knows.record hb
  have he := inv.known_open hb
  have hr : At (layout (s.heap b.file).name) (extent before) r := ⟨before, after, hl, rfl⟩
  have hj := inv.disk.stored (inv.named.opened he)
  have hs : Step Bucket.time l (.erased id)
      { l with live := l.live.erase r.number, known := update l.known id none } :=
    .erased l hh
  have hw : ChunkedStorage.writeAt (contents crc32c (layout (s.heap b.file).name)) b.pos
      (putUint32 magicDeletedBucket) = contents crc32c (before ++ r.erase :: after) := by
    rw [hl, ← hg]
    exact writeAt_magic before after r
  have hextent : extent (before ++ r.erase :: after) = extent (layout (s.heap b.file).name) := by
    rw [hl, extent_append, extent_append]
    rfl
  have hz : ∀ name, extent (update layout (s.heap b.file).name
      (before ++ r.erase :: after) name) = extent (layout name) := by
    intro name
    by_cases hn : name = (s.heap b.file).name
    · rw [hn, update_self, hextent]
    · rw [update_of_ne hn]
  have hin : Inv crc32c (some b.file) { s with
      folder.files := s.folder.files.insert (s.heap b.file).name
        (contents crc32c (before ++ r.erase :: after))
      knownBucketsSize := s.knownBucketsSize - (b.size + headerSize)
      knownBuckets := s.knownBuckets.erase id }
      (update layout (s.heap b.file).name (before ++ r.erase :: after))
      { l with live := l.live.erase r.number, known := update l.known id none } := by
    refine ⟨inv.disk.rewrite _ _, inv.accounts.erase hl,
      inv.named.rewrite he _ _, ⟨fun p => ?_, inv.counted.fresh⟩,
      ⟨fun {i c} hc => ?_, fun {i} hi => ?_, fun hi => ?_, inv.knows.last_nonneg⟩,
      ⟨fun {p} hp => ?_, fun {n} => ?_⟩, ⟨fun {p} hp => ?_, inv.written.apart⟩,
      hs.sound inv.sound⟩
    · have hf := inv.counted.refs p
      simp only [owners_erase hb p, reduceCtorEq, if_false, Nat.add_zero] at hf
      simpa only [Option.some.injEq] using hf
    · have hne : i ≠ id := by
        rintro rfl
        rw [lookup_erase] at hc
        cases hc
      rw [lookup_erase_ne hne] at hc
      obtain ⟨x, hx, ha, hk, hd⟩ := inv.knows.record hc
      refine ⟨x, (at_erased hl).2 (.inr ⟨?_, hx⟩), ha, hk, (update_of_ne hne ..).trans hd⟩
      rintro ⟨hn, hm⟩
      rw [hn, hm] at hx
      rw [hx.unique hr] at hd
      exact hne (inv.sound.known_inj hd hh)
    · by_cases hne : i = id
      · rw [hne]
        exact update_self ..
      · rw [lookup_erase_ne hne] at hi
        exact (update_of_ne hne ..).trans (inv.knows.unknown hi)
    · exact inv.knows.ids (mem_erase.1 hi).2
    · obtain ⟨ho, hy⟩ := inv.tail.boundary hp
      refine ⟨ho.trans (hz _).symm, ?_⟩
      by_cases hn : (s.heap p).name = (s.heap b.file).name
      · simp only [hn, update_self, hl] at hy ⊢
        exact boundary_erase hy
      · simpa only [update_of_ne hn] using hy
    · rw [inv.tail.backlog]
      constructor
      · rintro ⟨name, pos, x, hx, rfl, ha, hu⟩
        refine ⟨name, pos, x, (at_erased hl).2 (.inr ⟨?_, hx⟩), rfl, ha, hu⟩
        rintro ⟨rfl, rfl⟩
        rw [hx.unique hr] at ha
        exact inv.sound.known_returned hh (inv.tail.backlog.2 ⟨_, _, r, hr, rfl, ha, hu⟩)
      · rintro ⟨name, pos, x, hx, rfl, ha, hu⟩
        rcases (at_erased hl).1 hx with ⟨-, rfl⟩ | ⟨-, hx⟩
        · cases ha
        · exact ⟨name, pos, x, hx, rfl, ha, hu⟩
    · exact (inv.written.size hp).trans (hz _).symm
  obtain ⟨layout', hq⟩ := hin.release
  refine ⟨_, layout', _, ?_, hs, hq⟩
  simp only [eraseBucket, hb, writeAt_eq inv.disk.calm hj, hw, unrefFile, unrefFileWithRemove]
  split_ifs <;> rfl

lemma Inv.getBucket (inv : Inv crc32c none s layout l) (id : Int) (time : BitVec 32) :
    ∃ result, s.getBucket crc32c id time = (result, s) ∧
      Step Bucket.time l (.fetched id time (result.toOption.map (Bucket.mk time))) l := by
  cases hb : s.knownBuckets.lookup id with
  | none =>
    refine ⟨.error (.notKnown id), ?_, .unknown l time (inv.knows.unknown hb)⟩
    simp only [DiskCacheShard.getBucket, hb]
  | some b =>
    obtain ⟨r, hr, -, is, hh⟩ := inv.knows.record hb
    have hf : Step Bucket.time l
        (.fetched id time (if r.time = time then some ⟨r.time, r.data⟩ else none)) l :=
      .fetched l hh (inv.accounts.values hr)
    by_cases ht : b.time = time
    · obtain ⟨before, after, hl, ha⟩ := hr
      have hc := inv.disk.stored (inv.named.opened (inv.known_open hb))
      have he : ChunkedStorage.readAt (contents crc32c (layout (s.heap b.file).name))
          (b.pos + headerSize) b.size = r.data := by
        rw [hl, ← ha, is.size]
        exact readAt_data before after r
      refine ⟨.ok r.data, ?_, ?_⟩
      · simp [DiskCacheShard.getBucket, hb, ht,
          readAt_eq inv.disk.calm hc he is.size.symm, is.crc]
      · rw [if_pos (is.time.symm.trans ht), ← is.time, ht] at hf
        exact hf
    · refine ⟨.error (.wrongSecond id b.time time), ?_, ?_⟩
      · simp [DiskCacheShard.getBucket, hb, ht]
      · rw [if_neg (is.time ▸ ht)] at hf
        exact hf

lemma Inv.rotateWritingFile (inv : Inv crc32c none s layout l) (now : Now) (n : Nat) :
    ∃ layout', Inv crc32c none (s.rotateWritingFile now n) layout' l := by
  rw [DiskCacheShard.rotateWritingFile]
  split
  · exact ⟨layout, inv⟩
  · rename_i p hp
    split_ifs
    · exact inv.unrefWriting hp
    · exact ⟨layout, inv⟩

lemma create_eq (calm : folder.faults = []) (name : String) : folder.create name =
      if name ∈ folder.files then (false, folder)
      else (true, { folder with files := folder.files.insert name [] }) := by
  simp [create, outcome, calm]

/-- A new file has a name no open or waiting file has. -/
lemma Inv.createFile (inv : Inv crc32c none s layout l) (notWriting : s.writingFile = none)
    (new : name ∉ s.folder.files) (created : Int) :
    Inv crc32c none { s.openFile { name := name, refCount := 1 } with
        folder := { s.folder with files := s.folder.files.insert name [] }
        writingFile := some s.nextFile, writingFileCreatedTs := created } layout l := by
  have he := inv.disk.absent new
  have hd := inv.disk.rewrite name []
  rw [← he, update_eq_self, he] at hd
  have hs : ∀ {name'}, name' ∈ s.folder.files → name' ∈ s.folder.files.insert name [] :=
    fun h => (mem_insert _).2 (.inr h)
  have hn : Named (s.folder.files.insert name []) s.heap s.waitingFilesTail layout :=
    ⟨inv.named.names, fun hp => hs (inv.named.opened hp), inv.named.nodup,
      fun hw => (inv.named.waits hw).imp_left hs, inv.named.closed⟩
  refine ⟨hd, inv.accounts, ?_, inv.counted_openFile rfl fun p => ?_, inv.knows_openFile,
    ⟨fun {p} hp => ?_, fun {n} => ?_⟩, ⟨fun {p} hp => ?_, fun {p} hp h => ?_⟩, inv.sound⟩
  · refine hn.openFile ((mem_insert _).2 (.inl rfl)) (fun w hw h => ?_) fun q hq h => ?_
    · have hm := (inv.named.waits hw).1
      rw [h] at hm
      exact new hm
    · have hm := inv.named.opened hq
      rw [h] at hm
      exact new hm
  · simp [owners, notWriting, openFile]
  · simp only [openFile, inv.update_owned (inv.reading_open hp)]
    exact inv.tail.boundary hp
  · rw [inv.tail.backlog]
    exact exists₃_congr fun _ _ _ => and_congr_right' (and_congr_right' (and_congr_right'
      (Unread.congr fun hq => inv.update_owned (inv.reading_open hq)).symm))
  · obtain rfl := Option.some.inj hp
    simp [openFile, he]
  · obtain rfl := Option.some.inj hp
    exact inv.ne_nextFile (inv.reading_open h) rfl

lemma Inv.openWritingFile (inv : Inv crc32c none s layout l) (now : Now) :
    now.dt ++ ".seconds" ∈ s.folder.files ∧
        s.openWritingFile now = (.error (.create (now.dt ++ ".seconds")), s) ∨
      ∃ p s', s.openWritingFile now = (.ok p, s') ∧ s'.writingFile = some p ∧
        Inv crc32c none s' layout l := by
  rw [DiskCacheShard.openWritingFile]
  split
  · rename_i p hw
    exact .inr ⟨p, s, rfl, hw, inv⟩
  · rename_i hw
    by_cases hn : now.dt ++ ".seconds" ∈ s.folder.files
    · exact .inl ⟨hn, by simp [create_eq inv.disk.calm, if_pos hn]⟩
    · simp only [create_eq inv.disk.calm, if_neg hn]
      exact .inr ⟨s.nextFile, _, rfl, rfl, inv.createFile hw hn now.nanoseconds⟩

lemma at_appended {name' : String} {y : Record} :
    At (update layout name (layout name ++ [x]) name') pos y ↔
      At (layout name') pos y ∨ name' = name ∧ pos = extent (layout name) ∧ y = x := by
  by_cases hn : name' = name
  · rw [hn, update_self, at_concat]
    simp only [true_and]
  · rw [update_of_ne hn]
    simp [hn]

lemma Accounts.append (accounts : Accounts layout l) (name : String) (id : Int)
    (number : x.number = l.values.length) (live : x.erased = false) :
    Accounts (update layout name (layout name ++ [x])) { l with
        values := l.values ++ [⟨x.time, x.data⟩]
        live := insert l.values.length l.live
        known := update l.known id (some l.values.length) } := by
  have hu : ∀ {name pos y}, At (layout name) pos y → y.number < l.values.length := fun hy =>
    (List.getElem?_eq_some_iff.1 (accounts.values hy)).1
  refine ⟨fun hy hz heq => ?_, fun hy => ?_, fun {n} => ?_⟩
  · rcases at_appended.1 hy with hold | ⟨rfl, rfl, rfl⟩ <;>
      rcases at_appended.1 hz with hold' | ⟨rfl, rfl, rfl⟩
    · exact accounts.numbered hold hold' heq
    · have := hu hold
      omega
    · have := hu hold'
      omega
    · exact ⟨rfl, rfl⟩
  · rcases at_appended.1 hy with hy | ⟨-, -, rfl⟩
    · rw [getElem?_append_left (hu hy)]
      exact accounts.values hy
    · rw [number, getElem?_concat_length]
  · rw [Finset.mem_insert, accounts.live]
    constructor
    · rintro (rfl | ⟨name', pos, y, hy, hn, hl⟩)
      · exact ⟨name, _, x, at_appended.2 (.inr ⟨rfl, rfl, rfl⟩), number, live⟩
      · exact ⟨name', pos, y, at_appended.2 (.inl hy), hn, hl⟩
    · rintro ⟨name', pos, y, hy, rfl, hl⟩
      rcases at_appended.1 hy with hy | ⟨-, -, rfl⟩
      · exact .inr ⟨name', pos, y, hy, rfl, hl⟩
      · exact .inl number

/-- The writer's file is out of the tail reader's reach. -/
lemma Inv.not_unread_writing (inv : Inv crc32c extra s layout l) {p : Nat}
    (hp : s.writingFile = some p) :
    ¬ Unread s.heap s.readingFileTail s.waitingFilesTail (s.heap p).name pos := by
  rintro (⟨w, hw, hn⟩ | ⟨q, hq, hn, -⟩)
  · exact inv.named.closed hw (inv.writing_open hp) hn.symm
  · obtain rfl := inv.named.names (inv.reading_open hq) (inv.writing_open hp) hn
    exact inv.written.apart hp hq

/-- The state after `x` was appended to the file that is written. -/
def appended (crc32c : List UInt8 → BitVec 32) (s : DiskCacheShard) (p : Nat)
    (records : List Record) (x : Record) : DiskCacheShard :=
  { s with
    folder := { s.folder with
      files := s.folder.files.insert (s.heap p).name (contents crc32c (records ++ [x])) }
    heap := update s.heap p { s.heap p with
        refCount := (s.heap p).refCount + 1
        size := (s.heap p).size + (headerSize + x.data.length) }
    totalFileSize := s.totalFileSize + (headerSize + x.data.length)
    knownBucketsSize := s.knownBucketsSize + (x.data.length + headerSize)
    lastBucketID := s.lastBucketID + 1
    knownBuckets := s.knownBuckets.insert (s.lastBucketID + 1)
      ⟨p, (s.heap p).size, x.time, x.data.length, crc32c x.data⟩ }

lemma Inv.append (inv : Inv crc32c none s layout l) {p : Nat} (hp : s.writingFile = some p)
    (number : x.number = l.values.length) (live : x.erased = false) :
    ∃ layout' l',
      Step Bucket.time l (.put l.values.length (s.lastBucketID + 1) ⟨x.time, x.data⟩) l' ∧
      Inv crc32c none (appended crc32c s p (layout (s.heap p).name) x) layout' l' := by
  have ha := inv.writing_open hp
  have hs := inv.written.size hp
  have hb : Step Bucket.time l (.put l.values.length (s.lastBucketID + 1) ⟨x.time, x.data⟩)
      { l with
        values := l.values ++ [⟨x.time, x.data⟩]
        live := insert l.values.length l.live
        known := update l.known (s.lastBucketID + 1) (some l.values.length) } :=
    .put l _ inv.fresh_handle
  have hc : At (update layout (s.heap p).name (layout (s.heap p).name ++ [x])
      (s.heap p).name) (s.heap p).size x := at_appended.2 (.inr ⟨rfl, hs, rfl⟩)
  have hk := inv.knows.insert (b := ⟨p, (s.heap p).size, x.time, x.data.length, crc32c x.data⟩)
    (fun h => at_appended.2 (.inl h)) hc live ⟨rfl, rfl, rfl⟩
  rw [number] at hk
  have hr : ∀ {q}, s.readingFileTail = some q → q ≠ p := by
    rintro q hq rfl
    exact inv.written.apart hp hq
  refine ⟨update layout (s.heap p).name (layout (s.heap p).name ++ [x]), _, hb,
    inv.disk.rewrite _ _, inv.accounts.append _ _ number live,
    (inv.named.rewrite ha _ _).reheap (update_field rfl) (opened_update ha),
    inv.counted_insert ha rfl rfl, hk.reheap (update_field rfl),
    ⟨fun {q} hq => ?_, fun {n} => ?_⟩, ⟨fun {q} hq => ?_, inv.written.apart⟩,
    hb.sound inv.sound⟩
  · have hm : (s.heap q).name ≠ (s.heap p).name := fun h =>
      hr hq (inv.named.names (inv.reading_open hq) ha h)
    simp only [appended, update_of_ne (hr hq), update_of_ne hm]
    exact inv.tail.boundary hq
  · have hu : ∀ name pos, Unread (appended crc32c s p (layout (s.heap p).name) x).heap
        s.readingFileTail s.waitingFilesTail name pos ↔
        Unread s.heap s.readingFileTail s.waitingFilesTail name pos :=
      fun name pos => Unread.congr fun hq => update_of_ne (hr hq) _ _
    rw [inv.tail.backlog]
    constructor
    · rintro ⟨name, pos, y, hy, hn, hl, hw⟩
      exact ⟨name, pos, y, at_appended.2 (.inl hy), hn, hl, (hu name pos).2 hw⟩
    · rintro ⟨name, pos, y, hy, hn, hl, hw⟩
      have hw := (hu name pos).1 hw
      rcases at_appended.1 hy with hy | ⟨rfl, -, -⟩
      · exact ⟨name, pos, y, hy, hn, hl, hw⟩
      · exact absurd hw (inv.not_unread_writing hp)
  · obtain rfl : p = q := Option.some.inj (hp.symm.trans hq)
    simp [appended, hs, Record.size]

/-- The header and the body, written one after the other, are the new record. -/
lemma Inv.writeSecond_eq (inv : Inv crc32c none s layout l) {p : Nat} (hp : s.writingFile = some p)
    (live : x.erased = false) :
    ∃ folder, s.folder.writeAt (s.heap p).name (s.heap p).size
        (header magicGoodBucket x.time x.data.length (crc32c x.data)) = (true, folder) ∧
      folder.writeAt (s.heap p).name ((s.heap p).size + headerSize) x.data =
        (true, (appended crc32c s p (layout (s.heap p).name) x).folder) := by
  have hf := inv.disk.stored (inv.named.opened (inv.writing_open hp))
  have hs : (s.heap p).size = (contents crc32c (layout (s.heap p).name)).length := by
    rw [length_contents]
    exact inv.written.size hp
  have hh : header magicGoodBucket x.time x.data.length (crc32c x.data) = x.header crc32c := by
    rw [Record.header, magic_of_live live]
  have he : (contents crc32c (layout (s.heap p).name)).length + headerSize =
      (contents crc32c (layout (s.heap p).name) ++ x.header crc32c).length := by
    rw [length_append, Record.header, length_header]
  refine ⟨_, writeAt_eq inv.disk.calm hf, ?_⟩
  refine (writeAt_eq ?_ (lookup_insert _)).trans ?_
  · exact inv.disk.calm
  · rw [insert_insert, hs, hh, writeAt_end, he, writeAt_end, append_assoc]
    simp [appended, contents, Record.bytes]

/-- Without I/O errors a bucket is refused when it is too big, or when a new file would get the
name of one that is there. -/
inductive Refusal (folder : Folder) (now : Now) (data : List UInt8) : Error → Prop
  | chunkTooBig (big : maxChunkSize < data.length) :
      Refusal folder now data (.chunkTooBig data.length)
  | create (taken : now.dt ++ ".seconds" ∈ folder.files) :
      Refusal folder now data (.create (now.dt ++ ".seconds"))

lemma Inv.putBucket (inv : Inv crc32c none s layout l) (now : Now) (time : BitVec 32)
    (data : List UInt8) :
    (∃ e s' layout', s.putBucket crc32c now time data = (.error e, s') ∧
      Refusal s'.folder now data e ∧ Inv crc32c none s' layout' l) ∨
    ∃ n id s' layout' l', s.putBucket crc32c now time data = (.ok id, s') ∧
      Step Bucket.time l (.put n id ⟨time, data⟩) l' ∧ Inv crc32c none s' layout' l' := by
  by_cases hb : maxChunkSize < data.length
  · refine .inl ⟨.chunkTooBig data.length, s, layout, ?_, .chunkTooBig hb, inv⟩
    simp [DiskCacheShard.putBucket, DiskCacheShard.writeSecond, if_pos hb]
  · obtain ⟨layout₁, hr⟩ := inv.rotateWritingFile now data.length
    rcases hr.openWritingFile now with ⟨taken, ho⟩ | ⟨p, s', ho, hp, inv'⟩
    · refine .inl ⟨_, _, layout₁, ?_, .create taken, hr⟩
      simp only [DiskCacheShard.putBucket, DiskCacheShard.writeSecond, if_neg hb, ho]
    · let x : Record := ⟨l.values.length, false, time, data, not_lt.1 hb⟩
      obtain ⟨folder, hh, hd⟩ := inv'.writeSecond_eq (x := x) hp rfl
      obtain ⟨layout₂, l', hs, hin⟩ := inv'.append (x := x) hp rfl rfl
      refine .inr ⟨_, _, _, layout₂, l', ?_, hs, hin⟩
      simp only [DiskCacheShard.putBucket, DiskCacheShard.writeSecond, if_neg hb, ho]
      rw [hh]
      dsimp only
      rw [hd]
      rfl

@[simp]
lemma folder_unrefFileWithRemove (s : DiskCacheShard) (p : Nat) :
    (s.unrefFileWithRemove p false).folder = s.folder := by
  simp only [unrefFileWithRemove, Bool.false_eq_true, if_false]
  split_ifs <;> rfl

/-- Closing a shard leaves its files alone. -/
lemma folder_close (s : DiskCacheShard) : s.close.folder = s.folder := by
  have hl : ∀ (known : List (Sigma fun _ => DiskCacheBucket)) (s : DiskCacheShard),
      (known.foldl (fun s e =>
        { s.unrefFileWithRemove e.2.file false with
          knownBucketsSize :=
            (s.unrefFileWithRemove e.2.file false).knownBucketsSize - (e.2.size + headerSize)
          knownBuckets := (s.unrefFileWithRemove e.2.file false).knownBuckets.erase e.1 })
        s).folder = s.folder := by
    intro known
    induction known with
    | nil => exact fun s => rfl
    | cons e known ih =>
      intro s
      rw [foldl_cons, ih]
      exact folder_unrefFileWithRemove s e.2.file
  rw [← hl s.knownBuckets.entries s]
  simp only [close]
  split <;> split <;> simp only [folder_unrefFileWithRemove]

lemma Disk.restart (disk : Disk crc32c folder layout) (accounts : Accounts layout l)
    (sound : Sound l) :
    Inv crc32c none (.makeDiscCacheShard folder) layout
      { l with backlog := l.live, known := fun _ => none } := by
  have ht : ∀ {w}, w ∈ (makeDiscCacheShard folder).waitingFilesTail ↔
      ∃ e ∈ folder.files.entries, ⟨e.1, e.2.length⟩ = w := by
    intro w
    simp [makeDiscCacheShard]
  have hs : Step Bucket.time l .restarted
      { l with backlog := l.live, known := fun _ => none } := .restarted l
  refine ⟨disk, ⟨accounts.numbered, accounts.values, accounts.live⟩, ⟨nofun, nofun, ?_,
    fun {w} hw => ?_, nofun⟩, ⟨fun p => rfl, fun _ => rfl⟩,
    ⟨nofun, fun _ => rfl, fun h => absurd h (notMem_empty _), le_rfl⟩,
    ⟨nofun, fun {n} => ?_⟩, ⟨nofun, nofun⟩, hs.sound sound⟩
  · have hp : ((makeDiscCacheShard folder).waitingFilesTail.map
        WaitingFile.name).Perm folder.files.keys := by
      apply ((mergeSort_perm _ _).map WaitingFile.name).trans
      rw [map_map]
      exact .refl _
    exact hp.nodup_iff.2 folder.files.nodupKeys
  · obtain ⟨e, he, rfl⟩ := ht.1 hw
    have hk := mem_lookup_iff.2 he
    have hm := lookup_isSome.1 (by rw [hk]; rfl)
    have hf := disk.stored hm
    rw [hk, Option.some.injEq] at hf
    exact ⟨hm, by rw [hf, length_contents]⟩
  · rw [accounts.live]
    constructor
    · rintro ⟨name, pos, r, hr, hn, hl⟩
      refine ⟨name, pos, r, hr, hn, hl, .inl ?_⟩
      have hm : name ∈ folder.files := by
        by_contra hab
        rw [disk.absent hab] at hr
        exact not_at_nil hr
      refine ⟨_, ht.2 ⟨⟨name, _⟩, mem_lookup_iff.1 (disk.stored hm), rfl⟩, rfl⟩
    · rintro ⟨name, pos, r, hr, hn, hl, -⟩
      exact ⟨name, pos, r, hr, hn, hl⟩

/-- The event of the ledger an operation and its reply stand for. The folder is the one that the
operation leaves. -/
inductive Observed (folder : Folder) : Op → Reply → Event Int (BitVec 32) Bucket → Prop
  | put (now : Now) (time : BitVec 32) (data : List UInt8) (n : Nat) (id : Int) :
      Observed folder (.putBucket now time data) (.put (.ok id)) (.put n id ⟨time, data⟩)
  | refused {now : Now} {time : BitVec 32} {data : List UInt8} {e : Error}
      (why : Refusal folder now data e) :
      Observed folder (.putBucket now time data) (.put (.error e)) .refused
  | fetched (id : Int) (time : BitVec 32) (result : Except Error (List UInt8)) :
      Observed folder (.getBucket id time) (.got result)
        (.fetched id time (result.toOption.map (Bucket.mk time)))
  | erased (id : Int) : Observed folder (.eraseBucket id) (.erased (.ok ())) (.erased id)
  | returned (n : Nat) (time : BitVec 32) {id : Int} (named : id ≠ 0) :
      Observed folder .readNextTailBucket (.tail time id) (.returned n id time)
  | drained : Observed folder .readNextTailBucket (.tail 0 0) .drained
  | restarted : Observed folder .restart .restarted .restarted

/-- The replies and events of the run of a list of operations. -/
inductive History (crc32c : List UInt8 → BitVec 32) : DiskCacheShard → List Op → List Reply →
    List (Event Int (BitVec 32) Bucket) → Prop
  | nil (s : DiskCacheShard) : History crc32c s [] [] []
  | cons {s s' : DiskCacheShard} {op : Op} {reply : Reply} {e : Event Int (BitVec 32) Bucket}
      {ops : List Op} {replies : List Reply} {history : List (Event Int (BitVec 32) Bucket)}
      (first : step crc32c s op = some (reply, s')) (observed : Observed s'.folder op reply e)
      (rest : History crc32c s' ops replies history) :
      History crc32c s (op :: ops) (reply :: replies) (e :: history)

/-- Every operation returns, with the reply the ledger gives. -/
lemma Inv.step_observed (inv : Inv crc32c none s layout l) (op : Op) :
    ∃ reply s' e layout' l', step crc32c s op = some (reply, s') ∧ Observed s'.folder op reply e ∧
      Step Bucket.time l e l' ∧ Inv crc32c none s' layout' l' := by
  cases op with
  | putBucket now time data =>
    rcases inv.putBucket now time data with ⟨e, s', layout', hp, hw, hin⟩ |
      ⟨n, id, s', layout', l', hp, hs, hin⟩
    · refine ⟨_, s', .refused, layout', l, ?_, .refused hw, .refused l, hin⟩
      simp only [step, hp]
    · refine ⟨_, s', _, layout', l', ?_, .put now time data n id, hs, hin⟩
      simp only [step, hp]
  | getBucket id time =>
    obtain ⟨result, hgt, hs⟩ := inv.getBucket id time
    refine ⟨_, s, _, layout, l, ?_, .fetched id time result, hs, inv⟩
    simp only [step, hgt]
  | eraseBucket id =>
    cases hb : s.knownBuckets.lookup id with
    | none =>
      refine ⟨_, s, _, layout, l, ?_, .erased id, .forgotten l (inv.knows.unknown hb), inv⟩
      simp only [step, DiskCacheShard.eraseBucket, hb]
    | some b =>
      obtain ⟨s', layout', l', her, hs, hin⟩ := inv.eraseBucket_known hb
      refine ⟨_, s', _, layout', l', ?_, .erased id, hs, hin⟩
      simp only [step, her]
  | readNextTailBucket =>
    obtain ⟨time, id, s', hr, ho⟩ := inv.readNextTailSecond
    have heq : step crc32c s .readNextTailBucket = some (.tail time id, s') := by
      simp only [step, hr]
      rfl
    cases ho with
    | drained hin he => exact ⟨_, s', _, _, l, heq, .drained, .drained l he, hin⟩
    | returned hs hn hin =>
      exact ⟨_, s', _, _, _, heq, .returned _ time hn, hs, hin⟩
  | restart =>
    refine ⟨_, _, _, layout, _, rfl, .restarted, .restarted l, ?_⟩
    rw [folder_close]
    exact inv.disk.restart inv.accounts inv.sound

lemma Inv.run_observed (inv : Inv crc32c none s layout l) (ops : List Op) :
    ∃ replies s' history l', run crc32c s ops = some (replies, s') ∧
      History crc32c s ops replies history ∧ Run Bucket.time l history l' := by
  induction ops generalizing s layout l with
  | nil => exact ⟨[], s, [], l, rfl, .nil s, .nil l⟩
  | cons op ops ih =>
    obtain ⟨reply, s₁, e, layout₁, l₁, ho, hb, hs, hin⟩ := inv.step_observed op
    obtain ⟨replies, s₂, history, l₂, hr, hh, hl⟩ := ih hin
    refine ⟨reply :: replies, s₂, e :: history, l₂, ?_, .cons ho hb hh, .cons hs hl⟩
    simp [run, ho, hr]

lemma inv_empty : Inv crc32c none (.makeDiscCacheShard {}) (fun _ => []) {} := by
  have hd : Disk crc32c {} fun _ => [] := ⟨rfl, fun h => absurd h (notMem_empty _), fun _ => rfl⟩
  have ha : Accounts (fun _ => []) {} :=
    ⟨fun h => absurd h not_at_nil, fun h => absurd h not_at_nil, fun {n} => by
      simp [not_at_nil]⟩
  exact hd.restart ha sound_empty

end DiskCache

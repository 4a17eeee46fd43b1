import StatsHouse.DurableStore
import StatsHouse.DiskRecords

/-!
# The disk cache and the ledger of its buckets

As long as there are no I/O errors, a shard stands for a ledger of a durable store. The
relation between the two names, for every file of the folder, the records in it; a bucket of
the ledger's backlog is a record the tail reader has not come to, a known bucket is a record
the reader has passed or the writer has added. Letting a file go and reading the tail keep the
relation.
-/

namespace DiskCache

open ByteCodec TLCodec DurableStore List Option Function AList DiskCacheShard Nat
variable {b : DiskCacheBucket} {f : DiskCacheFile} {folder : Folder} {heap : Heap} {id : Int}
  {known : Known} {p pos : Nat} {r : Record} {name : String} {files : Files} {heap' : Heap}
  {last : Int} {handles : Int → Option Nat} {waiting : List WaitingFile}
  {reading writing : Option Nat} {name' : String}

structure Bucket where
  time : BitVec 32
  data : List UInt8
deriving Repr, DecidableEq

abbrev Files := AList fun _ : String => List UInt8

abbrev Heap := Nat → DiskCacheFile

abbrev Known := AList fun _ : Int => DiskCacheBucket

/-- The records of each file. -/
abbrev Layout := String → List Record

def owners (known : Known) (reading writing : Option Nat) (p : Nat) : Nat :=
  known.entries.countP (fun e => e.2.file = p) + (if reading = some p then 1 else 0) +
    (if writing = some p then 1 else 0)

lemma owners_erase (h : known.lookup id = some b) (p : Nat) : owners known reading writing p =
      (owners (known.erase id) reading writing p) + if b.file = p then 1 else 0 := by
  have hm : id ∈ known.keys := lookup_isSome.1 (by simp [h])
  obtain ⟨b', xs, ys, hx, he, ha⟩ := exists_of_kerase hm
  have hb : b' = b := by
    have hl : known.lookup id = some b' := mem_lookup_iff.2 (by rw [he]; simp)
    rw [h, some.injEq] at hl
    exact hl.symm
  have hr : (known.erase id).entries = xs ++ ys := ha
  simp only [owners, hr, he, countP_append, countP_cons, hb, decide_eq_true_eq]
  omega

lemma owners_known_pos (h : known.lookup id = some b) :
    0 < owners known reading writing b.file := by
  rw [owners_erase h, if_pos rfl]
  omega

lemma owners_reading_pos (h : reading = some p) : 0 < owners known reading writing p := by
  rw [owners, if_pos h]
  omega

lemma owners_writing_pos (h : writing = some p) : 0 < owners known reading writing p := by
  rw [owners, if_pos h]
  omega

/-- The tail reader has not come to this place yet. -/
def Unread (heap : Heap) (reading : Option Nat) (waiting : List WaitingFile) (name : String)
    (pos : Nat) : Prop :=
  (∃ w ∈ waiting, w.name = name) ∨
    ∃ p, reading = some p ∧ (heap p).name = name ∧ (heap p).nextPos ≤ pos

structure Disk (crc32c : List UInt8 → BitVec 32) (folder : Folder) (layout : Layout) : Prop where
  calm : folder.faults = []
  stored : ∀ {name}, name ∈ folder.files →
    folder.files.lookup name = some (contents crc32c (layout name))
  absent : ∀ {name}, name ∉ folder.files → layout name = []

structure Accounts (layout : Layout) (l : Ledger Int Bucket) : Prop where
  numbered : ∀ {name name' pos pos' r r'}, At (layout name) pos r → At (layout name') pos' r' →
    r.number = r'.number → name = name' ∧ pos = pos'
  values : ∀ {name pos r}, At (layout name) pos r → l.values[r.number]? = some ⟨r.time, r.data⟩
  live : ∀ {n}, n ∈ l.live ↔ ∃ name pos r, At (layout name) pos r ∧ r.number = n ∧ r.erased = false

structure Named (files : Files) (heap : Heap) (waiting : List WaitingFile) (layout : Layout) :
    Prop where
  names : ∀ {p q}, 0 < (heap p).refCount → 0 < (heap q).refCount →
    (heap p).name = (heap q).name → p = q
  opened : ∀ {p}, 0 < (heap p).refCount → (heap p).name ∈ files
  nodup : (waiting.map WaitingFile.name).Nodup
  waits : ∀ {w}, w ∈ waiting → w.name ∈ files ∧ w.size = extent (layout w.name)
  closed : ∀ {w p}, w ∈ waiting → 0 < (heap p).refCount → (heap p).name ≠ w.name

structure Counted (heap : Heap) (nextFile : Nat) (refs : Nat → Nat) : Prop where
  refs : ∀ p, (heap p).refCount = refs p
  fresh : ∀ {p}, nextFile ≤ p → (heap p).refCount = 0

/-- The known bucket is this record. -/
structure IsRecord (crc32c : List UInt8 → BitVec 32) (b : DiskCacheBucket) (r : Record) : Prop where
  time : b.time = r.time
  size : b.size = r.data.length
  crc : b.crc = crc32c r.data

structure Knows (crc32c : List UInt8 → BitVec 32) (heap : Heap) (known : Known) (last : Int)
    (layout : Layout) (handles : Int → Option Nat) : Prop where
  record : ∀ {id b}, known.lookup id = some b → ∃ r, At (layout (heap b.file).name) b.pos r ∧
    r.erased = false ∧ IsRecord crc32c b r ∧ handles id = some r.number
  unknown : ∀ {id}, known.lookup id = none → handles id = none
  ids : ∀ {id}, id ∈ known → id ≤ last
  last_nonneg : 0 ≤ last

structure Tail (heap : Heap) (reading : Option Nat) (waiting : List WaitingFile)
    (layout : Layout) (backlog : Finset Nat) : Prop where
  boundary : ∀ {p}, reading = some p → (heap p).size = extent (layout (heap p).name) ∧
    Boundary (layout (heap p).name) (heap p).nextPos
  backlog : ∀ {n}, n ∈ backlog ↔ ∃ name pos r, At (layout name) pos r ∧ r.number = n ∧
    r.erased = false ∧ Unread heap reading waiting name pos

structure Written (heap : Heap) (reading writing : Option Nat) (layout : Layout) : Prop where
  size : ∀ {p}, writing = some p → (heap p).size = extent (layout (heap p).name)
  apart : ∀ {p}, writing = some p → reading ≠ some p

/-- Between two operations every reference is an owner's. While a file is let go, `extra` is
the one whose count still has the reference that was dropped. -/
structure Inv (crc32c : List UInt8 → BitVec 32) (extra : Option Nat) (s : DiskCacheShard)
    (layout : Layout) (l : Ledger Int Bucket) : Prop where
  disk : Disk crc32c s.folder layout
  accounts : Accounts layout l
  named : Named s.folder.files s.heap s.waitingFilesTail layout
  counted : Counted s.heap s.nextFile fun p =>
    owners s.knownBuckets s.readingFileTail s.writingFile p + if extra = some p then 1 else 0
  knows : Knows crc32c s.heap s.knownBuckets s.lastBucketID layout l.known
  tail : Tail s.heap s.readingFileTail s.waitingFilesTail layout l.backlog
  written : Written s.heap s.readingFileTail s.writingFile layout
  sound : Sound l

variable {crc32c : List UInt8 → BitVec 32} {extra : Option Nat} {s : DiskCacheShard}
  {layout : Layout} {l : Ledger Int Bucket}

section

variable (inv : Inv crc32c extra s layout l)
include inv

lemma Inv.owned_open (owned : 0 < owners s.knownBuckets s.readingFileTail s.writingFile p) :
    0 < (s.heap p).refCount := by
  rw [inv.counted.refs]
  omega

lemma Inv.known_open (h : s.knownBuckets.lookup id = some b) : 0 < (s.heap b.file).refCount :=
  inv.owned_open (owners_known_pos h)

lemma Inv.reading_open (h : s.readingFileTail = some p) : 0 < (s.heap p).refCount :=
  inv.owned_open (owners_reading_pos h)

lemma Inv.writing_open (h : s.writingFile = some p) : 0 < (s.heap p).refCount :=
  inv.owned_open (owners_writing_pos h)

/-- A file number not given out yet is nobody's. -/
lemma Inv.ne_nextFile (opened : 0 < (s.heap p).refCount) : p ≠ s.nextFile := by
  rintro rfl
  rw [inv.counted.fresh le_rfl] at opened
  exact lt_irrefl _ opened

end

lemma update_field {α : Type} {g : DiskCacheFile → α} (same : g f = g (heap p)) (q : Nat) :
    g (update heap p f q) = g (heap q) := by
  by_cases hq : q = p
  · rw [hq, update_self, same]
  · rw [update_of_ne hq]

lemma opened_update (opened : 0 < (heap p).refCount) {q : Nat}
    (hq : 0 < (update heap p f q).refCount) : 0 < (heap q).refCount := by
  by_cases hp : q = p
  · rwa [hp]
  · rwa [update_of_ne hp] at hq

/-- Only names count, and no closed file may be opened. -/
lemma Named.reheap (named : Named files heap waiting layout)
    (same : ∀ p, (heap' p).name = (heap p).name)
    (opened : ∀ {p}, 0 < (heap' p).refCount → 0 < (heap p).refCount) :
    Named files heap' waiting layout := by
  constructor
  · intro p q hp hq heq
    rw [same, same] at heq
    exact named.names (opened hp) (opened hq) heq
  · intro p hp
    rw [same]
    exact named.opened (opened hp)
  · exact named.nodup
  · exact named.waits
  · intro w p hw hp
    rw [same]
    exact named.closed hw (opened hp)

lemma Knows.reheap (knows : Knows crc32c heap known last layout handles)
    (same : ∀ p, (heap' p).name = (heap p).name) :
    Knows crc32c heap' known last layout handles := by
  refine ⟨fun {id b} h => ?_, knows.unknown, knows.ids, knows.last_nonneg⟩
  rw [same]
  exact knows.record h

lemma Written.reheap (written : Written heap reading writing layout)
    (same : ∀ p, (heap' p).name = (heap p).name ∧ (heap' p).size = (heap p).size) :
    Written heap' reading writing layout := by
  refine ⟨fun {p} hp => ?_, written.apart⟩
  rw [(same p).1, (same p).2]
  exact written.size hp

/-- An owner more of one file, which may be the next one to be opened. -/
lemma Counted.addRef {nextFile nextFile' : Nat} {refs refs' : Nat → Nat}
    (counted : Counted heap nextFile refs) (hf : f.refCount = (heap p).refCount + 1)
    (hp : p < nextFile') (later : nextFile ≤ nextFile')
    (counts : ∀ q, refs' q = refs q + if p = q then 1 else 0) :
    Counted (update heap p f) nextFile' refs' := by
  refine ⟨fun q => ?_, fun {q} hq => ?_⟩
  · by_cases ha : q = p
    · rw [ha, update_self, hf, counts, if_pos rfl, counted.refs]
      rfl
    · rw [update_of_ne ha, counts, if_neg (Ne.symm ha), counted.refs, add_zero]
  · rw [update_of_ne (hp.trans_le hq).ne']
    exact counted.fresh (later.trans hq)

lemma Unread.congr (h : ∀ {p}, reading = some p → heap' p = heap p) :
    Unread heap' reading waiting name pos ↔ Unread heap reading waiting name pos := by
  refine or_congr_right (exists_congr fun p => and_congr_right fun hp => ?_)
  rw [h hp]

/-- Counts may change as long as no closed file is opened. -/
lemma Inv.reheap (inv : Inv crc32c extra s layout l) {extra' : Option Nat}
    (same : ∀ p, (heap p).name = (s.heap p).name ∧ (heap p).nextPos = (s.heap p).nextPos ∧
      (heap p).size = (s.heap p).size)
    (opened : ∀ {p}, 0 < (heap p).refCount → 0 < (s.heap p).refCount)
    (counted : Counted heap s.nextFile fun p =>
      owners s.knownBuckets s.readingFileTail s.writingFile p +
        if extra' = some p then 1 else 0) : Inv crc32c extra' { s with heap } layout l := by
  have hn : ∀ p, (heap p).name = (s.heap p).name := fun p => (same p).1
  have hx : ∀ p, (heap p).nextPos = (s.heap p).nextPos := fun p => (same p).2.1
  have hs : ∀ p, (heap p).size = (s.heap p).size := fun p => (same p).2.2
  refine ⟨inv.disk, inv.accounts, inv.named.reheap hn opened, counted, inv.knows.reheap hn,
    ⟨fun {p} hp => ?_, ?_⟩, inv.written.reheap fun p => ⟨hn p, hs p⟩, inv.sound⟩
  · rw [hn, hx, hs]
    exact inv.tail.boundary hp
  · simp [inv.tail.backlog, Unread, hn, hx]

lemma at_update {records : List Record} : At (update layout name records name') pos r ↔
      name' = name ∧ At records pos r ∨ name' ≠ name ∧ At (layout name') pos r := by
  by_cases h : name' = name
  · subst h
    simp
  · simp [h]

lemma at_remove :
    At (update layout name [] name') pos r ↔ name' ≠ name ∧ At (layout name') pos r := by
  simp [at_update, not_at_nil]

lemma remove_eq (calm : folder.faults = []) (name : String) :
    folder.remove name = { folder with files := folder.files.erase name } := by
  simp [Folder.remove, Folder.outcome, calm]

/-- A file without live records can be removed once nobody has it open. -/
lemma Inv.remove (inv : Inv crc32c extra s layout l)
    (closed : ∀ {p}, 0 < (s.heap p).refCount → (s.heap p).name ≠ name)
    (rested : ∀ {w}, w ∈ s.waitingFilesTail → w.name ≠ name)
    (dead : ∀ {pos r}, At (layout name) pos r → r.erased = true) :
    Inv crc32c extra { s with folder := s.folder.remove name } (update layout name []) l := by
  have hl : ∀ {name' pos r}, r.erased = false →
      (At (update layout name [] name') pos r ↔ At (layout name') pos r) := by
    intro name' pos r hr
    rw [at_remove, and_iff_right_iff_imp]
    rintro ha rfl
    rw [dead ha] at hr
    cases hr
  rw [remove_eq inv.disk.calm]
  refine ⟨?_, ?_, ?_, inv.counted, ?_, ?_, ?_, inv.sound⟩
  · refine ⟨inv.disk.calm, fun {name'} h => ?_, fun {name'} h => ?_⟩
    · obtain ⟨hne, hm⟩ := mem_erase.1 h
      rw [update_of_ne hne, lookup_erase_ne hne]
      exact inv.disk.stored hm
    · by_cases hne : name' = name
      · rw [hne, update_self]
      · rw [update_of_ne hne]
        exact inv.disk.absent fun hm => h (mem_erase.2 ⟨hne, hm⟩)
  · refine ⟨fun h h' => ?_, fun h => inv.accounts.values (at_remove.1 h).2, fun {n} => ?_⟩
    · exact inv.accounts.numbered (at_remove.1 h).2 (at_remove.1 h').2
    · rw [inv.accounts.live]
      exact exists₃_congr fun _ _ _ => (and_congr_left fun h => hl h.2).symm
  · refine ⟨inv.named.names, fun hp => ?_, inv.named.nodup, fun hw => ?_, inv.named.closed⟩
    · exact mem_erase.2 ⟨closed hp, inv.named.opened hp⟩
    · rw [update_of_ne (rested hw)]
      obtain ⟨hm, hs⟩ := inv.named.waits hw
      exact ⟨mem_erase.2 ⟨rested hw, hm⟩, hs⟩
  · refine ⟨fun {id b} h => ?_, inv.knows.unknown, inv.knows.ids, inv.knows.last_nonneg⟩
    obtain ⟨r, ha, hr, hb⟩ := inv.knows.record h
    exact ⟨r, (hl hr).2 ha, hr, hb⟩
  · refine ⟨fun {p} hp => ?_, fun {n} => ?_⟩
    · rw [update_of_ne (closed (inv.reading_open hp))]
      exact inv.tail.boundary hp
    · rw [inv.tail.backlog]
      exact exists₃_congr fun _ _ _ => (and_congr_left fun h => hl h.2.1).symm
  · refine ⟨fun {p} hp => ?_, inv.written.apart⟩
    rw [update_of_ne (closed (inv.writing_open hp))]
    exact inv.written.size hp

/-- A file whose last reference was dropped has no live record left: the ledger's handles and
its backlog would both name an owner. -/
lemma Inv.dead_of_unowned (inv : Inv crc32c extra s layout l) (opened : 0 < (s.heap p).refCount)
    (unowned : owners s.knownBuckets s.readingFileTail s.writingFile p = 0)
    (stored : At (layout (s.heap p).name) pos r) : r.erased = true := by
  by_contra her
  rw [Bool.not_eq_true] at her
  have hv := inv.accounts.live.2 ⟨_, pos, r, stored, rfl, her⟩
  rcases inv.sound.covered hv with ht | ⟨id, hi⟩
  · obtain ⟨name, pos', r', hat', hn, -, hu⟩ := inv.tail.backlog.1 ht
    obtain ⟨rfl, rfl⟩ := inv.accounts.numbered hat' stored hn
    rcases hu with ⟨w, hw, hm⟩ | ⟨q, hq, hm, -⟩
    · exact inv.named.closed hw opened hm.symm
    · have hp := inv.named.names (inv.reading_open hq) opened hm
      have how : 0 < owners s.knownBuckets s.readingFileTail s.writingFile q :=
        owners_reading_pos hq
      rw [hp, unowned] at how
      exact lt_irrefl _ how
  · cases hl : s.knownBuckets.lookup id with
    | none =>
      rw [inv.knows.unknown hl] at hi
      cases hi
    | some b =>
      obtain ⟨r', hat', -, -, hid'⟩ := inv.knows.record hl
      rw [hi, some.injEq] at hid'
      obtain ⟨hm, -⟩ := inv.accounts.numbered hat' stored hid'.symm
      have hb := inv.named.names (inv.known_open hl) opened hm
      have how : 0 < owners s.knownBuckets s.readingFileTail s.writingFile b.file :=
        owners_known_pos hl
      rw [hb, unowned] at how
      exact lt_irrefl _ how

/-- The heap with one reference to `p` less. -/
def dropRef (heap : Heap) (p : Nat) : Heap :=
  update heap p { heap p with refCount := (heap p).refCount - 1 }

lemma dropRef_same (heap : Heap) (p q : Nat) :
    (dropRef heap p q).name = (heap q).name ∧ (dropRef heap p q).nextPos = (heap q).nextPos ∧
      (dropRef heap p q).size = (heap q).size := by
  by_cases hq : q = p
  · subst hq
    simp [dropRef]
  · simp [dropRef, hq]

section

variable (inv : Inv crc32c (some p) s layout l)
include inv

lemma Inv.refCount_dropRef (q : Nat) :
    (dropRef s.heap p q).refCount = owners s.knownBuckets s.readingFileTail s.writingFile q := by
  have hc := inv.counted.refs q
  by_cases hq : q = p
  · subst hq
    simp only [if_true] at hc
    simp only [dropRef, update_self]
    omega
  · have hne : some p ≠ some q := fun h => hq (some.inj h).symm
    simpa only [dropRef, update_of_ne hq, if_neg hne, add_zero] using hc

lemma Inv.dropped : Inv crc32c none { s with heap := dropRef s.heap p } layout l := by
  refine inv.reheap (dropRef_same s.heap p) (fun {q} hq => ?_) ⟨fun q => ?_, fun {q} hq => ?_⟩
  · rw [inv.refCount_dropRef] at hq
    exact inv.owned_open (by exact_mod_cast hq)
  · simp [inv.refCount_dropRef]
  · have hf := inv.counted.fresh hq
    rw [inv.counted.refs] at hf
    rw [inv.refCount_dropRef]
    omega

/-- Letting a file go: its count drops, and at zero it is closed and removed. -/
lemma Inv.release : ∃ layout', Inv crc32c none (s.unrefFile p) layout' l := by
  have hc := inv.counted.refs p
  simp only [if_true] at hc
  have ho : 0 < (s.heap p).refCount := by omega
  simp only [unrefFile, unrefFileWithRemove]
  split_ifs with hz
  · have hu : owners s.knownBuckets s.readingFileTail s.writingFile p = 0 := by omega
    have hl : ∀ {q}, 0 < (dropRef s.heap p q).refCount →
        (dropRef s.heap p q).name ≠ (s.heap p).name := by
      intro q hq hn
      rw [inv.refCount_dropRef] at hq
      rw [(dropRef_same s.heap p q).1] at hn
      have hp := inv.named.names (inv.owned_open (by exact_mod_cast hq)) ho hn
      rw [hp, hu] at hq
      exact lt_irrefl _ hq
    have he := inv.dropped.remove hl (fun hw h => inv.named.closed hw ho h.symm)
      (fun ha => inv.dead_of_unowned ho hu ha)
    exact ⟨_, he.disk, he.accounts, he.named, he.counted, he.knows,
      he.tail, he.written, he.sound⟩
  · exact ⟨layout, inv.dropped⟩

end

lemma unrefTail_eq (s : DiskCacheShard) (p : Nat) :
    s.unrefTail p = { s with readingFileTail := none }.unrefFile p := by
  simp only [unrefTail, unrefFile, unrefFileWithRemove]
  split_ifs <;> rfl

/-- The tail reader lets go of a file it has read to the end. -/
lemma Inv.unrefTail (inv : Inv crc32c none s layout l) (hp : s.readingFileTail = some p)
    (finished : (s.heap p).size ≤ (s.heap p).nextPos) :
    ∃ layout', Inv crc32c none (s.unrefTail p) layout' l := by
  rw [unrefTail_eq]
  refine Inv.release ⟨inv.disk, inv.accounts, inv.named, ⟨fun q => ?_, inv.counted.fresh⟩,
    inv.knows, ⟨nofun, fun {n} => ?_⟩, ⟨inv.written.size, nofun⟩, inv.sound⟩
  · have hc := inv.counted.refs q
    simp only [owners, hp] at hc ⊢
    omega
  · rw [inv.tail.backlog]
    constructor
    · rintro ⟨name, pos, r, ha, hn, hr, hw | ⟨q, hq, rfl, hx⟩⟩
      · exact ⟨name, pos, r, ha, hn, hr, .inl hw⟩
      · obtain rfl : p = q := some.inj (hp.symm.trans hq)
        have hlt := ha.lt
        have hs := (inv.tail.boundary hp).1
        omega
    · rintro ⟨name, pos, r, ha, hn, hr, hw | ⟨q, hq, -⟩⟩
      · exact ⟨name, pos, r, ha, hn, hr, .inl hw⟩
      · cases hq

/-- The writer lets go of its file. -/
lemma Inv.unrefWriting (inv : Inv crc32c none s layout l) (hp : s.writingFile = some p) :
    ∃ layout', Inv crc32c none { s.unrefFile p with writingFile := none } layout' l := by
  have heq : { s.unrefFile p with writingFile := none } =
      { s with writingFile := none }.unrefFile p := by
    simp only [unrefFile, unrefFileWithRemove]
    split_ifs <;> rfl
  rw [heq]
  refine Inv.release ⟨inv.disk, inv.accounts, inv.named, ⟨fun q => ?_, inv.counted.fresh⟩,
    inv.knows, inv.tail, ⟨by simp, by simp⟩, inv.sound⟩
  have hc := inv.counted.refs q
  simp only [owners, hp] at hc ⊢
  omega

lemma openFolder_eq (calm : folder.faults = []) (name : String) :
    folder.open name = (decide (name ∈ folder.files), folder) := by
  simp [Folder.open, Folder.outcome, calm]

lemma seek_eq (calm : folder.faults = []) : folder.seek = (true, folder) := by
  simp [Folder.seek, Folder.outcome, calm]

lemma readAt_eq (calm : folder.faults = []) {offset n : Nat} {file data : List UInt8}
    (stored : folder.files.lookup name = some file)
    (read : ChunkedStorage.readAt file offset n = data) (whole : data.length = n) :
    folder.readAt name offset n = (some data, folder) := by
  simp [Folder.readAt, Folder.outcome, calm, stored, read, whole]

lemma Named.openFile (named : Named files heap waiting layout) (stored : f.name ∈ files)
    (rested : ∀ w ∈ waiting, w.name ≠ f.name)
    (closed : ∀ q, 0 < (heap q).refCount → (heap q).name ≠ f.name) :
    Named files (update heap p f) waiting layout := by
  constructor
  · intro q q' hq hq' heq
    by_cases h : q = p <;> by_cases h' : q' = p
    · rw [h, h']
    · rw [update_of_ne h'] at hq' heq
      rw [h, update_self] at heq
      exact absurd heq.symm (closed q' hq')
    · rw [update_of_ne h] at hq heq
      rw [h', update_self] at heq
      exact absurd heq (closed q hq)
    · rw [update_of_ne h] at hq heq
      rw [update_of_ne h'] at hq' heq
      exact named.names hq hq' heq
  · intro q hq
    by_cases h : q = p
    · rw [h, update_self]
      exact stored
    · rw [update_of_ne h] at hq ⊢
      exact named.opened hq
  · exact named.nodup
  · exact named.waits
  · intro w q hw hq
    by_cases h : q = p
    · rw [h, update_self]
      exact (rested w hw).symm
    · rw [update_of_ne h] at hq ⊢
      exact named.closed hw hq

/-- Opening a file gives it a number nobody uses. -/
lemma Inv.update_owned (inv : Inv crc32c extra s layout l) (owned : 0 < (s.heap p).refCount) :
    update s.heap s.nextFile f p = s.heap p :=
  update_of_ne (inv.ne_nextFile owned) _ _

lemma Inv.knows_openFile (inv : Inv crc32c extra s layout l) :
    Knows crc32c (s.openFile f).heap s.knownBuckets s.lastBucketID layout l.known := by
  refine ⟨fun {id b} h => ?_, inv.knows.unknown, inv.knows.ids, inv.knows.last_nonneg⟩
  simp only [openFile, inv.update_owned (inv.known_open h)]
  exact inv.knows.record h

lemma Inv.counted_openFile (inv : Inv crc32c none s layout l) (hf : f.refCount = 1)
    {refs : Nat → Nat} (counts : ∀ p, refs p = owners s.knownBuckets s.readingFileTail
      s.writingFile p + if s.nextFile = p then 1 else 0) :
    Counted (s.openFile f).heap (s.nextFile + 1) refs := by
  refine inv.counted.addRef ?_ (lt_succ_self _) (le_succ _) counts
  rw [hf, inv.counted.fresh le_rfl]
  rfl

/-- The tail reader opens the first file that waits. -/
lemma Inv.openTail (inv : Inv crc32c none s layout l) {w : WaitingFile}
    {rest : List WaitingFile} (notReading : s.readingFileTail = none)
    (hwaiting : s.waitingFilesTail = w :: rest) (size : Int) : Inv crc32c none
      { s.openFile { name := w.name, size := w.size, refCount := 1 } with
        waitingFilesTail := rest, waitingFilesSize := size,
        readingFileTail := some s.nextFile } layout l := by
  have hw : w ∈ s.waitingFilesTail := hwaiting ▸ (.head _)
  have hr : ∀ {v}, v ∈ rest → v ∈ s.waitingFilesTail := fun hv =>
    hwaiting ▸ mem_cons_of_mem w hv
  obtain ⟨hs, hz⟩ := inv.named.waits hw
  have hn := inv.named.nodup
  rw [hwaiting, map_cons, nodup_cons] at hn
  have hm : Named s.folder.files s.heap rest layout :=
    ⟨inv.named.names, inv.named.opened, hn.2, fun hv => inv.named.waits (hr hv),
      fun hv => inv.named.closed (hr hv)⟩
  refine ⟨inv.disk, inv.accounts, ?_, inv.counted_openFile rfl fun p => ?_, inv.knows_openFile,
    ⟨fun {p} hp => ?_, fun {n} => ?_⟩, ⟨fun {p} hp => ?_, fun {p} hp h => ?_⟩, inv.sound⟩
  · refine hm.openFile hs (fun v hv heq => ?_) fun q hq => inv.named.closed hw hq
    exact hn.1 (mem_map.2 ⟨v, hv, heq⟩)
  · simp only [owners, notReading, openFile, some.injEq]
    omega
  · obtain rfl := some.inj hp
    simp only [openFile, update_self]
    exact ⟨hz, boundary_zero _⟩
  · rw [inv.tail.backlog]
    simp [Unread, notReading, hwaiting, openFile, or_comm]
  · simp only [openFile, inv.update_owned (inv.writing_open hp)]
    exact inv.written.size hp
  · obtain rfl := some.inj h
    exact inv.ne_nextFile (inv.writing_open hp) rfl

/-- When the reader passes a record, that record and no other stops being unread. -/
lemma Inv.unread_advance (inv : Inv crc32c extra s layout l) (hp : s.readingFileTail = some p)
    (hr : At (layout (s.heap p).name) (s.heap p).nextPos r) (sameName : f.name = (s.heap p).name)
    (later : f.nextPos = (s.heap p).nextPos + r.size) {x : Record} (hx : At (layout name) pos x) :
    Unread (update s.heap p f) s.readingFileTail s.waitingFilesTail name pos ↔
      Unread s.heap s.readingFileTail s.waitingFilesTail name pos ∧ x.number ≠ r.number := by
  constructor
  · rintro (⟨w, hw, rfl⟩ | ⟨q, hq, hm, ha⟩)
    · refine ⟨.inl ⟨w, hw, rfl⟩, fun hn => ?_⟩
      exact inv.named.closed hw (inv.reading_open hp) (inv.accounts.numbered hx hr hn).1.symm
    · obtain rfl : p = q := some.inj (hp.symm.trans hq)
      rw [update_self] at hm ha
      have hs : 0 < r.size := Nat.add_pos_left (by decide) _
      refine ⟨.inr ⟨p, hp, sameName.symm.trans hm, by omega⟩, fun hn => ?_⟩
      have := (inv.accounts.numbered hx hr hn).2
      omega
  · rintro ⟨ht | ⟨q, hq, rfl, ha⟩, hn⟩
    · exact .inl ht
    · obtain rfl : p = q := some.inj (hp.symm.trans hq)
      refine .inr ⟨p, hp, ?_, ?_⟩
      · rw [update_self, sameName]
      · rw [update_self, later]
        refine hr.disjoint hx (ha.lt_of_ne fun heq => hn ?_)
        rw [hr.unique (heq ▸ hx)]

lemma Inv.advance (inv : Inv crc32c extra s layout l) (hp : s.readingFileTail = some p)
    (hr : At (layout (s.heap p).name) (s.heap p).nextPos r) (sameName : f.name = (s.heap p).name)
    (later : f.nextPos = (s.heap p).nextPos + r.size) (sameSize : f.size = (s.heap p).size) :
    Tail (update s.heap p f) s.readingFileTail s.waitingFilesTail layout
        (l.backlog.erase r.number) ∧
      Written (update s.heap p f) s.readingFileTail s.writingFile layout := by
  refine ⟨⟨fun {q} hq => ?_, fun {n} => ?_⟩, fun {q} hq => ?_, inv.written.apart⟩
  · obtain rfl : p = q := some.inj (hp.symm.trans hq)
    rw [update_self, sameName, later, sameSize]
    exact ⟨(inv.tail.boundary hp).1, hr.next⟩
  · rw [Finset.mem_erase, inv.tail.backlog]
    constructor
    · rintro ⟨hne, name, pos, x, ha, rfl, hx, hu⟩
      exact ⟨name, pos, x, ha, rfl, hx, (inv.unread_advance hp hr sameName later ha).2 ⟨hu, hne⟩⟩
    · rintro ⟨name, pos, x, ha, rfl, hx, hu⟩
      obtain ⟨hu, hne⟩ := (inv.unread_advance hp hr sameName later ha).1 hu
      exact ⟨hne, name, pos, x, ha, rfl, hx, hu⟩
  · have hne : q ≠ p := by
      rintro rfl
      exact inv.written.apart hq hp
    rw [update_of_ne hne]
    exact inv.written.size hq

/-- The tail reader skips an erased record. -/
lemma Inv.skip (inv : Inv crc32c none s layout l) (hp : s.readingFileTail = some p)
    (hr : At (layout (s.heap p).name) (s.heap p).nextPos r) (erased : r.erased = true) :
    Inv crc32c none (s.skipTail p r.data.length) layout l := by
  have hs : ∀ q, ((s.skipTail p r.data.length).heap q).refCount = (s.heap q).refCount :=
    update_field rfl
  obtain ⟨ht, hw⟩ := inv.advance
    (f := { s.heap p with nextPos := (s.heap p).nextPos + (headerSize + r.data.length) })
    hp hr rfl rfl rfl
  have he : r.number ∉ l.backlog := by
    intro hn
    obtain ⟨name, pos, x, ha, hu, hx, -⟩ := inv.tail.backlog.1 hn
    obtain ⟨rfl, rfl⟩ := inv.accounts.numbered ha hr hu
    rw [ha.unique hr, erased] at hx
    cases hx
  rw [Finset.erase_eq_of_notMem he] at ht
  exact ⟨inv.disk, inv.accounts,
    inv.named.reheap (update_field rfl) (opened_update (inv.reading_open hp)),
    ⟨fun q => (hs q).trans (inv.counted.refs q), fun hq => (hs _).trans (inv.counted.fresh hq)⟩,
    inv.knows.reheap (update_field rfl), ht, hw, inv.sound⟩

lemma Inv.fresh_id (inv : Inv crc32c extra s layout l) : s.lastBucketID + 1 ∉ s.knownBuckets :=
  fun h => by
    have := inv.knows.ids h
    omega

lemma Inv.fresh_handle (inv : Inv crc32c extra s layout l) : l.known (s.lastBucketID + 1) = none :=
  inv.knows.unknown (lookup_eq_none.2 inv.fresh_id)

/-- The file of a new bucket has one owner more. -/
lemma Inv.counted_insert (inv : Inv crc32c extra s layout l) (opened : 0 < (s.heap p).refCount)
    (hb : b.file = p) (hf : f.refCount = (s.heap p).refCount + 1) :
    Counted (update s.heap p f) s.nextFile fun q =>
      owners (s.knownBuckets.insert (s.lastBucketID + 1) b) s.readingFileTail s.writingFile q +
        if extra = some q then 1 else 0 := by
  have hlt : p < s.nextFile := by
    by_contra hle
    rw [inv.counted.fresh (not_lt.1 hle)] at opened
    exact lt_irrefl _ opened
  refine inv.counted.addRef hf hlt le_rfl fun q => ?_
  simp only [owners, entries_insert_of_notMem inv.fresh_id, countP_cons, decide_eq_true_eq, hb]
  omega

/-- A record becomes a known bucket under the next id. -/
lemma Knows.insert {layout' : Layout} (knows : Knows crc32c heap known last layout handles)
    (stays : ∀ {name pos r}, At (layout name) pos r → At (layout' name) pos r)
    (hr : At (layout' (heap b.file).name) b.pos r) (live : r.erased = false)
    (is : IsRecord crc32c b r) : Knows crc32c heap (known.insert (last + 1) b) (last + 1) layout'
      (update handles (last + 1) (some r.number)) := by
  have := knows.last_nonneg
  refine ⟨fun {id c} h => ?_, fun {id} h => ?_, fun {id} h => ?_, by omega⟩
  · by_cases hi : id = last + 1
    · subst hi
      rw [lookup_insert, some.injEq] at h
      subst h
      exact ⟨r, hr, live, is, update_self ..⟩
    · rw [lookup_insert_ne hi] at h
      obtain ⟨x, ha, hx, hc, hh⟩ := knows.record h
      exact ⟨x, stays ha, hx, hc, (update_of_ne hi ..).trans hh⟩
  · by_cases hi : id = last + 1
    · rw [hi, lookup_insert] at h
      cases h
    · rw [lookup_insert_ne hi] at h
      exact (update_of_ne hi ..).trans (knows.unknown h)
  · rcases (mem_insert known).1 h with rfl | h
    · exact le_rfl
    · have := knows.ids h
      omega

/-- The tail reader returns a live record as a new known bucket. -/
lemma Inv.know (inv : Inv crc32c none s layout l) (hp : s.readingFileTail = some p)
    (hr : At (layout (s.heap p).name) (s.heap p).nextPos r) (live : r.erased = false) :
    ∃ s' l', s.knowTail p r.time r.data.length (crc32c r.data) =
        .done r.time (s.lastBucketID + 1) s' ∧
      Step Bucket.time l (.returned r.number (s.lastBucketID + 1) r.time) l' ∧
      Inv crc32c none s' layout l' := by
  have hw := inv.tail.backlog.2 ⟨_, _, r, hr, rfl, live, .inr ⟨p, hp, rfl, le_rfl⟩⟩
  have hs : Step Bucket.time l (.returned r.number (s.lastBucketID + 1) r.time) { l with
        backlog := l.backlog.erase r.number
        known := update l.known (s.lastBucketID + 1) (some r.number) } :=
    .returned l hw (inv.accounts.values hr) inv.fresh_handle
  obtain ⟨ht, ha⟩ := inv.advance (f := { s.heap p with
            refCount := (s.heap p).refCount + 1
            nextPos := (s.heap p).nextPos + (headerSize + r.data.length) })
    hp hr rfl rfl rfl
  have hk := inv.knows.insert
    (b := ⟨p, (s.heap p).nextPos, r.time, r.data.length, crc32c r.data⟩) id hr live
    ⟨rfl, rfl, rfl⟩
  exact ⟨_, _, if_neg inv.fresh_id, hs, inv.disk,
    ⟨inv.accounts.numbered, inv.accounts.values, inv.accounts.live⟩,
    inv.named.reheap (update_field rfl) (opened_update (inv.reading_open hp)),
    inv.counted_insert (inv.reading_open hp) rfl rfl, hk.reheap (update_field rfl), ht,
    ha, hs.sound inv.sound⟩

lemma magic_of_erased (h : r.erased = true) : r.magic = magicDeletedBucket := by
  rw [Record.magic, h, if_pos rfl]

lemma magic_of_live (h : r.erased = false) : r.magic = magicGoodBucket := by
  rw [Record.magic, h]
  rfl

/-- The reader's checks accept the header of every record. -/
lemma Inv.readTailHeader_eq (inv : Inv crc32c extra s layout l) (hp : s.readingFileTail = some p)
    (hr : At (layout (s.heap p).name) (s.heap p).nextPos r) : s.readTailHeader p (r.header crc32c) =
      if r.erased then .again (s.skipTail p r.data.length)
      else s.knowTail p r.time r.data.length (crc32c r.data) := by
  have hs := (inv.tail.boundary hp).1
  have hm := hr.add_size_le
  have hf := r.fits
  have ha : ¬((r.data.length : Int) < 0 ∨ (maxChunkSize : Int) < r.data.length ∨
      ((s.heap p).size : Int) < (s.heap p).nextPos + headerSize + r.data.length) := by
    simp only [Record.size] at hm
    omega
  simp only [readTailHeader, header_magic, header_time, header_size, header_crc,
    if_neg ha, Int.toNat_natCast]
  cases her : r.erased with
  | true => rw [magic_of_erased her, if_pos rfl, if_pos rfl]
  | false =>
    have hne : magicGoodBucket ≠ magicDeletedBucket := by decide
    rw [magic_of_live her, if_neg hne, if_neg (not_not.2 rfl)]
    rfl

/-- What one turn of the reader's loop can do. -/
inductive TailOutcome (crc32c : List UInt8 → BitVec 32) (l : Ledger Int Bucket) :
    DiskCacheShard.Turn → Prop
  | again {s : DiskCacheShard} {layout : Layout} (inv : Inv crc32c none s layout l) :
      TailOutcome crc32c l (.again s)
  | drained {s : DiskCacheShard} {layout : Layout} (inv : Inv crc32c none s layout l)
      (empty : l.backlog = ∅) : TailOutcome crc32c l (.done 0 0 s)
  | returned {s : DiskCacheShard} {layout : Layout} {l' : Ledger Int Bucket} {n : Nat}
      {time : BitVec 32} {id : Int} (step : Step Bucket.time l (.returned n id time) l')
      (named : id ≠ 0) (inv : Inv crc32c none s layout l') :
      TailOutcome crc32c l (.done time id s)

lemma Inv.tailTurn (inv : Inv crc32c none s layout l) : TailOutcome crc32c l s.tailTurn := by
  cases hd : s.readingFileTail with
  | none =>
    cases hg : s.waitingFilesTail with
    | nil =>
      have ha : l.backlog = ∅ := by
        refine Finset.eq_empty_iff_forall_notMem.2 fun n hn => ?_
        obtain ⟨_, _, _, -, -, -, ⟨w, hw, -⟩ | ⟨p, hp, -⟩⟩ := inv.tail.backlog.1 hn
        · rw [hg] at hw
          cases hw
        · rw [hd] at hp
          cases hp
      simp only [DiskCacheShard.tailTurn, hd, hg]
      exact .drained inv ha
    | cons w rest =>
      have hw : w ∈ s.waitingFilesTail := hg ▸ (.head _)
      have hs := decide_eq_true (inv.named.waits hw).1
      simp only [DiskCacheShard.tailTurn, hd, hg, openFolder_eq inv.disk.calm, hs]
      exact .again (inv.openTail hd hg _)
  | some p =>
    obtain ⟨hz, hb⟩ := inv.tail.boundary hd
    by_cases he : (s.heap p).size ≤ (s.heap p).nextPos
    · obtain ⟨layout', hin⟩ := inv.unrefTail hd he
      simp only [DiskCacheShard.tailTurn, hd, if_pos he]
      exact .again hin
    · obtain ⟨r, hr⟩ := hb.resolve_left (by omega)
      obtain ⟨before, after, hl, hf⟩ := id hr
      have hc := inv.disk.stored (inv.named.opened (inv.reading_open hd))
      have hi : ChunkedStorage.readAt (contents crc32c (layout (s.heap p).name))
          (s.heap p).nextPos headerSize = r.header crc32c := by
        rw [hl, ← hf]
        exact readAt_header before after r
      have hj := readAt_eq inv.disk.calm hc hi (length_header ..)
      have ht : s.tailTurn = s.readTailHeader p (r.header crc32c) := by
        simp only [DiskCacheShard.tailTurn, hd, if_neg he, seek_eq inv.disk.calm, hj]
        rw [← hd]
      rw [ht, inv.readTailHeader_eq hd hr]
      cases her : r.erased with
      | true => exact .again (inv.skip hd hr her)
      | false =>
        obtain ⟨s', l', hk, hm, hin⟩ := inv.know hd hr her
        have := inv.knows.last_nonneg
        rw [if_neg Bool.false_ne_true, hk]
        exact .returned hm (by omega) hin

/-- The reader's loop comes to an end, with the next bucket or with none left. -/
lemma Inv.readNextTailSecond (inv : Inv crc32c none s layout l) :
    ∃ time id s', s.readNextTailSecond = some ((time, id), s') ∧
      TailOutcome crc32c l (.done time id s') := by
  induction s using readNextTailSecond.induct generalizing layout with
  | case1 s s' ht ih =>
    have ho := inv.tailTurn
    rw [ht] at ho
    cases ho with
    | again inv' =>
      obtain ⟨time, id, s'', hr, ho⟩ := ih inv'
      exact ⟨time, id, s'', (readNextTailSecond_again ht).trans hr, ho⟩
  | case2 s time id s' ht =>
    have ho := inv.tailTurn
    rw [ht] at ho
    exact ⟨time, id, s', readNextTailSecond_done ht, ho⟩
  | case3 s ht =>
    have ho := inv.tailTurn
    rw [ht] at ho
    cases ho

end DiskCache

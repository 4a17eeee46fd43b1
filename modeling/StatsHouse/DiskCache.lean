import Mathlib.Data.List.AList
import StatsHouse.ChunkedStorage

/-!
# The disk cache of one shard

Buckets the agent could not send yet are appended as records to files in a folder: a magic
word, the second, the size of the body, a checksum of the body, the body. A bucket is erased
by overwriting its magic word, and a file is deleted when nothing refers to it any more. After
a restart the files that are there are read from their start, in the order of their names, and
new buckets go to a new file.

An open file is an object that the known buckets, the tail reader and the writer share, so
files are kept on a heap and referred to by number. A handle is used under the name it was
opened with: the code closes it in the same call that removes the name. System calls take
their outcome from a list of faults; the checksum is a parameter.
-/

namespace DiskCache

open ByteCodec TLCodec Function
variable {s : DiskCacheShard}

def magicGoodBucket : BitVec 32 := 0x59b907EC

def magicDeletedBucket : BitVec 32 := 0x000007EC

/-- The magic word, the time, the size and the checksum. -/
def headerSize : Nat := 20

def fileRotateSize : Nat := 50 <<< 20

def maxChunkSize : Nat := fileRotateSize - headerSize

/-- An hour in nanoseconds. -/
def fileRotateInterval : Int := 3600 * 1000000000

structure Folder where
  files : AList (fun _ : String => List UInt8) := ∅
  /-- Outcomes of the next system calls: `none` is success, `some n` an error after `n` bytes.
  Calls beyond the list succeed. -/
  faults : List (Option Nat) := []

namespace Folder

def outcome (fo : Folder) : Option Nat × Folder :=
  match fo.faults with
  | [] => (none, fo)
  | o :: rest => (o, { fo with faults := rest })

/-- `os.OpenFile` with `O_CREATE|O_EXCL`: an existing name is an error. -/
def create (fo : Folder) (name : String) : Bool × Folder :=
  match fo.outcome with
  | (some _, fo) => (false, fo)
  | (none, fo) =>
    if name ∈ fo.files then (false, fo) else (true, { fo with files := fo.files.insert name [] })

def «open» (fo : Folder) (name : String) : Bool × Folder :=
  match fo.outcome with
  | (some _, fo) => (false, fo)
  | (none, fo) => (decide (name ∈ fo.files), fo)

def seek (fo : Folder) : Bool × Folder :=
  match fo.outcome with
  | (some _, fo) => (false, fo)
  | (none, fo) => (true, fo)

/-- Reads exactly `n` bytes; a shorter file is an error. -/
def readAt (fo : Folder) (name : String) (offset n : Nat) : Option (List UInt8) × Folder :=
  match fo.outcome with
  | (some _, fo) => (none, fo)
  | (none, fo) =>
    match fo.files.lookup name with
    | none => (none, fo)
    | some file =>
      if (ChunkedStorage.readAt file offset n).length = n then
        (some (ChunkedStorage.readAt file offset n), fo)
      else (none, fo)

def write (fo : Folder) (name : String) (offset : Nat) (data : List UInt8) : Folder :=
  match fo.files.lookup name with
  | none => fo
  | some file =>
    { fo with files := fo.files.insert name (ChunkedStorage.writeAt file offset data) }

/-- A write that fails has written the first bytes. -/
def writeAt (fo : Folder) (name : String) (offset : Nat) (data : List UInt8) : Bool × Folder :=
  match fo.outcome with
  | (some n, fo) => (false, fo.write name offset (data.take n))
  | (none, fo) => (true, fo.write name offset data)

def remove (fo : Folder) (name : String) : Folder :=
  match fo.outcome with
  | (some _, fo) => fo
  | (none, fo) => { fo with files := fo.files.erase name }

end Folder

structure DiskCacheFile where
  name : String
  /-- The next tail bucket is read from this position. -/
  nextPos : Nat := 0
  size : Nat := 0
  /-- One for each of `readingFileTail`, `writingFile` and each known bucket. -/
  refCount : Int
deriving Repr, DecidableEq

structure WaitingFile where
  name : String
  size : Nat
deriving Repr, DecidableEq

structure DiskCacheBucket where
  file : Nat
  /-- Position of the header. -/
  pos : Nat
  time : BitVec 32
  /-- Size of the body. -/
  size : Nat
  crc : BitVec 32
deriving Repr, DecidableEq

structure DiskCacheShard where
  folder : Folder
  /-- A number that was never used stands for a file nobody refers to. -/
  heap : Nat → DiskCacheFile := fun _ => { name := "", refCount := 0 }
  nextFile : Nat := 0
  knownBuckets : AList (fun _ : Int => DiskCacheBucket) := ∅
  knownBucketsSize : Int := 0
  lastBucketID : Int := 0
  readingFileTail : Option Nat := none
  waitingFilesTail : List WaitingFile := []
  waitingFilesSize : Int := 0
  writingFile : Option Nat := none
  writingFileCreatedTs : Int := 0
  totalFileSize : Int := 0

inductive Error where
  | chunkTooBig (size : Nat)
  | create (name : String)
  | writeHeader
  | writeBody
  | notKnown (id : Int)
  | wrongSecond (id : Int) (time requested : BitVec 32)
  | read (pos : Nat) (id : Int) (time : BitVec 32)
  | wrongCrc (id : Int) (time : BitVec 32)
  | erase (id : Int) (time : BitVec 32)
deriving Repr, DecidableEq

/-- `time.Now()`: as `dtFormat` prints it, and in nanoseconds. -/
structure Now where
  dt : String
  nanoseconds : Int
deriving Repr, DecidableEq

def header (magic : BitVec 32) (time : BitVec 32) (size : Nat) (crc : BitVec 32) : List UInt8 :=
  putUint32 magic ++ putUint32 time ++ leBytes 8 size ++ putUint32 crc

namespace DiskCacheShard

variable {s' : DiskCacheShard}

/-- All files of the folder wait to be read. -/
def makeDiscCacheShard (folder : Folder) : DiskCacheShard :=
  let scanned : List WaitingFile := folder.files.entries.map fun e => ⟨e.1, e.2.length⟩
  let total : Int := (scanned.map fun w => (w.size : Int)).sum
  { folder
    waitingFilesTail := scanned.mergeSort fun a b => decide (a.name ≤ b.name)
    waitingFilesSize := total
    totalFileSize := total }

def unrefFileWithRemove (s : DiskCacheShard) (p : Nat) (remove : Bool) : DiskCacheShard :=
  let f := { s.heap p with refCount := (s.heap p).refCount - 1 }
  let s := { s with heap := update s.heap p f }
  if f.refCount = 0 then
    let s := { s with totalFileSize := s.totalFileSize - f.size }
    if remove then { s with folder := s.folder.remove f.name } else s
  else s

def unrefFile (s : DiskCacheShard) (p : Nat) : DiskCacheShard := s.unrefFileWithRemove p true

def close (s : DiskCacheShard) : DiskCacheShard :=
  let s := s.knownBuckets.entries.foldl (fun s e =>
    let s := s.unrefFileWithRemove e.2.file false
    { s with
      knownBucketsSize := s.knownBucketsSize - (e.2.size + headerSize)
      knownBuckets := s.knownBuckets.erase e.1 }) s
  let s := match s.readingFileTail with
    | none => s
    | some p => { s.unrefFileWithRemove p false with readingFileTail := none }
  match s.writingFile with
  | none => s
  | some p => { s.unrefFileWithRemove p false with writingFile := none }

/-- `TotalFileSize`: the total and what of it is not sent. -/
def totalFileSizes (s : DiskCacheShard) : Int × Int :=
  let unsent := s.knownBucketsSize + s.waitingFilesSize
  let unsent := match s.readingFileTail with
    | none => unsent
    | some p =>
      if (s.heap p).nextPos < (s.heap p).size then
        unsent + ((s.heap p).size - (s.heap p).nextPos)
      else unsent
  (s.totalFileSize, if s.totalFileSize < unsent then s.totalFileSize else unsent)

def rotateWritingFile (s : DiskCacheShard) (now : Now) (n : Nat) : DiskCacheShard :=
  match s.writingFile with
  | none => s
  | some p =>
    if fileRotateSize < (s.heap p).size + headerSize + n ∨
        fileRotateInterval ≤ now.nanoseconds - s.writingFileCreatedTs then
      { s.unrefFile p with writingFile := none }
    else s

def openFile (s : DiskCacheShard) (f : DiskCacheFile) : DiskCacheShard :=
  { s with heap := update s.heap s.nextFile f, nextFile := s.nextFile + 1 }

def openWritingFile (s : DiskCacheShard) (now : Now) : Except Error Nat × DiskCacheShard :=
  match s.writingFile with
  | some p => (.ok p, s)
  | none =>
    let filename := now.dt ++ ".seconds"
    match s.folder.create filename with
    | (false, folder) => (.error (.create filename), { s with folder })
    | (true, folder) =>
      (.ok s.nextFile, { s.openFile { name := filename, refCount := 1 } with
          folder, writingFile := some s.nextFile, writingFileCreatedTs := now.nanoseconds })

/-- Returns the file written to, which is then `writingFile`. -/
def writeSecond (s : DiskCacheShard) (now : Now) (second crc : BitVec 32) (data : List UInt8) :
    Except Error Nat × DiskCacheShard :=
  if maxChunkSize < data.length then (.error (.chunkTooBig data.length), s)
  else
    match (s.rotateWritingFile now data.length).openWritingFile now with
    | (.error e, s) => (.error e, s)
    | (.ok p, s) =>
      let f := s.heap p
      match s.folder.writeAt f.name f.size (header magicGoodBucket second data.length crc) with
      | (false, folder) =>
        (.error .writeHeader, { { s with folder }.unrefFile p with writingFile := none })
      | (true, folder) =>
        match folder.writeAt f.name (f.size + headerSize) data with
        | (false, folder) =>
          (.error .writeBody, { { s with folder }.unrefFile p with writingFile := none })
        | (true, folder) => (.ok p, { s with folder })

def putBucket (crc32c : List UInt8 → BitVec 32) (s : DiskCacheShard) (now : Now)
    (time : BitVec 32) (data : List UInt8) : Except Error Int × DiskCacheShard :=
  match s.writeSecond now time (crc32c data) data with
  | (.error e, s) => (.error e, s)
  | (.ok p, s) =>
    let f := s.heap p
    let sec : DiskCacheBucket := ⟨p, f.size, time, data.length, crc32c data⟩
    (.ok (s.lastBucketID + 1), { s with
        heap := update s.heap p
          { f with refCount := f.refCount + 1, size := f.size + (headerSize + data.length) }
        totalFileSize := s.totalFileSize + (headerSize + data.length)
        knownBucketsSize := s.knownBucketsSize + (data.length + headerSize)
        lastBucketID := s.lastBucketID + 1
        knownBuckets := s.knownBuckets.insert (s.lastBucketID + 1) sec })

def eraseBucket (s : DiskCacheShard) (id : Int) : Except Error Unit × DiskCacheShard :=
  match s.knownBuckets.lookup id with
  | none => (.ok (), s)
  | some sec =>
    let (written, folder) :=
      s.folder.writeAt (s.heap sec.file).name sec.pos (putUint32 magicDeletedBucket)
    let s := { s with folder }.unrefFile sec.file
    let s := { s with
      knownBucketsSize := s.knownBucketsSize - (sec.size + headerSize)
      knownBuckets := s.knownBuckets.erase id }
    (if written then .ok () else .error (.erase id sec.time), s)

def getBucket (crc32c : List UInt8 → BitVec 32) (s : DiskCacheShard) (id : Int)
    (time : BitVec 32) : Except Error (List UInt8) × DiskCacheShard :=
  match s.knownBuckets.lookup id with
  | none => (.error (.notKnown id), s)
  | some sec =>
    if sec.time ≠ time then (.error (.wrongSecond id sec.time time), s)
    else
      match s.folder.readAt (s.heap sec.file).name (sec.pos + headerSize) sec.size with
      | (none, folder) =>
        (.error (.read sec.pos id sec.time), ({ s with folder }.eraseBucket id).2)
      | (some data, folder) =>
        if crc32c data ≠ sec.crc then
          (.error (.wrongCrc id sec.time), ({ s with folder }.eraseBucket id).2)
        else (.ok data, { s with folder })

/-- How one turn of the loop of `ReadNextTailSecond` ends. -/
inductive Turn where
  | again (s : DiskCacheShard)
  | done (time : BitVec 32) (id : Int) (s : DiskCacheShard)
  | panicked

def unrefTail (s : DiskCacheShard) (p : Nat) : DiskCacheShard :=
  { s.unrefFile p with readingFileTail := none }

def skipTail (s : DiskCacheShard) (p n : Nat) : DiskCacheShard := { s with
    heap := update s.heap p { s.heap p with nextPos := (s.heap p).nextPos + (headerSize + n) } }

def knowTail (s : DiskCacheShard) (p : Nat) (time : BitVec 32) (n : Nat) (crc : BitVec 32) :
    Turn :=
  let f := s.heap p
  let id := s.lastBucketID + 1
  if id ∈ s.knownBuckets then .panicked
  else
    .done time id { s with
        heap := update s.heap p
          { f with refCount := f.refCount + 1, nextPos := f.nextPos + (headerSize + n) }
        lastBucketID := id
        knownBuckets := s.knownBuckets.insert id ⟨p, f.nextPos, time, n, crc⟩
        knownBucketsSize := s.knownBucketsSize + (n + headerSize) }

/-- What the tail reader makes of a header. -/
def readTailHeader (s : DiskCacheShard) (p : Nat) (h : List UInt8) : Turn :=
  let magic := uint32 (h.take 4)
  let time := uint32 ((h.drop 4).take 4)
  let chunkSize : Int := (BitVec.ofNat 64 (leNat ((h.drop 8).take 8))).toInt
  let crc := uint32 ((h.drop 16).take 4)
  let f := s.heap p
  if chunkSize < 0 ∨ maxChunkSize < chunkSize ∨ f.size < f.nextPos + headerSize + chunkSize then
    .again (s.unrefTail p)
  else if magic = magicDeletedBucket then .again (s.skipTail p chunkSize.toNat)
  else if magic ≠ magicGoodBucket then .again (s.unrefTail p)
  else s.knowTail p time chunkSize.toNat crc

/-- The tail file is opened in a turn of its own: the inner loop of the source goes on to the
header of the file it has just opened, which is what the next turn does. -/
def tailTurn (s : DiskCacheShard) : Turn :=
  match s.readingFileTail with
  | none =>
    match s.waitingFilesTail with
    | [] => .done 0 0 s
    | w :: rest =>
      let s := { s with waitingFilesSize := s.waitingFilesSize - w.size, waitingFilesTail := rest }
      match s.folder.open w.name with
      | (false, folder) => .again { s with folder, totalFileSize := s.totalFileSize - w.size }
      | (true, folder) =>
        .again { s.openFile { name := w.name, size := w.size, refCount := 1 } with
          folder, readingFileTail := some s.nextFile }
  | some p =>
    let f := s.heap p
    if f.size ≤ f.nextPos then .again (s.unrefTail p)
    else
      match s.folder.seek with
      | (false, folder) => .again ({ s with folder }.unrefTail p)
      | (true, folder) =>
        match folder.readAt f.name f.nextPos headerSize with
        | (none, folder) => .again ({ s with folder }.unrefTail p)
        | (some h, folder) => { s with folder }.readTailHeader p h

/-- Files to open or to finish. -/
def tailFiles (s : DiskCacheShard) : Nat :=
  2 * s.waitingFilesTail.length + s.readingFileTail.toList.length

/-- Bytes of the open tail file still to be read. -/
def tailBytes (s : DiskCacheShard) : Nat :=
  match s.readingFileTail with
  | none => 0
  | some p => (s.heap p).size - (s.heap p).nextPos

@[simp]
lemma waitingFilesTail_unrefFileWithRemove (s : DiskCacheShard) (p : Nat) (remove : Bool) :
    (s.unrefFileWithRemove p remove).waitingFilesTail = s.waitingFilesTail := by
  simp only [unrefFileWithRemove]
  split_ifs <;> rfl

lemma tailFiles_unrefTail {p : Nat} (h : s.readingFileTail = some p) :
    (s.unrefTail p).tailFiles < s.tailFiles := by
  simp [tailFiles, unrefTail, unrefFile, h]

lemma readTailHeader_work {p : Nat} {h : List UInt8} (again : s.readTailHeader p h = .again s')
    (hp : s.readingFileTail = some p) (left : (s.heap p).nextPos < (s.heap p).size) :
    s'.tailFiles < s.tailFiles ∨ s'.tailFiles = s.tailFiles ∧ s'.tailBytes < s.tailBytes := by
  simp only [readTailHeader, knowTail] at again
  split_ifs at again
  · cases again
    exact .inl (tailFiles_unrefTail hp)
  · cases again
    refine .inr ⟨rfl, ?_⟩
    simp only [tailBytes, skipTail, hp, update_self, headerSize]
    omega
  · cases again
    exact .inl (tailFiles_unrefTail hp)

lemma tailTurn_work (again : s.tailTurn = .again s') :
    s'.tailFiles < s.tailFiles ∨ s'.tailFiles = s.tailFiles ∧ s'.tailBytes < s.tailBytes := by
  simp only [tailTurn] at again
  split at again
  · rename_i hn
    split at again
    · cases again
    · rename_i w rest hw
      split at again <;>
      · cases again
        refine .inl ?_
        simp only [tailFiles, hw, openFile, List.length_cons, Option.toList_some, List.length_nil]
        omega
  · rename_i p hp
    split_ifs at again with he
    · cases again
      exact .inl (tailFiles_unrefTail hp)
    · split at again
      · cases again
        exact .inl (tailFiles_unrefTail hp)
      · split at again
        · cases again
          exact .inl (tailFiles_unrefTail hp)
        · have hr := readTailHeader_work again hp (not_le.1 he)
          exact hr

/-- The pair is zero when there are no more unknown buckets on disk; `none` is the panic on a
bucket id in use. -/
def readNextTailSecond (s : DiskCacheShard) : Option ((BitVec 32 × Int) × DiskCacheShard) :=
  match _ : s.tailTurn with
  | .again s' => readNextTailSecond s'
  | .done time id s' => some ((time, id), s')
  | .panicked => none
termination_by (s.tailFiles, s.tailBytes)
decreasing_by exact Prod.lex_def.mpr (tailTurn_work ‹_›)

lemma readNextTailSecond_again (h : s.tailTurn = .again s') :
    s.readNextTailSecond = s'.readNextTailSecond := by
  rw [readNextTailSecond]
  split <;> simp_all

lemma readNextTailSecond_done {time : BitVec 32} {id : Int} (h : s.tailTurn = .done time id s') :
    s.readNextTailSecond = some ((time, id), s') := by
  rw [readNextTailSecond]
  split <;> simp_all

lemma readNextTailSecond_panicked (h : s.tailTurn = .panicked) : s.readNextTailSecond = none := by
  rw [readNextTailSecond]
  split <;> simp_all

end DiskCacheShard

inductive Op where
  | putBucket (now : Now) (time : BitVec 32) (data : List UInt8)
  | getBucket (id : Int) (time : BitVec 32)
  | eraseBucket (id : Int)
  | readNextTailBucket
  /-- `Close`, then a new shard over the same folder. -/
  | restart
deriving Repr, DecidableEq

inductive Reply where
  | put (result : Except Error Int)
  | got (result : Except Error (List UInt8))
  | erased (result : Except Error Unit)
  | tail (time : BitVec 32) (id : Int)
  | restarted

section Run

variable (crc32c : List UInt8 → BitVec 32)

def step (s : DiskCacheShard) : Op → Option (Reply × DiskCacheShard)
  | .putBucket now time data =>
    let (result, s) := s.putBucket crc32c now time data
    some (.put result, s)
  | .getBucket id time =>
    let (result, s) := s.getBucket crc32c id time
    some (.got result, s)
  | .eraseBucket id =>
    let (result, s) := s.eraseBucket id
    some (.erased result, s)
  | .readNextTailBucket => do
    let ((time, id), s) ← s.readNextTailSecond
    some (.tail time id, s)
  | .restart => some (.restarted, .makeDiscCacheShard s.close.folder)

/-- The replies to a list of operations, in order. -/
def run (s : DiskCacheShard) : List Op → Option (List Reply × DiskCacheShard)
  | [] => some ([], s)
  | op :: ops => do
    let (reply, s) ← step crc32c s op
    let (replies, s) ← run s ops
    some (reply :: replies, s)

end Run

end DiskCache

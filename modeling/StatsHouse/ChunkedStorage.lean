import StatsHouse.TLCodec
import StatsHouse.HashChain

/-!
# Chunked files of saved state

A file is a row of chunks: a magic word, the size of the body, the body, and a 128-bit hash of
these bytes and of the hash of the chunk before. The reader stops at the first chunk that is
not intact and the writer goes on from there, over whatever bytes follow. The hash function is
a parameter; a file is the list of its bytes.
-/

namespace ChunkedStorage

open ByteCodec TLCodec List Nat HashChain
variable {file : List UInt8} {offset : Nat} {fault : ReadFault} {h : Uint128} {b : List UInt8}
  {r : List UInt8 × Nat × Uint128} {n size : Nat}

def chunkSize : Nat := 1024 * 1024

def chunkHeaderSize : Nat := 4 + 4

def chunkHashSize : Nat := 16

structure Uint128 where
  hi : BitVec 64
  lo : BitVec 64
deriving Repr, DecidableEq

/-- The hash before the first chunk. -/
def Uint128.zero : Uint128 := ⟨0, 0⟩

def bigEndianPutUint64 (x : BitVec 64) : List UInt8 := (leBytes 8 x.toNat).reverse

def bigEndianUint64 (b : List UInt8) : BitVec 64 := BitVec.ofNat 64 (leNat (b.take 8).reverse)

def putHash (h : Uint128) : List UInt8 := bigEndianPutUint64 h.hi ++ bigEndianPutUint64 h.lo

def getHash (b : List UInt8) : Uint128 := ⟨bigEndianUint64 b, bigEndianUint64 (b.drop 8)⟩

structure ChunkedStorage2 where
  offset : Nat := 0
  hash : Uint128 := .zero
  /-- Whether `ReadAt` is still set. -/
  reading : Bool := true
  nextOffset : Nat := 0
  nextHash : Uint128 := .zero
  initialFileSize : Nat
  magic : BitVec 32 := 0
  maxChunkSize : Nat := 0
  /-- Whether `writeErr` is set. -/
  writeErr : Bool := false
deriving Repr, DecidableEq

def newChunkedStorage2File (file : List UInt8) : ChunkedStorage2 :=
  { initialFileSize := file.length }

def readAt (file : List UInt8) (offset n : Nat) : List UInt8 := (file.drop offset).take n

/-- A gap between the end of the file and the offset is filled with zeros. -/
def writeAt (file : List UInt8) (offset : Nat) (data : List UInt8) : List UInt8 :=
  file.take offset ++ replicate (offset - file.length) 0 ++ data ++ file.drop (offset + data.length)

def truncate (file : List UInt8) (offset : Nat) : List UInt8 :=
  file.take offset ++ replicate (offset - file.length) 0

/-- Which of the two `ReadAt` calls of one `ReadNext` fails. -/
inductive ReadFault where
  | none
  | header
  | chunk
deriving Repr, DecidableEq

inductive ReadError where
  | readAt
  | headerOverflows (offset fileSize : Nat)
  | invalidMagic (offset : Nat) (found expected : BitVec 32)
  | overflowsHardLimit (offset size : Nat)
  | overflowsFileSize (offset size fileSize : Nat)
  | wrongHash (offset : Nat)
deriving Repr, DecidableEq

inductive WriteError where
  | discarded
  | write
  | truncate
  | tooBigItem (length : Nat)
deriving Repr, DecidableEq

section Storage

variable (hash128 : List UInt8 → Uint128)

/-- The chunk at an offset behind a hash: its body, the offset of the chunk that follows, and
its own hash. -/
def chunkAt (magic : BitVec 32) (fault : ReadFault) (file : List UInt8) (fileSize offset : Nat)
    (hash : Uint128) : Except ReadError (List UInt8 × Nat × Uint128) :=
  if offset + chunkHeaderSize + chunkHashSize > fileSize then
    .error (.headerOverflows offset fileSize)
  else if fault = .header then .error .readAt
  else
    let header := readAt file offset chunkHeaderSize
    let m := uint32 header
    if m ≠ magic then .error (.invalidMagic offset m magic)
    else
      let s := (uint32 (header.drop 4)).toNat
      if s > chunkSize then .error (.overflowsHardLimit offset s)
      else
        let nextChunkOffset := offset + chunkHeaderSize + s + chunkHashSize
        if nextChunkOffset > fileSize then .error (.overflowsFileSize offset s fileSize)
        else if fault = .chunk then .error .readAt
        else
          let currentChunk := readAt file offset (chunkHeaderSize + s + chunkHashSize)
          let actualHash := getHash (currentChunk.drop (chunkHeaderSize + s))
          let h := hash128 (putHash hash ++ currentChunk.take (chunkHeaderSize + s))
          if h ≠ actualHash then .error (.wrongHash offset)
          else
            .ok ((currentChunk.take (chunkHeaderSize + s)).drop chunkHeaderSize,
              nextChunkOffset, actualHash)

/-- The offset moves behind a chunk only when the next one is asked for, so a caller that gives
up on a chunk leaves the offset in front of it. -/
def readNext (magic : BitVec 32) (fault : ReadFault) (file : List UInt8) (c : ChunkedStorage2) :
    Except ReadError (List UInt8) × ChunkedStorage2 :=
  if c.reading then
    let c := { c with offset := c.nextOffset, hash := c.nextHash }
    if c.offset = c.initialFileSize then (.ok [], { c with reading := false })
    else
      match chunkAt hash128 magic fault file c.initialFileSize c.offset c.hash with
      | .error e => (.error e, c)
      | .ok (body, nextOffset, nextHash) =>
        (.ok body, { c with nextOffset := nextOffset, nextHash := nextHash })
  else (.ok [], c)

def ChunkedStorage2.resetToStartOfFile (c : ChunkedStorage2) : ChunkedStorage2 :=
  { c with hash := .zero, offset := 0, writeErr := false }

/-- The bytes that a caller collects, behind the room for the hash and the header. Callers only
append; `finishChunk` panics on a buffer without that room. -/
structure Chunk where
  bytes : List UInt8
  reserved : chunkHashSize + chunkHeaderSize ≤ bytes.length

def startChunk : Chunk := ⟨replicate (chunkHashSize + chunkHeaderSize) 0, by simp⟩

def Chunk.append (chunk : Chunk) (item : List UInt8) : Chunk := ⟨chunk.bytes ++ item, by
    rw [length_append]
    exact le_add_right_of_le chunk.reserved⟩

def Chunk.body (chunk : Chunk) : List UInt8 := chunk.bytes.drop (chunkHashSize + chunkHeaderSize)

def ChunkedStorage2.startWriteChunk (c : ChunkedStorage2) (magic : BitVec 32)
    (maxChunkSize : Int) : ChunkedStorage2 × Chunk :=
  let maxChunkSize :=
    if maxChunkSize ≤ 0 ∨ maxChunkSize > chunkSize then chunkSize else maxChunkSize.toNat
  ({ c with reading := false, magic := magic, maxChunkSize := maxChunkSize }, startChunk)

/-- What a call that may write leaves behind. -/
structure Written where
  storage : ChunkedStorage2
  file : List UInt8
  chunk : Chunk
  err : Option WriteError

/-- A failing write stores the given number of bytes before it fails. -/
def finishChunk (fault : Option Nat) (file : List UInt8) (c : ChunkedStorage2) (chunk : Chunk) :
    Written :=
  if chunk.bytes.length = chunkHashSize + chunkHeaderSize then ⟨c, file, chunk, none⟩
  else
    let chunk := putHash c.hash ++ putUint32 c.magic ++
      putUint32 (BitVec.ofNat 32 (chunk.bytes.length - chunkHashSize - chunkHeaderSize)) ++
      chunk.body
    let h := hash128 chunk
    let chunk := chunk ++ putHash h
    if c.writeErr then ⟨c, file, startChunk, some .discarded⟩
    else
      match fault with
      | some n =>
        ⟨{ c with writeErr := true }, writeAt file c.offset ((chunk.drop chunkHashSize).take n),
          startChunk, some .write⟩
      | none =>
        ⟨{ c with hash := h, offset := c.offset + (chunk.length - chunkHashSize) },
          writeAt file c.offset (chunk.drop chunkHashSize), startChunk, none⟩

def finishItem (fault : Option Nat) (file : List UInt8) (c : ChunkedStorage2) (chunk : Chunk) :
    Written :=
  if chunk.bytes.length < chunkHashSize + chunkHeaderSize + chunkSize / 2 then
    ⟨c, file, chunk, none⟩
  else if chunk.bytes.length > chunkHashSize + chunkHeaderSize + chunkSize then
    ⟨c, file, chunk, some (.tooBigItem chunk.bytes.length)⟩
  else finishChunk hash128 fault file c chunk

def finishWriteChunk (fault : Option Nat) (truncateFails : Bool) (file : List UInt8)
    (c : ChunkedStorage2) (chunk : Chunk) : Written :=
  let r := finishChunk hash128 fault file c chunk
  if r.err.isSome then r
  else if truncateFails then { r with err := some .truncate }
  else { r with file := truncate r.file r.storage.offset }

end Storage

lemma length_bigEndianPutUint64 (x : BitVec 64) : (bigEndianPutUint64 x).length = 8 := by
  simp [bigEndianPutUint64]

lemma bigEndianUint64_append (x : BitVec 64) (rest : List UInt8) :
    bigEndianUint64 (bigEndianPutUint64 x ++ rest) = x := by
  have hx : x.toNat < 256 ^ 8 := x.isLt
  have ht : (bigEndianPutUint64 x ++ rest).take 8 = bigEndianPutUint64 x :=
    take_left' (length_bigEndianPutUint64 x)
  rw [bigEndianUint64, ht]
  simp [bigEndianPutUint64, leNat_leBytes hx]

lemma bigEndianPutUint64_uint64 (h : 8 ≤ b.length) :
    bigEndianPutUint64 (bigEndianUint64 b) = b.take 8 := by
  have hl : (b.take 8).reverse.length = 8 := by simp [h]
  have hlt : leNat (b.take 8).reverse < 2 ^ 64 := leNat_lt hl
  simp only [bigEndianPutUint64, bigEndianUint64, BitVec.toNat_ofNat, mod_eq_of_lt hlt,
    leBytes_leNat hl, reverse_reverse]

@[simp] lemma length_putHash (h : Uint128) : (putHash h).length = chunkHashSize := by
  simp [putHash, length_bigEndianPutUint64, chunkHashSize]

lemma getHash_putHash (h : Uint128) : getHash (putHash h) = h := by
  have hd : (putHash h).drop 8 = bigEndianPutUint64 h.lo ++ [] := by
    exact drop_left' (length_bigEndianPutUint64 h.hi)
  have hhi : bigEndianUint64 (putHash h) = h.hi := bigEndianUint64_append h.hi _
  have hlo : bigEndianUint64 ((putHash h).drop 8) = h.lo := by
    exact bigEndianUint64_append h.lo []
  simp [getHash, hhi, hlo]

lemma putHash_getHash (h : b.length = chunkHashSize) : putHash (getHash b) = b := by
  have h16 : b.length = 16 := h
  have hr : 8 ≤ (b.drop 8).length := by
    rw [length_drop]
    omega
  have hl : (b.drop 8).take 8 = b.drop 8 := take_of_length_le (by
    rw [length_drop]
    omega)
  simp [putHash, getHash, bigEndianPutUint64_uint64 (show 8 ≤ b.length by omega),
    bigEndianPutUint64_uint64 hr, hl]

lemma putHash_inj (h h' : Uint128) (eq : putHash h = putHash h') : h = h' := by
  calc h = getHash (putHash h) := (getHash_putHash h).symm
    _ = getHash (putHash h') := congrArg getHash eq
    _ = h' := getHash_putHash h'

def header (magic : BitVec 32) (body : List UInt8) : List UInt8 :=
  putUint32 magic ++ putUint32 (BitVec.ofNat 32 body.length)

@[simp] lemma length_header (magic : BitVec 32) (body : List UInt8) :
    (header magic body).length = chunkHeaderSize := rfl

section Chain

variable (hash128 : List UInt8 → Uint128) (magic : BitVec 32) {body : List UInt8}

/-- The hash of the chunk with the given body, behind a chunk with the given hash. -/
def hashAfter (h : Uint128) (body : List UInt8) : Uint128 :=
  next hash128 putHash (header magic) h body

def chunkBytes (h : Uint128) (body : List UInt8) : List UInt8 :=
  link hash128 putHash (header magic) h body

/-- The bytes of a file that holds the given bodies and nothing else. -/
def fileOf (bodies : List (List UInt8)) : List UInt8 :=
  links hash128 putHash (header magic) .zero bodies

def lastHash (bodies : List (List UInt8)) : Uint128 :=
  last hash128 putHash (header magic) .zero bodies

variable {hash128 magic}

@[simp] lemma length_chunkBytes (h : Uint128) (body : List UInt8) :
    (chunkBytes hash128 magic h body).length = chunkHeaderSize + body.length + chunkHashSize :=
  length_link length_putHash (length_header magic) h body

lemma fileOf_concat (bodies : List (List UInt8)) (body : List UInt8) :
    fileOf hash128 magic (bodies ++ [body]) =
      fileOf hash128 magic bodies ++
        chunkBytes hash128 magic (lastHash hash128 magic bodies) body := by
  simp only [fileOf, links_append, links, append_nil]
  rfl

lemma fileOf_starts (bodies more : List (List UInt8)) :
    fileOf hash128 magic bodies <+: fileOf hash128 magic (bodies ++ more) := by
  simp only [fileOf, links_append]
  exact prefix_append _ _

variable (hash128 magic) in
lemma length_le_fileOf (bodies : List (List UInt8)) :
    bodies.length ≤ (fileOf hash128 magic bodies).length := by
  induction bodies using reverseRecOn with
  | nil => exact zero_le _
  | append_singleton bodies body ih =>
    simp only [fileOf_concat, length_append, length_chunkBytes, length_singleton, chunkHashSize]
    omega

lemma lastHash_concat (bodies : List (List UInt8)) (body : List UInt8) :
    lastHash hash128 magic (bodies ++ [body]) =
      hashAfter hash128 magic (lastHash hash128 magic bodies) body :=
  last_append _ _ _

lemma readAt_append {xs ys : List UInt8} (bytes : file.drop offset = xs ++ ys)
    (hn : xs.length = n) :
    readAt file offset n = xs := by
  rw [readAt, bytes]
  exact take_left' hn

lemma drop_eq_readAt_append (file : List UInt8) (offset n : Nat) :
    file.drop offset = readAt file offset n ++ file.drop (offset + n) := by
  rw [readAt, ← drop_drop, take_append_drop]

lemma length_readAt (fits : offset + n ≤ file.length) : (readAt file offset n).length = n := by
  rw [readAt, length_take, length_drop]
  omega

lemma chunkAt_of_fault (ok : chunkAt hash128 magic fault file size offset h = .ok r) :
    chunkAt hash128 magic .none file size offset h = .ok r := by
  unfold chunkAt at ok ⊢
  simp only at ok ⊢
  split_ifs at ok with hh hflt hm hs hf hflt' ha
  rw [if_neg hh, if_neg (by decide), if_neg hm, if_neg hs, if_neg hf,
    if_neg (by decide), if_neg ha, ok]

/-- What the reader does with bytes that are long enough for the chunk they announce. -/
lemma chunkAt_pieces {head tag rest : List UInt8}
    (bytes : file.drop offset = head ++ (body ++ (tag ++ rest)))
    (hh : head.length = chunkHeaderSize) (hsize : (uint32 (head.drop 4)).toNat = body.length)
    (tagLen : tag.length = chunkHashSize) (fits : body.length ≤ chunkSize) :
    chunkAt hash128 magic .none file file.length offset h =
      if uint32 head ≠ magic then .error (.invalidMagic offset (uint32 head) magic)
      else if hash128 (putHash h ++ (head ++ body)) ≠ getHash tag then .error (.wrongHash offset)
      else .ok (body, offset + chunkHeaderSize + body.length + chunkHashSize, getHash tag) := by
  have hl := congrArg length bytes
  simp only [length_drop, length_append, hh, tagLen] at hl
  have hf := readAt_append bytes hh
  have ha : readAt file offset (chunkHeaderSize + body.length + chunkHashSize) =
      head ++ body ++ tag := by
    have hfl' : file.drop offset = head ++ body ++ tag ++ rest := by
      simpa only [append_assoc] using bytes
    apply readAt_append hfl'
    simp only [length_append, hh, tagLen]
  have hc : (head ++ body).length = chunkHeaderSize + body.length := by
    rw [length_append, hh]
  have hr : ¬offset + chunkHeaderSize + chunkHashSize > file.length := by
    simp only [chunkHashSize] at hl ⊢
    omega
  have hb : ¬offset + chunkHeaderSize + body.length + chunkHashSize > file.length := by
    simp only [chunkHashSize] at hl ⊢
    omega
  simp only [chunkAt, if_neg hr, hf, hsize, if_neg (not_lt.2 fits),
    if_neg hb, ha, drop_left' hc, take_left' hc, drop_left' hh,
    reduceCtorEq, if_false]

lemma header_of_bytes {head : List UInt8} (hh : head.length = chunkHeaderSize)
    (hmagic : uint32 head = magic) (hsize : (uint32 (head.drop 4)).toNat = body.length) :
    header magic body = head := by
  have hf : (head.take 4).length = 4 := by simp [hh, chunkHeaderSize]
  have hfr' : (head.drop 4).length = 4 := by simp [hh, chunkHeaderSize]
  have hw : uint32 (head.take 4) = uint32 head := by
    obtain ⟨b₀, b₁, b₂, b₃, hb⟩ := length_eq_four.1 hf
    have hs := take_append_drop 4 head
    rw [hb] at hs
    rw [hb, ← hs]
    rfl
  have ha : putUint32 magic = head.take 4 := by
    rw [← hmagic, ← hw]
    exact putUint32_uint32 hf
  have hc : putUint32 (BitVec.ofNat 32 body.length) = head.drop 4 := by
    rw [← hsize, BitVec.ofNat_toNat, BitVec.setWidth_eq]
    exact putUint32_uint32 hfr'
  rw [header, ha, hc, take_append_drop]

/-- The reader accepts intact chunks only. -/
theorem chunkAt_ok {next : Nat} {h' : Uint128}
    (ok : chunkAt hash128 magic fault file file.length offset h = .ok (body, next, h')) :
    body.length ≤ chunkSize ∧ chunkBytes hash128 magic h body <+: file.drop offset ∧
      next = offset + (chunkBytes hash128 magic h body).length ∧
      h' = hashAfter hash128 magic h body := by
  have ho := ok
  unfold chunkAt at ho
  simp only at ho
  split_ifs at ho with hd hflt hm hz ht
  rw [not_lt] at hz ht
  clear ho hd hflt hm
  generalize hs : (uint32 ((readAt file offset chunkHeaderSize).drop 4)).toNat = s at hz ht
  have hf := drop_eq_readAt_append file offset chunkHeaderSize
  rw [drop_eq_readAt_append file (offset + chunkHeaderSize) s,
    drop_eq_readAt_append file (offset + chunkHeaderSize + s) chunkHashSize] at hf
  have hh := length_readAt (show offset + chunkHeaderSize ≤ file.length by omega)
  have hb := length_readAt (show offset + chunkHeaderSize + s ≤ file.length by omega)
  have hg := length_readAt ht
  generalize readAt file offset chunkHeaderSize = head at hs hf hh
  generalize readAt file (offset + chunkHeaderSize) s = bd at hf hb
  generalize readAt file (offset + chunkHeaderSize + s) chunkHashSize = tag at hf hg
  have ho := chunkAt_of_fault ok
  rw [chunkAt_pieces hf hh (hs.trans hb.symm) hg (hb.le.trans hz)] at ho
  split_ifs at ho with hm ha
  obtain ⟨rfl, rfl, rfl⟩ := by simpa only [Except.ok.injEq, Prod.mk.injEq] using ho
  have hd := header_of_bytes hh (not_not.1 hm) (hs.trans hb.symm)
  have hn : hashAfter hash128 magic h bd = getHash tag := by
    rw [← not_not.1 ha, hashAfter, HashChain.next, covered, hd]
  have hc : chunkBytes hash128 magic h bd = head ++ bd ++ tag := by
    rw [chunkBytes, link, hd, ← hashAfter, hn, putHash_getHash hg]
  refine ⟨hb.le.trans hz, ?_, ?_, hn.symm⟩
  · rw [hc, hf]
    exact ⟨file.drop (offset + chunkHeaderSize + s + chunkHashSize), by
      simp only [append_assoc]⟩
  · rw [length_chunkBytes]
    omega

/-- The reader accepts every intact chunk. -/
theorem chunkAt_chunkBytes (fits : body.length ≤ chunkSize)
    (bytes : chunkBytes hash128 magic h body <+: file.drop offset) :
    chunkAt hash128 magic .none file file.length offset h =
      .ok (body, offset + (chunkBytes hash128 magic h body).length,
        hashAfter hash128 magic h body) := by
  obtain ⟨rest, hr⟩ := bytes
  have hp : file.drop offset = header magic body ++
      (body ++ (putHash (hashAfter hash128 magic h body) ++ rest)) := by
    simp [← hr, chunkBytes, link, hashAfter]
  have hs : body.length < 2 ^ 32 := fits.trans_lt (by decide)
  have hb : (uint32 ((header magic body).drop 4)).toNat = body.length := by
    have hd : (header magic body).drop 4 = putUint32 (BitVec.ofNat 32 body.length) := rfl
    rw [hd, uint32_putUint32, BitVec.toNat_ofNat, mod_eq_of_lt hs]
  have hm : uint32 (header magic body) = magic := uint32_putUint32 magic
  have hh : hash128 (putHash h ++ (header magic body ++ body)) =
      hashAfter hash128 magic h body := rfl
  rw [chunkAt_pieces hp (length_header magic body) hb (length_putHash _) fits,
    if_neg (not_not_intro hm), getHash_putHash, if_neg (not_not_intro hh),
    length_chunkBytes, add_assoc offset, add_assoc offset]

variable (hash128 magic) in
/-- The offset is the end of the given bodies at the start of the file, and the hash is the hash
of the last of them. -/
structure Boundary (file : List UInt8) (bodies : List (List UInt8)) (offset : Nat)
    (h : Uint128) : Prop where
  starts : fileOf hash128 magic bodies <+: file
  offset_eq : offset = (fileOf hash128 magic bodies).length
  hash_eq : h = lastHash hash128 magic bodies

lemma Boundary.start (file : List UInt8) : Boundary hash128 magic file [] 0 .zero :=
  ⟨ nil_prefix, rfl, rfl⟩

variable {file : List UInt8} {bodies : List (List UInt8)} {offset : Nat} {h : Uint128}

section

variable (at_ : Boundary hash128 magic file bodies offset h)
include at_

lemma Boundary.offset_le : offset ≤ file.length := by
  rw [at_.offset_eq]
  exact at_.starts.length_le

lemma Boundary.take : file.take offset = fileOf hash128 magic bodies := by
  rw [at_.offset_eq]
  exact (prefix_iff_eq_take.1 at_.starts).symm

/-- Only the bytes before the offset matter. -/
lemma Boundary.of_take {file' : List UInt8} (same : file'.take offset = file.take offset) :
    Boundary hash128 magic file' bodies offset h := by
  refine ⟨?_, at_.offset_eq, at_.hash_eq⟩
  rw [← at_.take, ← same]
  exact take_prefix offset file'

end

lemma writeAt_of_le {data : List UInt8} (hle : offset ≤ file.length) :
    writeAt file offset data = file.take offset ++ data ++ file.drop (offset + data.length) := by
  simp [writeAt, Nat.sub_eq_zero_of_le hle]

lemma truncate_of_le (hle : offset ≤ file.length) : truncate file offset = file.take offset := by
  simp [truncate, Nat.sub_eq_zero_of_le hle]

lemma take_writeAt (data : List UInt8) (hle : offset ≤ file.length) :
    (writeAt file offset data).take offset = file.take offset := by
  rw [writeAt_of_le hle, append_assoc]
  exact take_left' (length_take_of_le hle)

variable (at_ : Boundary hash128 magic file bodies offset h)
include at_

lemma Boundary.next (follows : chunkBytes hash128 magic h body <+: file.drop offset) :
    Boundary hash128 magic file (bodies ++ [body])
      (offset + (chunkBytes hash128 magic h body).length) (hashAfter hash128 magic h body) := by
  have hb : fileOf hash128 magic (bodies ++ [body]) =
      file.take offset ++ chunkBytes hash128 magic h body := by
    rw [fileOf_concat, at_.take, at_.hash_eq]
  refine ⟨?_, ?_, ?_⟩
  · rw [hb]
    nth_rewrite 2 [← take_append_drop offset file]
    exact prefix_append_right_inj _ |>.mpr follows
  · rw [hb, length_append, length_take_of_le at_.offset_le]
  · rw [lastHash_concat, at_.hash_eq]

lemma Boundary.write (body : List UInt8) :
    Boundary hash128 magic (writeAt file offset (chunkBytes hash128 magic h body))
      (bodies ++ [body]) (offset + (chunkBytes hash128 magic h body).length)
      (hashAfter hash128 magic h body) := by
  apply (at_.of_take (take_writeAt _ at_.offset_le)).next
  rw [writeAt_of_le at_.offset_le, append_assoc, drop_left' (length_take_of_le at_.offset_le)]
  exact prefix_append _ _

end Chain

section Writer

variable {hash128 : List UInt8 → Uint128} {file : List UInt8} {c : ChunkedStorage2} {chunk : Chunk}
  {fault : Option Nat}

@[simp] lemma body_startChunk : startChunk.body = [] := rfl

lemma Chunk.length_bytes (chunk : Chunk) :
    chunk.bytes.length = chunkHashSize + chunkHeaderSize + chunk.body.length := by
  have hr := chunk.reserved
  rw [Chunk.body, length_drop]
  omega

@[simp] lemma Chunk.body_append (chunk : Chunk) (item : List UInt8) :
    (chunk.append item).body = chunk.body ++ item :=
  drop_append_of_le_length chunk.reserved

lemma finishChunk_empty (empty : chunk.body = []) :
    finishChunk hash128 fault file c chunk = ⟨c, file, chunk, none⟩ := by
  have hl : chunk.bytes.length = chunkHashSize + chunkHeaderSize := by
    rw [chunk.length_bytes, empty, length_nil, add_zero]
  rw [finishChunk, if_pos hl]

/-- The bytes that go to the file, cut at the given number when the write fails. -/
lemma finishChunk_nonempty (full : chunk.body ≠ []) : finishChunk hash128 fault file c chunk =
      if c.writeErr then ⟨c, file, startChunk, some .discarded⟩
      else
        match fault with
        | some n =>
          ⟨{ c with writeErr := true },
            writeAt file c.offset ((chunkBytes hash128 c.magic c.hash chunk.body).take n),
            startChunk, some .write⟩
        | none =>
          ⟨{ c with
              hash := hashAfter hash128 c.magic c.hash chunk.body
              offset := c.offset + (chunkBytes hash128 c.magic c.hash chunk.body).length },
            writeAt file c.offset (chunkBytes hash128 c.magic c.hash chunk.body),
            startChunk, none⟩ := by
  have hl : chunk.bytes.length ≠ chunkHashSize + chunkHeaderSize := by
    have hp := length_pos_iff.2 full
    have := chunk.length_bytes
    omega
  have hs : chunk.bytes.length - chunkHashSize - chunkHeaderSize = chunk.body.length := by
    have := chunk.length_bytes
    omega
  have hc : putHash c.hash ++ putUint32 c.magic ++
      putUint32 (BitVec.ofNat 32 chunk.body.length) ++ chunk.body =
        covered putHash (header c.magic) c.hash chunk.body := by
    simp [covered, header]
  have hd : (covered putHash (header c.magic) c.hash chunk.body ++
      putHash (hashAfter hash128 c.magic c.hash chunk.body)).drop chunkHashSize =
        chunkBytes hash128 c.magic c.hash chunk.body := by
    exact drop_left' (length_putHash c.hash)
  have hg : (covered putHash (header c.magic) c.hash chunk.body ++
      putHash (hashAfter hash128 c.magic c.hash chunk.body)).length - chunkHashSize =
        (chunkBytes hash128 c.magic c.hash chunk.body).length := by
    rw [← length_drop, hd]
  have hh : hash128 (covered putHash (header c.magic) c.hash chunk.body) =
      hashAfter hash128 c.magic c.hash chunk.body := rfl
  simp only [finishChunk, if_neg hl, hs, hc, hh, hd, hg]

end Writer

end ChunkedStorage

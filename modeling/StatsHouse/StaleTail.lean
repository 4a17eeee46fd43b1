import StatsHouse.ChunkedSessions

/-!
# Rewriting a chunked file from its start

A caller that saves everything again resets the storage and writes over the old file. When it
is stopped between two chunk writes the rest of the old file is still there. Old chunks are
not read behind new ones, because a chunk's hash covers the hash before it. The exceptions are
a new row of chunks with which the old file starts anyway, and bytes inside an old chunk that
form a chunk of their own.
-/

namespace ChunkedStorage

open ByteCodec List HashChain
variable {bodies : List (List UInt8)} {file : List UInt8}

section Rewrite

variable (hash128 : List UInt8 → Uint128) (magic : BitVec 32)

/-- Completed chunk writes, one after the other. -/
def writeChunks (s : ChunkedStorage2 × List UInt8) (bodies : List (List UInt8)) :
    ChunkedStorage2 × List UInt8 :=
  bodies.foldl (fun s body =>
    let r := finishChunk hash128 none s.2 s.1 (startChunk.append body)
    (r.storage, r.file)) s

/-- The file after a reset and the given chunks, with no cut at the end. -/
def rewriteFile (maxChunkSize : Int) (c : ChunkedStorage2) (file : List UInt8)
    (bodies : List (List UInt8)) : List UInt8 :=
  (writeChunks hash128 ((c.resetToStartOfFile.startWriteChunk magic maxChunkSize).1, file) bodies).2

/-- Every byte string that the hash is taken of: along the old chunks, along the new ones, and
when an old chunk is read behind the new ones. -/
def involved (old new : List (List UInt8)) : List (List UInt8) :=
  coverings hash128 putHash (header magic) .zero old ++
    coverings hash128 putHash (header magic) .zero new ++
    old.map (covered putHash (header magic) (lastHash hash128 magic new))

/-- One of the given chunks starts at the offset. -/
def StartsChunk (bodies : List (List UInt8)) (offset : Nat) : Prop :=
  ∃ before body after, bodies = before ++ body :: after ∧
    offset = (fileOf hash128 magic before).length

variable {hash128 magic}

lemma writeAt_append (start rest data : List UInt8) :
    writeAt (start ++ rest) start.length data = start ++ data ++ rest.drop data.length := by
  rw [writeAt_of_le (by rw [length_append]; omega), take_left, drop_append]
  simp

lemma writeChunks_file (done : List (List UInt8)) {c : ChunkedStorage2} (noErr : c.writeErr = false)
    (magic_eq : c.magic = magic) (offset_eq : c.offset = (fileOf hash128 magic done).length)
    (hash_eq : c.hash = lastHash hash128 magic done) (full : ∀ b ∈ bodies, b ≠ []) :
    (writeChunks hash128
        (c, fileOf hash128 magic done ++ file.drop (fileOf hash128 magic done).length) bodies).2 =
      fileOf hash128 magic (done ++ bodies) ++
        file.drop (fileOf hash128 magic (done ++ bodies)).length := by
  induction bodies generalizing c done with
  | nil => simp [writeChunks]
  | cons body bodies ih =>
    have hd : (startChunk.append body).body = body := by
      rw [Chunk.body_append, body_startChunk, nil_append]
    have hf : (startChunk.append body).body ≠ [] := by
      exact full body (.head _)
    have hl : fileOf hash128 magic done ++ chunkBytes hash128 magic c.hash body ++
        (file.drop (fileOf hash128 magic done).length).drop
          (chunkBytes hash128 magic c.hash body).length =
        fileOf hash128 magic (done ++ [body]) ++
          file.drop (fileOf hash128 magic (done ++ [body])).length := by
      rw [fileOf_concat, hash_eq, drop_drop, length_append]
    have hs : done ++ body :: bodies = done ++ [body] ++ bodies := by simp
    subst magic_eq
    simp only [writeChunks, foldl_cons, finishChunk_nonempty hf, hd, noErr,
      Bool.false_eq_true, if_false, offset_eq, writeAt_append, hl]
    rw [hs]
    refine ih (done ++ [body]) rfl rfl ?_ ?_ fun b hb => full b (mem_cons_of_mem body hb)
    · rw [fileOf_concat, length_append, hash_eq]
    · rw [lastHash_concat, hash_eq]

/-- Two chunks at one place have one body and one hash. -/
lemma chunkBytes_inj {h h' : Uint128} {body body' bytes : List UInt8}
    (small : body.length ≤ chunkSize) (small' : body'.length ≤ chunkSize)
    (starts : chunkBytes hash128 magic h body <+: bytes)
    (starts' : chunkBytes hash128 magic h' body' <+: bytes) :
    body = body' ∧ hashAfter hash128 magic h body = hashAfter hash128 magic h' body' := by
  obtain ⟨rest, hr⟩ := starts
  obtain ⟨rest', hr'⟩ := starts'
  have heq := hr.trans hr'.symm
  simp only [chunkBytes, link, append_assoc] at heq
  obtain ⟨hh, ht⟩ := append_inj heq rfl
  have hl : body.length = body'.length := by
    have hs := congrArg BitVec.toNat (putUint32_injective (append_inj hh rfl).2)
    have hb : chunkSize < 2 ^ 32 := by decide
    rwa [BitVec.toNat_ofNat, BitVec.toNat_ofNat, Nat.mod_eq_of_lt (small.trans_lt hb),
      Nat.mod_eq_of_lt (small'.trans_lt hb)] at hs
  obtain ⟨hd, hg⟩ := append_inj ht hl
  exact ⟨hd, putHash_inj _ _ (append_inj hg (by simp only [length_putHash])).1⟩

/-- An old chunk is read behind the new ones only where the old file starts with them. -/
lemma old_starts_with {old new : List (List UInt8)} {body tail : List UInt8}
    (readable : ∀ b ∈ old, Readable b) (small : body.length ≤ chunkSize)
    (separates : HashChain.Separates hash128 (involved hash128 magic old new))
    (starts : StartsChunk hash128 magic old (fileOf hash128 magic new).length)
    (reads : chunkBytes hash128 magic (lastHash hash128 magic new) body <+:
      (fileOf hash128 magic old ++ tail).drop (fileOf hash128 magic new).length) : new <+: old := by
  obtain ⟨before, stored, after, rfl, ho⟩ := starts
  have hold : before ++ stored :: after = before ++ [stored] ++ after := by simp
  have ht : chunkBytes hash128 magic (lastHash hash128 magic before) stored <+:
      (fileOf hash128 magic (before ++ stored :: after) ++ tail).drop
        (fileOf hash128 magic new).length := by
    have hf : fileOf hash128 magic (before ++ [stored]) <+:
        fileOf hash128 magic (before ++ [stored] ++ after) ++ tail :=
      (fileOf_starts _ _).trans (prefix_append _ tail)
    rw [← hold, fileOf_concat] at hf
    obtain ⟨rest, hr⟩ := hf
    rw [ho, ← hr, append_assoc, drop_left]
    exact prefix_append _ _
  have hs := readable stored (mem_append_right _ (.head _))
  obtain ⟨rfl, hh⟩ := chunkBytes_inj small hs.2 reads ht
  have hc := separates (covered putHash (header magic) (lastHash hash128 magic new) body)
    (mem_append_right _ (mem_map_of_mem (mem_append_right _ (.head _))))
    (covered putHash (header magic) (lastHash hash128 magic before) body)
    (by
      apply mem_append_left
      apply mem_append_left
      rw [coverings_append]
      exact mem_append_right _ (.head _))
    hh
  have hl := (covered_inj length_putHash (length_header magic) putHash_inj hc).1
  have ha : new = before := by
    refine eq_of_last length_putHash (length_header magic) putHash_inj (by decide)
      (separates.mono ?_) hl ho
    intro x hx
    obtain hx | hx := mem_append.1 hx
    · exact mem_append_left _ (mem_append_right _ hx)
    · apply mem_append_left
      apply mem_append_left
      rw [coverings_append]
      exact mem_append_left _ hx
  rw [ha]
  exact prefix_append _ _

/-- A file that starts with intact chunks and holds no chunk behind them. -/
lemma readAll_of_nothing_behind (readable : ∀ b ∈ bodies, Readable b)
    (starts : fileOf hash128 magic bodies <+: file) (nothing : ∀ body, Readable body →
      ¬ chunkBytes hash128 magic (lastHash hash128 magic bodies) body <+:
        file.drop (fileOf hash128 magic bodies).length) :
    ∃ stop, stop ≠ .aborted ∧ readAll hash128 magic file = (bodies, stop) := by
  obtain ⟨n, hn⟩ := Nat.exists_eq_add_of_le
    ((length_le_fileOf hash128 magic bodies).trans starts.length_le)
  obtain ⟨offset, h, ha, hr⟩ := readFrom_fileOf (n + 1) (Boundary.start file) readable starts
  rw [nil_append] at ha
  rw [← ha.offset_eq, ← ha.hash_eq] at nothing
  rw [readAll_eq_readFrom, hn, Nat.add_assoc, hr, readFrom]
  split_ifs with atEnd
  · exact ⟨.finished, by decide, by simp⟩
  · split
    · exact ⟨.failed _, Stop.noConfusion, by rw [append_nil]⟩
    · exact ⟨.finished, by decide, by simp⟩
    · rename_i b bs next h' hc
      obtain ⟨hs, hf, _, _⟩ := chunkAt_ok hc
      exact absurd hf (nothing (b :: bs) ⟨cons_ne_nil b bs, hs⟩)

end Rewrite

/-- The old file is any row of chunks with any bytes behind it. Its chunks are not read behind
the new ones: the file reads as the new chunks, or it is the old file because the old file
starts with them. Bytes at which no old chunk starts are taken not to form a chunk there. -/
theorem rewriteFile_reads (hash128 : List UInt8 → Uint128) (magic : BitVec 32)
    (maxChunkSize : Int) (c : ChunkedStorage2) (old new : List (List UInt8)) (tail : List UInt8)
    (oldReadable : ∀ b ∈ old, Readable b) (newReadable : ∀ b ∈ new, Readable b)
    (separates : HashChain.Separates hash128 (involved hash128 magic old new))
    (unframed : ¬ StartsChunk hash128 magic old (fileOf hash128 magic new).length →
      ∀ body, ¬ chunkBytes hash128 magic (lastHash hash128 magic new) body <+:
        (fileOf hash128 magic old ++ tail).drop (fileOf hash128 magic new).length) :
    (new <+: old → rewriteFile hash128 magic maxChunkSize c (fileOf hash128 magic old ++ tail) new =
        fileOf hash128 magic old ++ tail) ∧
    (¬ new <+: old → ∃ stop, stop ≠ .aborted ∧ readAll hash128 magic
        (rewriteFile hash128 magic maxChunkSize c (fileOf hash128 magic old ++ tail) new) =
          (new, stop)) := by
  have hf : rewriteFile hash128 magic maxChunkSize c (fileOf hash128 magic old ++ tail) new =
      fileOf hash128 magic new ++ (fileOf hash128 magic old ++ tail).drop
        (fileOf hash128 magic new).length :=
    writeChunks_file [] rfl rfl rfl rfl fun b hb => (newReadable b hb).1
  constructor
  · rintro ⟨rest, rfl⟩
    have hs : fileOf hash128 magic new <+: fileOf hash128 magic (new ++ rest) ++ tail :=
      (fileOf_starts new rest).trans (prefix_append _ tail)
    obtain ⟨bytes, ha⟩ := hs
    rw [hf, ← ha, drop_left]
  · intro hn
    rw [hf]
    apply readAll_of_nothing_behind newReadable (prefix_append _ _)
    intro body readable reads
    rw [drop_left] at reads
    by_cases starts : StartsChunk hash128 magic old (fileOf hash128 magic new).length
    · exact hn (old_starts_with oldReadable readable.2 separates starts reads)
    · exact unframed starts body reads

/-- A hash that depends on every byte. -/
def polynomialHash (bytes : List UInt8) : Uint128 :=
  ⟨0, BitVec.ofNat 64 (bytes.foldl (fun a x => 31 * a + x.toNat) 7)⟩

/-- A body with a chunk inside, at the place where a one-byte chunk over it ends. -/
def nestingBody : List UInt8 :=
  List.replicate 17 0 ++ chunkBytes polynomialHash 1 (lastHash polynomialHash 1 [[1]]) [3]

theorem rewriteFile_reads_changed : ∃ stop, stop ≠ .aborted ∧
      readAll polynomialHash 1 (rewriteFile polynomialHash 1 0 (newChunkedStorage2File [])
        (fileOf polynomialHash 1 [[1], [2]] ++ []) [[5]]) = ([[5]], stop) := by
  refine (rewriteFile_reads polynomialHash 1 0 (newChunkedStorage2File []) [[1], [2]] [[5]] []
    ?_ ?_ ?_ ?_).2 (by decide)
  · unfold Readable
    decide
  · unfold Readable
    decide
  · unfold HashChain.Separates
    decide +kernel
  · intro hs
    exact absurd ⟨[[1]], [2], [], rfl, by decide +kernel⟩ hs

/-- Both exceptions occur: the old second chunk behind an equal first one, and a chunk that was
never written as one. -/
theorem rewriteFile_reads_counterexample :
    (HashChain.Separates polynomialHash (involved polynomialHash 1 [[1], [2]] [[1]]) ∧
      (readAll polynomialHash 1 (rewriteFile polynomialHash 1 0 (newChunkedStorage2File [])
        (fileOf polynomialHash 1 [[1], [2]]) [[1]])).1 = [[1], [2]]) ∧
    HashChain.Separates polynomialHash (involved polynomialHash 1 [nestingBody] [[1]]) ∧
      (readAll polynomialHash 1 (rewriteFile polynomialHash 1 0 (newChunkedStorage2File [])
        (fileOf polynomialHash 1 [nestingBody]) [[1]])).1 = [[1], [3]] := by
  unfold HashChain.Separates
  decide +kernel

end ChunkedStorage

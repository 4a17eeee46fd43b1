import StatsHouse.ChunkedStorage

/-!
# Sessions over a chunked file

A caller opens the file, asks for chunks until the end, an error or a chunk it does not want,
and then appends items. Whatever bytes the file held, what the caller accepted is kept and what
it appended follows; everything behind is cut off. A failed write stops the writer.
-/

namespace ChunkedStorage

open List Bool Or
variable {bodies : List (List UInt8)} {file : List UInt8} {c : ChunkedStorage2}

inductive Stop where
  /-- The caller asked for no further chunk. -/
  | aborted
  | finished
  | failed (e : ReadError)
deriving Repr, DecidableEq

structure Reading where
  chunks : List (List UInt8)
  stop : Stop
  storage : ChunkedStorage2

/-- The chunks that count as read: the offset is still in front of a chunk after which the
caller stopped. -/
def Reading.accepted (r : Reading) : List (List UInt8) :=
  match r.stop with
  | .aborted => r.chunks.dropLast
  | _ => r.chunks

/-- Calls in the order in which a caller makes them. -/
inductive Call where
  | readNext (fault : ReadFault)
  | resetToStartOfFile
  | startWriteChunk (maxChunkSize : Int)
  | item (bytes : List UInt8) (fault : Option Nat)
  | finishWriteChunk (fault : Option Nat) (truncateFails : Bool)
deriving Repr, DecidableEq

/-- The storage, its file and the chunk that the caller is filling. -/
structure Client where
  storage : ChunkedStorage2
  file : List UInt8
  chunk : Option Chunk := none

def Client.openFile (file : List UInt8) : Client := ⟨newChunkedStorage2File file, file, none⟩

structure Round where
  maxChunkSize : Int
  items : List (List UInt8)

def Round.calls (r : Round) : List Call :=
  .startWriteChunk r.maxChunkSize :: (r.items.map (Call.item · none) ++
    [.finishWriteChunk none false])

/-- One entry for each `ReadNext` the caller is ready to make, and at least one round of
writing. -/
structure Session where
  reads : List ReadFault
  first : Round
  more : List Round

def Session.items (s : Session) : List (List UInt8) := (s.first :: s.more).flatMap Round.items

section Defs

variable (hash128 : List UInt8 → Uint128) (magic : BitVec 32)

/-- The loop of every caller: an empty chunk is the end. -/
def readChunks (file : List UInt8) : List ReadFault → ChunkedStorage2 → Reading
  | [], c => ⟨[], .aborted, c⟩
  | fault :: faults, c =>
    match readNext hash128 magic fault file c with
    | (.error e, c) => ⟨[], .failed e, c⟩
    | (.ok [], c) => ⟨[], .finished, c⟩
    | (.ok (b :: bs), c) =>
      let r := readChunks file faults c
      ⟨(b :: bs) :: r.chunks, r.stop, r.storage⟩

/-- Everything that a new storage reads from the start of the file. -/
def readAll (file : List UInt8) : List (List UInt8) × Stop :=
  let r := readChunks hash128 magic file (replicate (file.length + 1) .none)
    (newChunkedStorage2File file)
  (r.chunks, r.stop)

def Client.step (s : Client) : Call → Client
  | .readNext fault => { s with storage := (readNext hash128 magic fault s.file s.storage).2 }
  | .resetToStartOfFile => { s with storage := s.storage.resetToStartOfFile }
  | .startWriteChunk maxChunkSize =>
    let r := s.storage.startWriteChunk magic maxChunkSize
    { s with storage := r.1, chunk := some r.2 }
  | .item bytes fault =>
    match s.chunk with
    | none => s
    | some chunk =>
      let r := finishItem hash128 fault s.file s.storage (chunk.append bytes)
      ⟨r.storage, r.file, some r.chunk⟩
  | .finishWriteChunk fault truncateFails =>
    match s.chunk with
    | none => s
    | some chunk =>
      let r := finishWriteChunk hash128 fault truncateFails s.file s.storage chunk
      ⟨r.storage, r.file, none⟩

def Client.run (s : Client) (calls : List Call) : Client :=
  calls.foldl (Client.step hash128 magic) s

def Session.reading (s : Session) (file : List UInt8) : Reading :=
  readChunks hash128 magic file s.reads (newChunkedStorage2File file)

/-- The file after the session. -/
def Session.run (s : Session) (file : List UInt8) : List UInt8 :=
  (Client.run hash128 magic ⟨(s.reading hash128 magic file).storage, file, none⟩
    ((s.first :: s.more).flatMap Round.calls)).file

end Defs

/-- The bodies are the items put together in order, no item is cut, and no body is empty. -/
def Packs (items bodies : List (List UInt8)) : Prop := ∃ groups : List (List (List UInt8)),
    groups.flatten = items ∧ bodies = (groups.map flatten).filter (· ≠ [])

/-- A body that the reader returns as a chunk. -/
def Readable (body : List UInt8) : Prop := body ≠ [] ∧ body.length ≤ chunkSize

section Reader

variable {hash128 : List UInt8 → Uint128} {magic : BitVec 32} {file : List UInt8}
  {c : ChunkedStorage2}

variable (hash128 magic) in
/-- What one `ReadNext` does while there is something to read. -/
lemma readNext_cases (fault : ReadFault) (reading : c.reading = true)
    (size : c.initialFileSize = file.length) :
    (c.nextOffset = file.length ∧ readNext hash128 magic fault file c =
      (.ok [], { c with offset := c.nextOffset, hash := c.nextHash, reading := false })) ∨
    (c.nextOffset ≠ file.length ∧
      ∃ e, chunkAt hash128 magic fault file file.length c.nextOffset c.nextHash = .error e ∧
        readNext hash128 magic fault file c =
          (.error e, { c with offset := c.nextOffset, hash := c.nextHash })) ∨
    (c.nextOffset ≠ file.length ∧ ∃ body n h,
        chunkAt hash128 magic fault file file.length c.nextOffset c.nextHash = .ok (body, n, h) ∧
        readNext hash128 magic fault file c = (.ok body, { c with
            offset := c.nextOffset, hash := c.nextHash, nextOffset := n, nextHash := h })) := by
  unfold readNext
  rw [if_pos reading]
  simp only [size]
  by_cases atEnd : c.nextOffset = file.length
  · exact inl ⟨atEnd, if_pos atEnd⟩
  · rw [if_neg atEnd]
    cases result : chunkAt hash128 magic fault file file.length c.nextOffset c.nextHash with
    | error e => exact inr (inl ⟨atEnd, e, rfl, rfl⟩)
    | ok r => exact inr (inr ⟨atEnd, r.1, r.2.1, r.2.2, rfl, rfl⟩)

/-- The reader stands behind the given bodies, and its offset in front of the last of them. -/
structure ReadsBehind (hash128 : List UInt8 → Uint128) (magic : BitVec 32) (file : List UInt8)
    (c : ChunkedStorage2) (bodies : List (List UInt8)) : Prop where
  reading : c.reading = true
  size : c.initialFileSize = file.length
  next : Boundary hash128 magic file bodies c.nextOffset c.nextHash
  current : Boundary hash128 magic file bodies.dropLast c.offset c.hash

lemma ReadsBehind.start (file : List UInt8) :
    ReadsBehind hash128 magic file (newChunkedStorage2File file) [] :=
  ⟨rfl, rfl, Boundary.start file, Boundary.start file⟩

/-- After the loop the offset is behind what was accepted, for every file and every caller. -/
lemma readChunks_boundary (faults : List ReadFault)
    (behind : ReadsBehind hash128 magic file c bodies) :
    Boundary hash128 magic file (match (readChunks hash128 magic file faults c).stop with
          | .aborted => (bodies ++ (readChunks hash128 magic file faults c).chunks).dropLast
          | _ => bodies ++ (readChunks hash128 magic file faults c).chunks)
        (readChunks hash128 magic file faults c).storage.offset
        (readChunks hash128 magic file faults c).storage.hash ∧
      (∀ b ∈ (readChunks hash128 magic file faults c).chunks, Readable b) ∧
      (readChunks hash128 magic file faults c).storage.writeErr = c.writeErr := by
  induction faults generalizing c bodies with
  | nil =>
    refine ⟨?_, nofun, rfl⟩
    simpa only [readChunks, append_nil] using behind.current
  | cons fault faults ih =>
    obtain ⟨_, hr⟩ | ⟨_, e, _, hr⟩ | ⟨_, body, n, h, hc, hr⟩ :=
      readNext_cases hash128 magic fault behind.reading behind.size
    · simp only [readChunks, hr, append_nil]
      exact ⟨behind.next, nofun, trivial⟩
    · simp only [readChunks, hr, append_nil]
      exact ⟨behind.next, nofun, trivial⟩
    · obtain ⟨hs, hf, rfl, rfl⟩ := chunkAt_ok hc
      cases body with
      | nil =>
        simp only [readChunks, hr, append_nil]
        exact ⟨behind.next, nofun, trivial⟩
      | cons b bs =>
        have hb : ReadsBehind hash128 magic file { c with
            offset := c.nextOffset, hash := c.nextHash
            nextOffset := c.nextOffset + (chunkBytes hash128 magic c.nextHash (b :: bs)).length
            nextHash := hashAfter hash128 magic c.nextHash (b :: bs) } (bodies ++ [b :: bs]) := by
          refine ⟨behind.reading, behind.size, behind.next.next hf, ?_⟩
          rw [dropLast_concat]
          exact behind.next
        obtain ⟨ha, hd, her⟩ := ih hb
        simp only [readChunks, hr]
        refine ⟨?_, ?_, her⟩
        · simpa only [append_assoc, singleton_append] using ha
        · rintro x (_ | ⟨_, hx⟩)
          · exact ⟨cons_ne_nil b bs, hs⟩
          · exact hd x hx

variable (hash128 magic) in
/-- What a reader that never fails or gives up returns from an offset on. -/
def readFrom (file : List UInt8) : Nat → Nat → Uint128 → List (List UInt8) × Stop
  | 0, _, _ => ([], .aborted)
  | n + 1, offset, h =>
    if offset = file.length then ([], .finished)
    else
      match chunkAt hash128 magic .none file file.length offset h with
      | .error e => ([], .failed e)
      | .ok ([], _, _) => ([], .finished)
      | .ok (b :: bs, next, h') =>
        let r := readFrom file n next h'
        ((b :: bs) :: r.1, r.2)

lemma readChunks_eq_readFrom (n : Nat) (reading : c.reading = true)
    (size : c.initialFileSize = file.length) :
    ((readChunks hash128 magic file (replicate n .none) c).chunks,
      (readChunks hash128 magic file (replicate n .none) c).stop) =
      readFrom hash128 magic file n c.nextOffset c.nextHash := by
  induction n generalizing c with
  | zero => rfl
  | succ n ih =>
    obtain ⟨atEnd, hr⟩ | ⟨inside, e, hc, hr⟩ | ⟨inside, body, m, h, hc, hr⟩ :=
      readNext_cases hash128 magic .none reading size
    · simp [replicate_succ, readChunks, hr, readFrom, if_pos atEnd]
    · simp only [replicate_succ, readChunks, hr, readFrom, if_neg inside, hc]
    · cases body with
      | nil =>
        simp only [replicate_succ, readChunks, hr, readFrom, if_neg inside, hc]
      | cons b bs =>
        simp only [replicate_succ, readChunks, hr, readFrom, if_neg inside, hc]
        rw [← ih (c := { c with
          offset := c.nextOffset, hash := c.nextHash, nextOffset := m, nextHash := h })
          reading size]

lemma readAll_eq_readFrom (file : List UInt8) :
    readAll hash128 magic file = readFrom hash128 magic file (file.length + 1) 0 .zero :=
  readChunks_eq_readFrom _ rfl rfl

section Offsets

variable {bodies : List (List UInt8)} {offset : Nat} {h : Uint128}

lemma readFrom_end (n : Nat) (atEnd : offset = file.length) :
    readFrom hash128 magic file (n + 1) offset h = ([], .finished) := by
  rw [readFrom, if_pos atEnd]

lemma readFrom_chunk {body : List UInt8} (n : Nat) (readable : Readable body)
    (follows : chunkBytes hash128 magic h body <+: file.drop offset) :
    readFrom hash128 magic file (n + 1) offset h = (body :: (readFrom hash128 magic file n
          (offset + (chunkBytes hash128 magic h body).length) (hashAfter hash128 magic h body)).1,
        (readFrom hash128 magic file n (offset + (chunkBytes hash128 magic h body).length)
          (hashAfter hash128 magic h body)).2) := by
  have inside : offset ≠ file.length := by
    intro atEnd
    have hl := follows.length_le
    rw [length_chunkBytes, length_drop] at hl
    simp only [chunkHeaderSize] at hl
    omega
  obtain ⟨b, bs, rfl⟩ := exists_cons_of_ne_nil readable.1
  rw [readFrom, if_neg inside, chunkAt_chunkBytes readable.2 follows]

/-- The chunks of an intact stretch of the file are returned one by one. -/
lemma readFrom_fileOf {more : List (List UInt8)} (n : Nat)
    (at_ : Boundary hash128 magic file bodies offset h) (readable : ∀ b ∈ more, Readable b)
    (starts : fileOf hash128 magic (bodies ++ more) <+: file) :
    ∃ offset' h', Boundary hash128 magic file (bodies ++ more) offset' h' ∧
      readFrom hash128 magic file (more.length + n) offset h =
        (more ++ (readFrom hash128 magic file n offset' h').1,
          (readFrom hash128 magic file n offset' h').2) := by
  induction more generalizing bodies offset h with
  | nil =>
    refine ⟨offset, h, ?_, ?_⟩
    · rwa [append_nil]
    · rw [length_nil, Nat.zero_add, nil_append]
  | cons body more ih =>
    have hl : bodies ++ body :: more = bodies ++ [body] ++ more := by simp
    have hs : fileOf hash128 magic (bodies ++ [body]) <+: file := by
      rw [hl] at starts
      exact (fileOf_starts _ _).trans starts
    have follows : chunkBytes hash128 magic h body <+: file.drop offset := by
      rw [fileOf_concat, ← at_.take, ← at_.hash_eq] at hs
      nth_rewrite 2 [← take_append_drop offset file] at hs
      exact (prefix_append_right_inj _).1 hs
    rw [hl] at starts ⊢
    obtain ⟨offset', h', ha, hr⟩ := ih (at_.next follows)
      (fun b hb => readable b (.tail _ hb)) starts
    refine ⟨offset', h', ha, ?_⟩
    have hc : (body :: more).length + n = more.length + n + 1 := by
      rw [length_cons]
      omega
    rw [hc, readFrom_chunk _ (readable body (.head _)) follows, hr]
    rfl

/-- An intact file is read to its end. -/
theorem readAll_fileOf (readable : ∀ b ∈ bodies, Readable b) :
    readAll hash128 magic (fileOf hash128 magic bodies) = (bodies, .finished) := by
  have hl := length_le_fileOf hash128 magic bodies
  obtain ⟨n, hn⟩ := Nat.exists_eq_add_of_le hl
  obtain ⟨offset, h, ha, hr⟩ := readFrom_fileOf (n + 1) (Boundary.start _) readable
    (prefix_refl (fileOf hash128 magic ([] ++ bodies)))
  rw [nil_append] at ha hr
  rw [readAll_eq_readFrom, hn, Nat.add_assoc, hr, readFrom_end n ha.offset_eq, append_nil]

/-- A reader of a shorter file returns nothing that a reader of the whole file does not. -/
lemma readFrom_take {n k : Nat} (m : Nat) (within : n ≤ k) :
    (readFrom hash128 magic (file.take m) n offset h).1 <+:
      (readFrom hash128 magic file k offset h).1 := by
  induction n generalizing k offset h with
  | zero => exact nil_prefix
  | succ n ih =>
    obtain ⟨k, rfl⟩ : ∃ j, k = j + 1 := ⟨k - 1, by omega⟩
    rw [readFrom]
    split_ifs with atEnd
    · exact nil_prefix
    · split
      · exact nil_prefix
      · exact nil_prefix
      · rename_i b bs next h' hc
        obtain ⟨hs, hf, rfl, rfl⟩ := chunkAt_ok hc
        have hfo' : chunkBytes hash128 magic h (b :: bs) <+: file.drop offset := by
          rw [drop_take] at hf
          exact hf.trans ( take_prefix _ _)
        rw [readFrom_chunk k ⟨cons_ne_nil b bs, hs⟩ hfo']
        exact (cons_prefix_cons).2 ⟨rfl, ih (by omega)⟩

lemma readAll_take (m : Nat) :
    (readAll hash128 magic (file.take m)).1 <+: (readAll hash128 magic file).1 := by
  rw [readAll_eq_readFrom, readAll_eq_readFrom]
  exact readFrom_take m (by rw [length_take]; omega)

end Offsets

end Reader

/-- The bodies that are full after the items, and the items that are still collected. -/
def pack : List UInt8 → List (List UInt8) → List (List UInt8) × List UInt8
  | acc, [] => ([], acc)
  | acc, item :: items =>
    if (acc ++ item).length < chunkSize / 2 then pack (acc ++ item) items
    else
      let r := pack [] items
      ((acc ++ item) :: r.1, r.2)

/-- The bodies of one round. -/
def bodiesOf (items : List (List UInt8)) : List (List UInt8) :=
  ((pack [] items).1 ++ [(pack [] items).2]).filter (· ≠ [])

/-- The body of a chunk that holds the given items. -/
def bodyOf {α : Type u} (write : α → List UInt8) (items : List α) : List UInt8 :=
  items.flatMap write

lemma pack_items {α : Type u} (write : α → List UInt8) (before items : List α) :
    ∃ groups : List (List α), groups.flatten = before ++ items ∧
      groups.map (bodyOf write) = (pack (bodyOf write before) (items.map write)).1 ++
        [(pack (bodyOf write before) (items.map write)).2] := by
  induction items generalizing before with
  | nil => exact ⟨[before], by simp, by simp [pack]⟩
  | cons item items ih =>
    have hd : bodyOf write (before ++ [item]) = bodyOf write before ++ write item := by
      simp [bodyOf]
    rw [map_cons, pack]
    split_ifs with hs
    · obtain ⟨groups, hg, hb⟩ := ih (before ++ [item])
      rw [hd] at hb
      exact ⟨groups, by simp [hg], hb⟩
    · obtain ⟨groups, hg, hb⟩ := ih []
      refine ⟨(before ++ [item]) :: groups, by simp [hg], ?_⟩
      rw [map_cons, hd, hb]
      rfl

lemma packs_bodiesOf (items : List (List UInt8)) : Packs items (bodiesOf items) := by
  obtain ⟨groups, hg, hb⟩ := pack_items id [] items
  have hf : bodyOf id = flatten (α := UInt8) := funext fun _ => by simp [bodyOf]
  rw [map_id, hf] at hb
  exact ⟨groups, hg, by rw [hb]; rfl⟩

lemma Packs.append {items items' bodies' : List (List UInt8)} (h : Packs items bodies)
    (h' : Packs items' bodies') : Packs (items ++ items') (bodies ++ bodies') := by
  obtain ⟨groups, rfl, rfl⟩ := h
  obtain ⟨groups', rfl, rfl⟩ := h'
  exact ⟨groups ++ groups', by simp, by simp⟩

lemma packs_flatMap (rounds : List Round) :
    Packs (rounds.flatMap Round.items) (rounds.flatMap fun r => bodiesOf r.items) := by
  induction rounds with
  | nil => exact ⟨[], rfl, rfl⟩
  | cons r rounds ih => exact (packs_bodiesOf r.items).append ih

/-- Items below half of the chunk size never overfill a chunk. -/
lemma pack_length {acc : List UInt8} {items : List (List UInt8)} (half : acc.length < chunkSize / 2)
    (small : ∀ x ∈ items, x.length < chunkSize / 2) :
    (∀ b ∈ (pack acc items).1, Readable b) ∧ (pack acc items).2.length < chunkSize / 2 := by
  induction items generalizing acc with
  | nil => exact ⟨nofun, half⟩
  | cons item items ih =>
    have hi := small item (.head _)
    have hr := fun x hx => small x (mem_cons_of_mem item hx)
    rw [pack]
    split_ifs with hs
    · exact ih hs hr
    · obtain ⟨ho, hl⟩ := ih (by decide : ([] : List UInt8).length < chunkSize / 2) hr
      refine ⟨?_, hl⟩
      rintro b (_ | ⟨_, hb⟩)
      · have hn : (acc ++ item).length ≤ chunkSize := by
          rw [length_append]
          omega
        refine ⟨?_, hn⟩
        rintro ha
        rw [ha] at hs
        exact hs (by decide)
      · exact ho b hb

lemma readable_bodiesOf {items : List (List UInt8)}
    (small : ∀ x ∈ items, x.length < chunkSize / 2) : ∀ b ∈ bodiesOf items, Readable b := by
  obtain ⟨ho, hl⟩ := pack_length (by decide : ([] : List UInt8).length < chunkSize / 2) small
  intro b hb
  obtain ⟨hm, hne⟩ := mem_filter.1 hb
  obtain hb | hb := mem_append.1 hm
  · exact ho b hb
  · rw [mem_singleton.1 hb] at hne ⊢
    exact ⟨of_decide_eq_true hne, hl.le.trans (Nat.div_le_self _ _)⟩

section Rounds

variable (hash128 : List UInt8 → Uint128) (magic : BitVec 32)

/-- No write has failed and the next chunk goes behind the given bodies. -/
structure Appends (s : Client) (bodies : List (List UInt8)) : Prop where
  noErr : s.storage.writeErr = false
  boundary : Boundary hash128 magic s.file bodies s.storage.offset s.storage.hash

/-- A round has been started and the given bytes are collected. -/
structure Collects (s : Client) (bodies : List (List UInt8)) (acc : List UInt8) : Prop
    extends Appends hash128 magic s bodies where
  magic_eq : s.storage.magic = magic
  chunk : ∃ chunk, s.chunk = some chunk ∧ chunk.body = acc

variable {hash128 magic} {s : Client} {bodies : List (List UInt8)} {acc : List UInt8}

lemma Collects.start (h : Appends hash128 magic s bodies) (maxChunkSize : Int) :
    Collects hash128 magic (s.step hash128 magic (.startWriteChunk maxChunkSize)) bodies [] :=
  ⟨⟨h.noErr, h.boundary⟩, rfl, startChunk, rfl, rfl⟩

/-- A collected body goes to the file as one chunk. -/
lemma finishChunk_appends (h : Appends hash128 magic s bodies)
    (magic_eq : s.storage.magic = magic) {chunk : Chunk} (full : chunk.body ≠ []) :
    let r := finishChunk hash128 none s.file s.storage chunk
    Appends hash128 magic ⟨r.storage, r.file, some r.chunk⟩ (bodies ++ [chunk.body]) ∧
      r.storage.magic = magic ∧ r.chunk.body = [] ∧ r.err = none := by
  subst magic_eq
  simp only [finishChunk_nonempty full, h.noErr, false_eq_true, if_false]
  exact ⟨⟨rfl, h.boundary.write chunk.body⟩, trivial, body_startChunk, trivial⟩

section

variable (h : Collects hash128 magic s bodies acc)
include h

lemma Collects.item {item : List UInt8} (hlen : (acc ++ item).length ≤ chunkSize) :
    Collects hash128 magic (s.step hash128 magic (.item item none))
      (if (acc ++ item).length < chunkSize / 2 then bodies else bodies ++ [acc ++ item])
      (if (acc ++ item).length < chunkSize / 2 then acc ++ item else []) := by
  obtain ⟨chunk, hc, hb⟩ := h.chunk
  have hbd' : (chunk.append item).body = acc ++ item := by rw [Chunk.body_append, hb]
  have hd := (chunk.append item).length_bytes
  rw [hbd'] at hd
  simp only [Client.step, hc, finishItem]
  by_cases hs : (acc ++ item).length < chunkSize / 2
  · have hw : (chunk.append item).bytes.length <
        chunkHashSize + chunkHeaderSize + chunkSize / 2 := by omega
    simp only [if_pos hs, if_pos hw]
    exact ⟨⟨h.noErr, h.boundary⟩, h.magic_eq, _, rfl, hbd'⟩
  · have hw : ¬(chunk.append item).bytes.length <
        chunkHashSize + chunkHeaderSize + chunkSize / 2 := by omega
    have hf : ¬(chunk.append item).bytes.length >
        chunkHashSize + chunkHeaderSize + chunkSize := by omega
    have hu : (chunk.append item).body ≠ [] := by
      rintro hn
      rw [← hbd', hn] at hs
      exact hs (by decide)
    obtain ⟨ha, hm, he, _⟩ := finishChunk_appends h.toAppends h.magic_eq hu
    rw [hbd'] at ha
    simp only [if_neg hs, if_neg hw, if_neg hf]
    exact ⟨ha, hm, _, rfl, he⟩

lemma Collects.items {items : List (List UInt8)} (half : acc.length < chunkSize / 2)
    (small : ∀ x ∈ items, x.length < chunkSize / 2) :
    Collects hash128 magic (s.run hash128 magic (items.map (Call.item · none)))
      (bodies ++ (pack acc items).1) (pack acc items).2 := by
  induction items generalizing s bodies acc with
  | nil =>
    rw [pack, append_nil]
    exact h
  | cons item items ih =>
    have hi := small item (.head _)
    have hr := fun x hx => small x (mem_cons_of_mem item hx)
    have hl : (acc ++ item).length ≤ chunkSize := by
      rw [length_append]
      omega
    have hs := h.item hl
    rw [pack]
    by_cases hm : (acc ++ item).length < chunkSize / 2
    · simp only [if_pos hm] at hs ⊢
      exact ih hs hm hr
    · simp only [if_neg hm] at hs ⊢
      have hn := ih hs (by decide) hr
      rwa [append_assoc, singleton_append] at hn

/-- The end of a round cuts the file behind what was written. -/
lemma Collects.finish : Appends hash128 magic (s.step hash128 magic (.finishWriteChunk none false))
        (bodies ++ [acc].filter (· ≠ [])) ∧
      (s.step hash128 magic (.finishWriteChunk none false)).file =
        fileOf hash128 magic (bodies ++ [acc].filter (· ≠ [])) := by
  obtain ⟨chunk, hh, rfl⟩ := h.chunk
  have hc {t : Client} {bs : List (List UInt8)} (ht : Appends hash128 magic t bs) :
      Appends hash128 magic ⟨t.storage, truncate t.file t.storage.offset, none⟩ bs ∧
        truncate t.file t.storage.offset = fileOf hash128 magic bs := by
    rw [truncate_of_le ht.boundary.offset_le]
    refine ⟨⟨ht.noErr, ht.boundary.of_take ?_⟩, ht.boundary.take⟩
    rw [take_take, Nat.min_self]
  simp only [Client.step, hh, finishWriteChunk]
  by_cases he : chunk.body = []
  · have hd : bodies ++ [chunk.body].filter (· ≠ []) = bodies := by simp [he]
    simp only [finishChunk_empty he, hd]
    exact hc h.toAppends
  · obtain ⟨ha, _, _, her⟩ := finishChunk_appends h.toAppends h.magic_eq he
    have hk : [chunk.body].filter (· ≠ []) = [chunk.body] := by simp [he]
    simp only [her, hk]
    exact hc ha

end

/-- One round appends the bodies of its items. -/
lemma Appends.round (h : Appends hash128 magic s bodies) {r : Round}
    (small : ∀ x ∈ r.items, x.length < chunkSize / 2) :
    Appends hash128 magic (s.run hash128 magic r.calls) (bodies ++ bodiesOf r.items) ∧
      (s.run hash128 magic r.calls).file = fileOf hash128 magic (bodies ++ bodiesOf r.items) := by
  have hit := (Collects.start h r.maxChunkSize).items (by decide) small
  have hf : (pack [] r.items).1.filter (· ≠ []) = (pack [] r.items).1 :=
    filter_eq_self.2 fun b hb =>
      decide_eq_true ((pack_length (by decide) small).1 b hb).1
  have ho : bodies ++ bodiesOf r.items =
      bodies ++ (pack [] r.items).1 ++ [(pack [] r.items).2].filter (· ≠ []) := by
    rw [bodiesOf, filter_append, hf, append_assoc]
  have hr : s.run hash128 magic r.calls = ((s.step hash128 magic
      (.startWriteChunk r.maxChunkSize)).run hash128 magic
        (r.items.map (Call.item · none))).step hash128 magic (.finishWriteChunk none false) := by
    simp [Client.run, Round.calls]
  rw [hr, ho]
  exact hit.finish

lemma Appends.rounds {first : Round} {more : List Round} (h : Appends hash128 magic s bodies)
    (small : ∀ r ∈ first :: more, ∀ x ∈ r.items, x.length < chunkSize / 2) :
    (s.run hash128 magic ((first :: more).flatMap Round.calls)).file =
      fileOf hash128 magic (bodies ++ (first :: more).flatMap fun r => bodiesOf r.items) := by
  induction more generalizing s bodies first with
  | nil =>
    simpa only [flatMap_cons, flatMap_nil, append_nil] using (h.round (small first (.head _))).2
  | cons second more ih =>
    have ht := (h.round (small first (.head _))).1
    have hs := ih ht fun r hr => small r (mem_cons_of_mem first hr)
    simp only [flatMap_cons, Client.run, foldl_append, append_assoc] at hs ⊢
    exact hs

end Rounds

section Sessions

variable {hash128 : List UInt8 → Uint128} {magic : BitVec 32}

variable (hash128 magic) in
lemma accepted_boundary (file : List UInt8) (faults : List ReadFault) :
    let r := readChunks hash128 magic file faults (newChunkedStorage2File file)
    Boundary hash128 magic file r.accepted r.storage.offset r.storage.hash ∧
      (∀ b ∈ r.accepted, Readable b) ∧ r.storage.writeErr = false := by
  intro r
  obtain ⟨ha, hr, her⟩ := readChunks_boundary faults (ReadsBehind.start file)
  refine ⟨ha, ?_, her⟩
  intro b hb
  apply hr
  unfold Reading.accepted at hb
  split at hb
  · exact mem_of_mem_dropLast hb
  · exact hb

/-- A session leaves an intact file: what it accepted and what it appended. -/
theorem Session.run_eq (s : Session) (file : List UInt8)
    (small : ∀ x ∈ s.items, x.length < chunkSize / 2) :
    s.run hash128 magic file = fileOf hash128 magic ((s.reading hash128 magic file).accepted ++
        (s.first :: s.more).flatMap fun r => bodiesOf r.items) := by
  obtain ⟨ha, _, her⟩ := accepted_boundary hash128 magic file s.reads
  apply Appends.rounds ⟨her, ha⟩
  intro r hr x hx
  exact small x (mem_flatMap.2 ⟨r, hr, hx⟩)

theorem Session.readAll_run (s : Session) (file : List UInt8)
    (small : ∀ x ∈ s.items, x.length < chunkSize / 2) : ∃ bodies, Packs s.items bodies ∧
      readAll hash128 magic (s.run hash128 magic file) =
        ((s.reading hash128 magic file).accepted ++ bodies, .finished) := by
  refine ⟨_, packs_flatMap (s.first :: s.more), ?_⟩
  rw [s.run_eq file small]
  apply readAll_fileOf
  intro b hb
  obtain hb | hb := mem_append.1 hb
  · exact (accepted_boundary hash128 magic file s.reads).2.1 b hb
  · obtain ⟨r, hr, hb⟩ := mem_flatMap.1 hb
    exact readable_bodiesOf (fun x hx => small x (mem_flatMap.2 ⟨r, hr, hx⟩)) b hb

end Sessions

section Failures

variable (hash128 : List UInt8 → Uint128) (magic : BitVec 32)

/-- What holds of a client after any calls, failed or not. -/
structure Consistent (s : Client) : Prop where
  boundary : ∃ bodies, Boundary hash128 magic s.file bodies s.storage.offset s.storage.hash
  reader : s.storage.reading = true → s.storage.initialFileSize = s.file.length ∧
    ∃ bodies, Boundary hash128 magic s.file bodies s.storage.nextOffset s.storage.nextHash
  writer : s.chunk.isSome → s.storage.reading = false ∧ s.storage.magic = magic
  failed : s.storage.writeErr = true → s.storage.reading = false

variable {hash128 magic} {s : Client}

lemma Consistent.openFile (file : List UInt8) :
    Consistent hash128 magic (Client.openFile file) := by
  refine ⟨⟨[], Boundary.start file⟩, fun _ => ⟨rfl, [], Boundary.start file⟩, ?_, ?_⟩
  · intro h
    cases h
  · intro h
    cases h

lemma Consistent.readNext (h : Consistent hash128 magic s) (fault : ReadFault) :
    Consistent hash128 magic (s.step hash128 magic (.readNext fault)) := by
  by_cases reading : s.storage.reading = true
  · obtain ⟨size, bodies, hn⟩ := h.reader reading
    have noWriter : s.chunk.isSome → False := fun hb => by
      have := (h.writer hb).1
      rw [reading] at this
      cases this
    have noErr : s.storage.writeErr = true → False := fun her => by
      have := h.failed her
      rw [reading] at this
      cases this
    obtain ⟨_, ha⟩ | ⟨_, e, _, ha⟩ | ⟨_, body, n, h', hc, ha⟩ :=
      readNext_cases hash128 magic fault reading size
    · simp only [Client.step, ha]
      exact ⟨⟨bodies, hn⟩, fun hr => absurd hr false_ne_true,
        fun hs => (noWriter hs).elim, fun _ => rfl⟩
    · simp only [Client.step, ha]
      exact ⟨⟨bodies, hn⟩, fun _ => ⟨size, bodies, hn⟩, fun hs => (noWriter hs).elim,
        fun he => (noErr he).elim⟩
    · obtain ⟨_, hf, rfl, rfl⟩ := chunkAt_ok hc
      simp only [Client.step, ha]
      exact ⟨⟨bodies, hn⟩, fun _ => ⟨size, _, hn.next hf⟩,
        fun hs => (noWriter hs).elim, fun he => (noErr he).elim⟩
  · have hd : s.step hash128 magic (.readNext fault) = s := by
      simp [Client.step, ChunkedStorage.readNext, if_neg reading]
    rwa [hd]

/-- What any call that may write leaves: the bytes before the old or the new offset are chunks. -/
lemma finishChunk_boundary (at_ : Boundary hash128 c.magic file bodies c.offset c.hash)
    (fault : Option Nat) (chunk : Chunk) :
    let r := finishChunk hash128 fault file c chunk
    (∃ bodies', Boundary hash128 c.magic r.file bodies' r.storage.offset r.storage.hash) ∧
      r.storage.reading = c.reading ∧ r.storage.magic = c.magic := by
  by_cases empty : chunk.body = []
  · simp only [finishChunk_empty empty]
    exact ⟨⟨bodies, at_⟩, trivial, trivial⟩
  · rw [finishChunk_nonempty empty]
    cases hf : c.writeErr with
    | true => exact ⟨⟨bodies, at_⟩, rfl, rfl⟩
    | false =>
      cases fault with
      | none => exact ⟨⟨_, at_.write chunk.body⟩, rfl, rfl⟩
      | some n => exact ⟨⟨bodies, at_.of_take (take_writeAt _ at_.offset_le)⟩, rfl, rfl⟩

variable (hash128) in
lemma finishItem_cases (fault : Option Nat) (file : List UInt8) (c : ChunkedStorage2)
    (chunk : Chunk) :
    finishItem hash128 fault file c chunk = finishChunk hash128 fault file c chunk ∨
      ∃ err, finishItem hash128 fault file c chunk = ⟨c, file, chunk, err⟩ := by
  unfold finishItem
  split_ifs
  · exact inr ⟨_, rfl⟩
  · exact inr ⟨_, rfl⟩
  · exact inl rfl

variable (hash128) in
lemma finishWriteChunk_cases (fault : Option Nat) (truncateFails : Bool) (file : List UInt8)
    (c : ChunkedStorage2) (chunk : Chunk) :
    let r := finishChunk hash128 fault file c chunk
    let r' := finishWriteChunk hash128 fault truncateFails file c chunk
    r'.storage = r.storage ∧
      (r'.file = r.file ∨ r.err = none ∧ r'.file = truncate r.file r.storage.offset) := by
  intro r r'
  simp only [r', finishWriteChunk]
  split_ifs with hf hc
  · exact ⟨rfl, inl rfl⟩
  · exact ⟨rfl, inl rfl⟩
  · exact ⟨rfl, inr ⟨Option.not_isSome_iff_eq_none.1 hf, rfl⟩⟩

lemma Boundary.truncate {offset : Nat} {h : Uint128}
    (at_ : Boundary hash128 magic file bodies offset h) :
    Boundary hash128 magic (ChunkedStorage.truncate file offset) bodies offset h := by
  apply at_.of_take
  rw [truncate_of_le at_.offset_le, take_take, Nat.min_self]

/-- A writer keeps the invariant when it leaves a boundary behind. -/
lemma Consistent.of_written {chunk : Option Chunk}
    (boundary : ∃ bodies, Boundary hash128 magic file bodies c.offset c.hash)
    (reading : c.reading = false) (magic_eq : c.magic = magic) :
    Consistent hash128 magic ⟨c, file, chunk⟩ := by
  refine ⟨boundary, ?_, fun _ => ⟨reading, magic_eq⟩, fun _ => reading⟩
  intro hr
  rw [reading] at hr
  cases hr

variable (h : Consistent hash128 magic s)
include h

lemma Consistent.step (call : Call) : Consistent hash128 magic (s.step hash128 magic call) := by
  obtain ⟨bodies, ha⟩ := h.boundary
  cases call with
  | readNext fault => exact h.readNext fault
  | resetToStartOfFile =>
    exact ⟨⟨[], Boundary.start s.file⟩, h.reader, h.writer, fun hr => absurd hr false_ne_true⟩
  | startWriteChunk maxChunkSize => exact Consistent.of_written ⟨bodies, ha⟩ rfl rfl
  | item bytes fault =>
    cases hc : s.chunk with
    | none => simpa only [Client.step, hc] using h
    | some chunk =>
      obtain ⟨hd, rfl⟩ := h.writer (by rw [hc]; rfl)
      obtain ⟨hb, hr, hm⟩ := finishChunk_boundary ha fault (chunk.append bytes)
      simp only [Client.step, hc]
      obtain hn | ⟨err, hn⟩ :=
        finishItem_cases hash128 fault s.file s.storage (chunk.append bytes)
      · rw [hn]
        exact Consistent.of_written hb (hr.trans hd) hm
      · rw [hn]
        exact Consistent.of_written ⟨bodies, ha⟩ hd rfl
  | finishWriteChunk fault truncateFails =>
    cases hc : s.chunk with
    | none => simpa only [Client.step, hc] using h
    | some chunk =>
      obtain ⟨hd, rfl⟩ := h.writer (by rw [hc]; rfl)
      obtain ⟨⟨bodies', hb⟩, hr, hm⟩ := finishChunk_boundary ha fault chunk
      obtain ⟨hs, hf⟩ := finishWriteChunk_cases hash128 fault truncateFails s.file s.storage chunk
      simp only [Client.step, hc, hs]
      refine Consistent.of_written ⟨bodies', ?_⟩ (hr.trans hd) hm
      obtain hf | ⟨_, hf⟩ := hf
      · rw [hf]
        exact hb
      · rw [hf]
        exact hb.truncate

lemma Consistent.run (calls : List Call) :
    Consistent hash128 magic (s.run hash128 magic calls) := by
  induction calls generalizing s with
  | nil => exact h
  | cons call calls ih => exact ih (h.step call)

/-- After a failed write only a reset writes again; the file can still be cut. -/
lemma Consistent.failed_step (failed : s.storage.writeErr = true) {call : Call}
    (noReset : call ≠ .resetToStartOfFile) :
    (s.step hash128 magic call).storage.writeErr = true ∧
      ∃ m, (s.step hash128 magic call).file = s.file.take m := by
  have hw : s.file = s.file.take s.file.length := take_length.symm
  have hk {fault : Option Nat} {chunk : Chunk} :
      (finishChunk hash128 fault s.file s.storage chunk).storage = s.storage ∧
        (finishChunk hash128 fault s.file s.storage chunk).file = s.file := by
    by_cases empty : chunk.body = []
    · rw [finishChunk_empty empty]
      exact ⟨rfl, rfl⟩
    · rw [finishChunk_nonempty empty, if_pos failed]
      exact ⟨rfl, rfl⟩
  cases call with
  | readNext fault =>
    have hs := eq_false_iff.1 (h.failed failed)
    simp only [Client.step, ChunkedStorage.readNext, if_neg hs]
    exact ⟨failed, _, hw⟩
  | resetToStartOfFile => exact absurd rfl noReset
  | startWriteChunk maxChunkSize => exact ⟨failed, _, hw⟩
  | item bytes fault =>
    cases hc : s.chunk with
    | none =>
      simp only [Client.step, hc]
      exact ⟨failed, _, hw⟩
    | some chunk =>
      simp only [Client.step, hc]
      obtain hn | ⟨err, hn⟩ :=
        finishItem_cases hash128 fault s.file s.storage (chunk.append bytes)
      · rw [hn, hk.1, hk.2]
        exact ⟨failed, _, hw⟩
      · rw [hn]
        exact ⟨failed, _, hw⟩
  | finishWriteChunk fault truncateFails =>
    cases hc : s.chunk with
    | none =>
      simp only [Client.step, hc]
      exact ⟨failed, _, hw⟩
    | some chunk =>
      obtain ⟨bodies, ha⟩ := h.boundary
      obtain ⟨hr, hf⟩ := finishWriteChunk_cases hash128 fault truncateFails s.file s.storage chunk
      simp only [Client.step, hc, hr, hk.1, hk.2] at hf ⊢
      refine ⟨failed, ?_⟩
      obtain hf | ⟨_, hf⟩ := hf
      · exact ⟨_, hf.trans hw⟩
      · exact ⟨_, hf.trans (truncate_of_le ha.offset_le)⟩

/-- Until the next reset nothing becomes readable that was not readable after the failure. -/
theorem Consistent.failed_run (failed : s.storage.writeErr = true) {calls : List Call}
    (noReset : .resetToStartOfFile ∉ calls) :
    (readAll hash128 magic (s.run hash128 magic calls).file).1 <+:
      (readAll hash128 magic s.file).1 := by
  induction calls generalizing s with
  | nil => exact prefix_refl _
  | cons call calls ih =>
    have hne : call ≠ .resetToStartOfFile := fun heq => noReset (heq ▸ (.head _))
    obtain ⟨hf, m, hl⟩ := h.failed_step failed hne
    have hr := ih (h.step call) hf fun hm => noReset (mem_cons_of_mem call hm)
    apply hr.trans
    rw [hl]
    exact readAll_take m

end Failures

/-- Whatever the file holds and whatever sessions came before, the last session leaves what it
accepted and then its items. A failed write leaves a mark, and under that mark no call but a
reset makes a further chunk readable. -/
theorem sessions_accept_and_extend (hash128 : List UInt8 → Uint128) (magic : BitVec 32) :
    (∀ (file : List UInt8) (before : List Session) (s : Session),
      (∀ x ∈ s.items, x.length < chunkSize / 2) →
      ∃ bodies, Packs s.items bodies ∧ readAll hash128 magic (s.run hash128 magic
            (before.foldl (fun f t => t.run hash128 magic f) file)) =
          ((s.reading hash128 magic
            (before.foldl (fun f t => t.run hash128 magic f) file)).accepted ++ bodies,
            .finished)) ∧
    (∀ (n : Nat) (file : List UInt8) (c : ChunkedStorage2) (chunk : Chunk), chunk.body ≠ [] →
      (finishChunk hash128 (some n) file c chunk).storage.writeErr = true) ∧
    ∀ (file : List UInt8) (calls later : List Call),
      ((Client.openFile file).run hash128 magic calls).storage.writeErr = true →
      .resetToStartOfFile ∉ later →
      (readAll hash128 magic (((Client.openFile file).run hash128 magic calls).run hash128 magic
          later).file).1 <+:
        (readAll hash128 magic ((Client.openFile file).run hash128 magic calls).file).1 := by
  refine ⟨?_, ?_, ?_⟩
  · intro file before s small
    exact s.readAll_run _ small
  · intro n file c chunk full
    rw [finishChunk_nonempty full]
    cases failed : c.writeErr with
    | true => exact failed
    | false => rfl
  · intro file calls later failed noReset
    exact ((Consistent.openFile file).run calls).failed_run failed noReset

/-- A hash for runs on small files. -/
def lengthHash (bytes : List UInt8) : Uint128 := ⟨0, BitVec.ofNat 64 bytes.length⟩

/-- The file of a session that wrote one item. -/
def smallFile : List UInt8 := Session.run lengthHash 1 ⟨[], ⟨0, [[6]]⟩, []⟩ []

def smallSession : Session := ⟨[.none, .none], ⟨0, [[7]]⟩, [⟨0, [[8, 9]]⟩]⟩

theorem sessions_accept_and_extend_small :
    (smallSession.reading lengthHash 1 smallFile).accepted = [[6]] ∧
    (∃ bodies, Packs [[7], [8, 9]] bodies ∧
      readAll lengthHash 1 (smallSession.run lengthHash 1 smallFile) =
        ((smallSession.reading lengthHash 1 smallFile).accepted ++ bodies, .finished)) ∧
    (finishChunk lengthHash (some 3) [] (newChunkedStorage2File [])
      (startChunk.append [7])).storage.writeErr = true ∧
    (readAll lengthHash 1 (((Client.openFile []).run lengthHash 1
        [.startWriteChunk 0, .item [7] none, .finishWriteChunk (some 3) false]).run lengthHash 1
          [.startWriteChunk 0, .item [8] none, .finishWriteChunk none false]).file).1 <+:
      (readAll lengthHash 1 ((Client.openFile []).run lengthHash 1
        [.startWriteChunk 0, .item [7] none, .finishWriteChunk (some 3) false]).file).1 := by
  obtain ⟨hs, hm, hf⟩ := sessions_accept_and_extend lengthHash 1
  refine ⟨by decide +kernel, ?_, ?_, ?_⟩
  · exact hs smallFile [] smallSession (by decide)
  · exact hm 3 [] _ _ (by decide)
  · exact hf [] _ _ (by decide +kernel) (by decide)

end ChunkedStorage

import StatsHouse.ChunkedSessions

/-!
# Lists of items in a chunked file

A caller that writes items one after the other gets whole items back: every chunk holds a group
of them, and a file that was cut at any byte still holds the first groups. Reopening such a file
and reading it to the end leaves the writer behind the groups that were read.
-/

namespace ChunkedStorage

open List
universe u
variable {chunk : Chunk} {c : ChunkedStorage2} {items : List (List UInt8)} {file : List UInt8}
  {fault : Option ℕ} {truncateFails : Bool} {storage : ChunkedStorage2} {j : ℕ}

section Groups

variable {α : Type u} {write : α → List UInt8}

lemma bodyOf_eq_nil (filled : ∀ x, write x ≠ []) {items : List α} :
    bodyOf write items = [] ↔ items = [] := by
  cases items with
  | nil => simp [bodyOf]
  | cons x xs => simp [bodyOf, filled x]

/-- The chunks of a round hold the items in groups. -/
lemma bodiesOf_items (filled : ∀ x, write x ≠ []) (items : List α) :
    ∃ groups : List (List α), groups.flatten = items ∧ (∀ g ∈ groups, g ≠ []) ∧
      bodiesOf (items.map write) = groups.map (bodyOf write) := by
  obtain ⟨groups, hr, hb⟩ := pack_items write [] items
  refine ⟨groups.filter (· ≠ []), ?_, ?_, ?_⟩
  · rw [nil_append] at hr
    rw [← hr]
    clear hr hb
    induction groups with
    | nil => rfl
    | cons g groups ih =>
      by_cases hg : g = []
      · simpa [hg] using ih
      · simpa [hg] using ih
  · intro g hg
    exact of_decide_eq_true (mem_filter.1 hg).2
  · have hp : (pack [] (items.map write)).1 ++ [(pack [] (items.map write)).2] =
        groups.map (bodyOf write) := hb.symm
    rw [bodiesOf, hp, filter_map]
    congr 1
    apply filter_congr
    intro g _
    simp [bodyOf_eq_nil filled]

end Groups

section Reopen

variable {hash128 : List UInt8 → Uint128} {magic : BitVec 32} {file : List UInt8}

/-- The length of the file is fuel enough. -/
lemma readFrom_ne_aborted {n offset : ℕ} {h : Uint128} (inside : offset ≤ file.length)
    (fuel : file.length < offset + n) : (readFrom hash128 magic file n offset h).2 ≠ .aborted := by
  induction n generalizing offset h with
  | zero => omega
  | succ n ih =>
    rw [readFrom]
    split_ifs with atEnd
    · simp
    · split
      · simp
      · simp
      · rename_i b bs next h' hc
        obtain ⟨_, hf, rfl, rfl⟩ := chunkAt_ok hc
        have hl := hf.length_le
        rw [length_drop] at hl
        have hp : 0 < (chunkBytes hash128 magic h (b :: bs)).length := by
          simp
        exact ih (by omega) (by omega)

variable (hash128 magic) in
/-- Everything a caller reads from a new storage until the end or an error. -/
def reopen (file : List UInt8) : Reading :=
  readChunks hash128 magic file (List.replicate (file.length + 1) .none)
    (newChunkedStorage2File file)

lemma reopen_accepted (file : List UInt8) :
    (reopen hash128 magic file).accepted = (reopen hash128 magic file).chunks := by
  have hs : (reopen hash128 magic file).stop ≠ .aborted := by
    have heq : (reopen hash128 magic file).stop =
        (readFrom hash128 magic file (file.length + 1) 0 .zero).2 :=
      congrArg Prod.snd (readAll_eq_readFrom file)
    rw [heq]
    exact readFrom_ne_aborted (Nat.zero_le _) (by omega)
  unfold Reading.accepted
  split
  · contradiction
  · rfl

variable (hash128 magic) in
/-- The writer goes on behind the chunks that were read. -/
lemma reopen_appends (file : List UInt8) :
    Appends hash128 magic ⟨(reopen hash128 magic file).storage, file, none⟩
      (reopen hash128 magic file).chunks := by
  obtain ⟨ha, _, her⟩ := accepted_boundary hash128 magic file (replicate (file.length + 1) .none)
  refine ⟨her, ?_⟩
  rw [← reopen_accepted]
  exact ha

/-- An intact file is read to its end. -/
lemma reopen_fileOf {bodies : List (List UInt8)} (readable : ∀ b ∈ bodies, Readable b) :
    (reopen hash128 magic (fileOf hash128 magic bodies)).chunks = bodies :=
  congrArg Prod.fst (readAll_fileOf readable)

end Reopen

/-- Which of the writes of a save fail: the write at an item with the number of bytes that are
stored before it fails, the last write, and the truncation. -/
structure SaveFaults where
  item : ℕ → Option ℕ
  finish : Option ℕ
  truncate : Bool

def SaveFaults.none : SaveFaults := ⟨fun _ => .none, .none, false⟩

section Save

variable (hash128 : List UInt8 → Uint128) (magic : BitVec 32)

/-- The loop over the items, left at the first error. -/
def appendItems (faults : ℕ → Option ℕ) :
    ℕ → List (List UInt8) → ChunkedStorage2 → List UInt8 → Chunk → Written
  | _, [], storage, file, chunk => ⟨storage, file, chunk, none⟩
  | j, item :: items, storage, file, chunk =>
    let r := finishItem hash128 (faults j) file storage (chunk.append item)
    if r.err.isSome then r else appendItems faults (j + 1) items r.storage r.file r.chunk

/-- The end of the loop: the rest of the last chunk, if no item failed. -/
def finishItems (fault : Option ℕ) (truncateFails : Bool) (r : Written) : Written :=
  if r.err.isSome then r
  else finishWriteChunk hash128 fault truncateFails r.file r.storage r.chunk

/-- How callers save: the items, and the rest of the last chunk if none of them failed. -/
def saveItems (faults : SaveFaults) (maxChunkSize : Int) (items : List (List UInt8))
    (s : Client) : Client × Option WriteError :=
  let start := s.storage.startWriteChunk magic maxChunkSize
  let r := finishItems hash128 faults.finish faults.truncate
    (appendItems hash128 faults.item 0 items start.1 s.file start.2)
  (⟨r.storage, r.file, none⟩, r.err)

variable {hash128 magic} {s : Client} {bodies : List (List UInt8)} {acc : List UInt8}

lemma finishChunk_err (noErr : c.writeErr = false) (file : List UInt8) (chunk : Chunk) :
    (finishChunk hash128 none file c chunk).err = none := by
  unfold finishChunk
  rw [noErr]
  split_ifs
  · rfl
  · contradiction
  · rfl

lemma finishItem_err (noErr : c.writeErr = false) (file : List UInt8)
    (fits : chunk.body.length ≤ chunkSize) : (finishItem hash128 none file c chunk).err = none := by
  have hb := chunk.length_bytes
  unfold finishItem
  split_ifs with hw hg
  · rfl
  · omega
  · exact finishChunk_err noErr file chunk

lemma finishChunk_of_ok (ok : (finishChunk hash128 fault file c chunk).err = none) :
    finishChunk hash128 fault file c chunk = finishChunk hash128 none file c chunk := by
  cases fault with
  | none => rfl
  | some n =>
    unfold finishChunk at ok ⊢
    split_ifs at ok ⊢
    · rfl

lemma finishItem_of_ok (ok : (finishItem hash128 fault file c chunk).err = none) :
    finishItem hash128 fault file c chunk = finishItem hash128 none file c chunk := by
  unfold finishItem at ok ⊢
  split_ifs at ok ⊢
  · rfl
  · exact finishChunk_of_ok ok

lemma finishWriteChunk_of_ok
    (ok : (finishWriteChunk hash128 fault truncateFails file c chunk).err = none) :
    finishWriteChunk hash128 fault truncateFails file c chunk =
      finishWriteChunk hash128 none false file c chunk := by
  simp only [finishWriteChunk] at ok ⊢
  split at ok
  · rename_i hs
    rw [ok] at hs
    cases hs
  · rename_i hn
    have hc := finishChunk_of_ok (Option.not_isSome_iff_eq_none.1 hn)
    rw [hc] at ok hn ⊢
    cases truncateFails with
    | false => rw [if_neg hn]
    | true => cases ok

lemma appendItems_of_ok {faults : ℕ → Option ℕ}
    (ok : (appendItems hash128 faults j items storage file chunk).err = none) :
    appendItems hash128 faults j items storage file chunk =
      appendItems hash128 (fun _ => none) j items storage file chunk := by
  induction items generalizing j storage file chunk with
  | nil => rfl
  | cons item items ih =>
    simp only [appendItems] at ok ⊢
    split at ok
    · rename_i hs
      rw [ok] at hs
      cases hs
    · rename_i hn
      have hi := finishItem_of_ok (Option.not_isSome_iff_eq_none.1 hn)
      rw [if_neg hn, ih ok, hi, if_neg (by rwa [← hi])]

lemma finishItems_of_ok {r : Written}
    (ok : (finishItems hash128 fault truncateFails r).err = none) :
    r.err = none ∧
      finishItems hash128 fault truncateFails r = finishItems hash128 none false r := by
  unfold finishItems at ok ⊢
  split_ifs at ok ⊢ with hs
  · exact ⟨ok, rfl⟩
  · exact ⟨Option.not_isSome_iff_eq_none.1 hs, finishWriteChunk_of_ok ok⟩

/-- A save that succeeds does what it does without a fault. -/
lemma saveItems_of_ok {faults : SaveFaults} {maxChunkSize : Int}
    (ok : (saveItems hash128 magic faults maxChunkSize items s).2 = none) :
    saveItems hash128 magic faults maxChunkSize items s =
      saveItems hash128 magic .none maxChunkSize items s := by
  obtain ⟨hit, hl⟩ := finishItems_of_ok ok
  rw [appendItems_of_ok hit] at hl
  simp only [saveItems, appendItems_of_ok hit, hl]
  rfl

/-- Without a failed write the loop makes the calls of a round. -/
lemma appendItems_none (h : Collects hash128 magic ⟨storage, file, some chunk⟩ bodies acc)
    (half : acc.length < chunkSize / 2) (small : ∀ x ∈ items, x.length < chunkSize / 2) :
    let r := appendItems hash128 (fun _ => none) j items storage file chunk
    r.err = none ∧ Client.run hash128 magic ⟨storage, file, some chunk⟩
      (items.map (Call.item · none)) = ⟨r.storage, r.file, some r.chunk⟩ := by
  induction items generalizing storage file chunk bodies acc j with
  | nil => exact ⟨rfl, rfl⟩
  | cons item items ih =>
    obtain rfl : chunk.body = acc := by
      obtain ⟨_, hs, hb⟩ := h.chunk
      rwa [← Option.some.inj hs] at hb
    have hi := small item (.head _)
    have hf : (chunk.body ++ item).length ≤ chunkSize := by
      rw [length_append]
      omega
    have hl : (chunk.append item).body.length ≤ chunkSize := by rwa [Chunk.body_append]
    have her : (finishItem hash128 none file storage (chunk.append item)).err = none :=
      finishItem_err h.noErr file hl
    have hp := h.item hf
    have hac' : (if (chunk.body ++ item).length < chunkSize / 2 then chunk.body ++ item
        else []).length < chunkSize / 2 := by
      split_ifs with hm
      · exact hm
      · decide
    simp only [appendItems, her]
    exact ih hp hac' fun x hx => small x (mem_cons_of_mem item hx)

/-- A save without a failed write appends the chunks of its items and cuts the file there. -/
lemma saveItems_none (h : Appends hash128 magic s bodies)
    (small : ∀ x ∈ items, x.length < chunkSize / 2) (maxChunkSize : Int) :
    let r := saveItems hash128 magic .none maxChunkSize items s
    r.2 = none ∧ Appends hash128 magic r.1 (bodies ++ bodiesOf items) ∧
      r.1.file = fileOf hash128 magic (bodies ++ bodiesOf items) := by
  obtain ⟨ha, hf⟩ := h.round (r := ⟨maxChunkSize, items⟩) small
  have hs := Collects.start h maxChunkSize
  have hc := hs.items (by decide) small
  obtain ⟨her, hu⟩ := appendItems_none (j := 0) hs (by decide) small
  have hn := hc.noErr
  have hr : Client.run hash128 magic s (Round.calls ⟨maxChunkSize, items⟩) =
      (Client.run hash128 magic (s.step hash128 magic (.startWriteChunk maxChunkSize))
        (items.map (Call.item · none))).step hash128 magic (.finishWriteChunk none false) := by
    simp [Client.run, Round.calls]
  have hp : s.step hash128 magic (.startWriteChunk maxChunkSize) =
      ⟨(s.storage.startWriteChunk magic maxChunkSize).1, s.file,
        some (s.storage.startWriteChunk magic maxChunkSize).2⟩ := rfl
  rw [hp, hu] at hr hn
  rw [hr] at ha hf
  have hb {r : Written} (h : r.storage.writeErr = false) :
      (finishWriteChunk hash128 none false r.file r.storage r.chunk).err = none := by
    simp [finishWriteChunk, finishChunk_err h]
  simp only [saveItems, finishItems, SaveFaults.none, her]
  exact ⟨hb hn, ha, hf⟩

end Save

end ChunkedStorage

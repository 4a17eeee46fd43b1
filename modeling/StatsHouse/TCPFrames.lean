import StatsHouse.ByteCodec

/-!
# The frames of a TCP connection

A client writes each packet as its length, four little-endian bytes, and its body. The receiver
reads into a buffer that holds one frame of the greatest size, hands over the frames that are
complete and moves what is left to the front. How the network cuts the stream does not matter.
-/

namespace TCPFrames

open ByteCodec List

def maxTCPFrameBody : ℕ := 2 ^ 16 - 1

/-- The error of the `Read` that ends the loop. -/
inductive ReadErr where
  | eof
  | unexpectedEOF
  | network (text : String)

inductive ReceiveErr where
  | network (text : String)
  | framing (bodyLen : ℕ)

def ReadErr.result : ReadErr → Option ReceiveErr
  | eof | unexpectedEOF => none
  | network text => some (.network text)

/-- The buffer of the loop. Only its first `size` bytes are unread bytes of the stream. -/
structure Buffer where
  data : List UInt8
  size : ℕ

namespace Buffer

def start : Buffer := ⟨List.replicate (4 + maxTCPFrameBody) 0, 0⟩

/-- The length of `data[size:]`, which is given to `Read`. -/
def free (b : Buffer) : ℕ := b.data.length - b.size

def read (b : Buffer) (bytes : List UInt8) : Buffer :=
  ⟨b.data.take b.size ++ bytes ++ b.data.drop (b.size + bytes.length), b.size + bytes.length⟩

/-- `copy(data, data[offset:size])`; the bytes behind the copy stay where they are. -/
def move (b : Buffer) (offset : ℕ) : Buffer :=
  if offset ≠ 0 then
    ⟨(b.data.take b.size).drop offset ++ b.data.drop (b.size - offset), b.size - offset⟩
  else b

/-- The inner loop: the complete frames from `offset` on, and where the rest begins. -/
def frames (b : Buffer) (offset : ℕ) : List (List UInt8) × Except ℕ ℕ :=
  if offset + 4 > b.size then ([], .ok offset)
  else
    let bodyLen := (uint32 (b.data.drop offset)).toNat
    if bodyLen > maxTCPFrameBody then ([], .error bodyLen)
    else if 4 + offset + bodyLen > b.size then ([], .ok offset)
    else
      let rest := b.frames (offset + (4 + bodyLen))
      ((b.data.drop (4 + offset)).take bodyLen :: rest.1, rest.2)
termination_by b.size - offset

end Buffer

/-- What the handler got, the lengths of the buffers given to `Read`, and what was returned. -/
structure Received where
  handled : List (List UInt8)
  asked : List ℕ
  err : Option ReceiveErr

/-- The loop over the results of `Read`, the last of which is an error. -/
def receiveLoop (b : Buffer) (last : ReadErr) : List (List UInt8) → Received
  | [] => ⟨[], [b.free], last.result⟩
  | bytes :: reads =>
    let out := (b.read bytes).frames 0
    match out.2 with
    | .error bodyLen => ⟨out.1, [b.free], some (.framing bodyLen)⟩
    | .ok offset =>
      let rest := receiveLoop ((b.read bytes).move offset) last reads
      ⟨out.1 ++ rest.handled, b.free :: rest.asked, rest.err⟩

/-- The bodies of the complete frames, and the incomplete rest or the length that is too big. -/
def parse (stream : List UInt8) : List (List UInt8) × Except ℕ (List UInt8) :=
  if stream.length < 4 then ([], .ok stream)
  else
    let bodyLen := (uint32 stream).toNat
    if bodyLen > maxTCPFrameBody then ([], .error bodyLen)
    else if stream.length < 4 + bodyLen then ([], .ok stream)
    else
      let rest := parse (stream.drop (4 + bodyLen))
      ((stream.drop 4).take bodyLen :: rest.1, rest.2)
termination_by stream.length

lemma uint32_append {a : List UInt8} (h : 4 ≤ a.length) (b : List UInt8) :
    uint32 (a ++ b) = uint32 a := by
  have hgt : ∀ i < 4, (a ++ b).getD i 0 = a.getD i 0 := by
    intro i hi
    simp [getD, getElem?_append_left (by omega : i < a.length)]
  simp only [uint32, hgt, Nat.reduceLT]

/-- Only the rest of a parsed part is needed to go on. -/
lemma parse_append (a b : List UInt8) : parse (a ++ b) = match (parse a).2 with
    | .error _ => parse a
    | .ok rest => ((parse a).1 ++ (parse (rest ++ b)).1, (parse (rest ++ b)).2) := by
  fun_induction parse a with
  | case1 a he => simp
  | case2 a he bodyLen hg =>
    rw [parse, if_neg (by rw [length_append]; omega), uint32_append (by omega)]
    simp [bodyLen, hg]
  | case3 a he bodyLen hg hs => simp
  | case4 a he bodyLen hg hs rest ih =>
    have hd : (a ++ b).drop (4 + bodyLen) = a.drop (4 + bodyLen) ++ b :=
      drop_append_of_le_length (by omega)
    have hb : ((a ++ b).drop 4).take bodyLen = (a.drop 4).take bodyLen := by
      rw [drop_append_of_le_length (by omega),
        take_append_of_le_length (by rw [length_drop]; omega)]
    rw [parse, if_neg (by rw [length_append]; omega), uint32_append (by omega)]
    simp only [if_neg hg, if_neg (show ¬(a ++ b).length < 4 + bodyLen by
      rw [length_append]; omega), bodyLen] at *
    simp only [rest, bodyLen]
    split <;> simp_all

/-- The rest holds no complete frame, so it leaves room in the buffer. -/
lemma parse_rest {a rest : List UInt8} (h : (parse a).2 = .ok rest) :
    parse rest = ([], .ok rest) ∧ rest.length < 4 + maxTCPFrameBody := by
  fun_induction parse a with
  | case1 a he =>
    cases h
    exact ⟨by rw [parse, if_pos he], by omega⟩
  | case2 => cases h
  | case3 a he bodyLen hb hs =>
    cases h
    refine ⟨?_, by omega⟩
    rw [parse, if_neg he]
    simp only [bodyLen, if_neg hb, if_pos hs] at *
  | case4 a he bodyLen hb hs _ ih => exact ih h

namespace Buffer

def bytes (b : Buffer) : List UInt8 := b.data.take b.size

variable {b : Buffer}

lemma bytes_read (h : b.size ≤ b.data.length) (r : List UInt8) :
    (b.read r).bytes = b.bytes ++ r := by
  rw [bytes, read, take_left' (by simp [h]), bytes]

lemma length_read (r : List UInt8) (hr : b.size + r.length ≤ b.data.length) :
    (b.read r).data.length = b.data.length := by
  simp [read]
  omega

variable (h : b.size ≤ b.data.length)
include h

lemma bytes_move (offset : ℕ) : (b.move offset).bytes = b.bytes.drop offset := by
  unfold move
  split
  · rw [bytes, bytes, take_left' (by simp [h])]
  · next hz => rw [not_not.1 hz, drop_zero]

lemma length_move (offset : ℕ) : (b.move offset).data.length = b.data.length ∧
      (b.move offset).size = ((b.move offset).bytes).length := by
  unfold move
  split
  · simp [bytes]
    omega
  · simp [bytes, h]

/-- The inner loop parses what is in the buffer behind `offset`. -/
lemma parse_drop (offset : ℕ) : parse (b.bytes.drop offset) =
      ((b.frames offset).1, (b.frames offset).2.map (fun o => b.bytes.drop o)) := by
  have hl : ∀ o, (b.bytes.drop o).length = b.size - o := by simp [bytes, h]
  have hw : ∀ o, o + 4 ≤ b.size → uint32 (b.bytes.drop o) = uint32 (b.data.drop o) := by
    intro o ho
    rw [← take_append_drop b.size b.data, drop_append_of_le_length (by simp; omega),
      uint32_append (by simp; omega), bytes]
  fun_induction frames b offset with
  | case1 offset he =>
    rw [parse, if_pos (by rw [hl]; omega)]
    rfl
  | case2 offset he bodyLen hg =>
    rw [parse, if_neg (by rw [hl]; omega), hw offset (by omega)]
    simp only [if_pos hg, bodyLen]
    rfl
  | case3 offset he bodyLen hg hs =>
    rw [parse, if_neg (by rw [hl]; omega), hw offset (by omega)]
    simp only [bodyLen, hl] at *
    rw [if_neg hg, if_pos (by omega)]
    rfl
  | case4 offset he bodyLen hg hs rest ih =>
    have hb : ((b.bytes.drop offset).drop 4).take bodyLen =
        (b.data.drop (4 + offset)).take bodyLen := by
      rw [drop_drop, bytes, drop_take, take_take, Nat.add_comm offset, Nat.min_eq_left (by omega)]
    rw [parse, if_neg (by rw [hl]; omega), hw offset (by omega)]
    simp only [bodyLen, hl] at *
    rw [if_neg hg, if_neg (by omega), hb, drop_drop, ih]

end Buffer

/-- What the loop does from a buffer without a complete frame. -/
lemma receiveLoop_from {b : Buffer} (hlen : b.data.length = 4 + maxTCPFrameBody)
    (hsize : b.size = b.bytes.length) (parsed : parse b.bytes = ([], .ok b.bytes))
    {last : ReadErr} {reads : List (List UInt8)}
    (hread : ∀ p ∈ reads.zip (receiveLoop b last reads).asked, p.1.length ≤ p.2) :
    let stream := parse (b.bytes ++ reads.flatten)
    let r := receiveLoop b last reads
    r.handled = stream.1 ∧ (∀ n ∈ r.asked, 0 < n) ∧ r.err = match stream.2 with
        | .error bodyLen => some (.framing bodyLen)
        | .ok _ => last.result := by
  have hr := (parse_rest (congrArg Prod.snd parsed)).2
  have hf : 0 < b.free := by
    rw [Buffer.free]
    omega
  have hle : b.size ≤ b.data.length := by omega
  induction reads generalizing b with
  | nil => simp [receiveLoop, parsed, hf]
  | cons bytes reads ih =>
    have hb : bytes.length ≤ b.free := by
      simp only [receiveLoop] at hread
      split at hread <;> exact hread (bytes, b.free) (by simp)
    rw [Buffer.free] at hb
    have hen' := b.length_read bytes (by omega)
    have hle' : (b.read bytes).size ≤ (b.read bytes).data.length := by
      change b.size + bytes.length ≤ _
      omega
    have hp := Buffer.parse_drop hle' 0
    rw [drop_zero, Buffer.bytes_read hle] at hp
    simp only [receiveLoop, flatten_cons, ← append_assoc] at hread ⊢
    rw [parse_append (b.bytes ++ bytes), hp]
    cases ho : ((b.read bytes).frames 0).2 with
    | error bodyLen => simp [hf, Except.map]
    | ok offset =>
      have hm : ((b.read bytes).move offset).bytes = (b.bytes ++ bytes).drop offset := by
        rw [Buffer.bytes_move hle', Buffer.bytes_read hle]
      have hn := parse_rest (by rw [hp, ho]; rfl)
      simp only [Except.map, ← hm] at hn ⊢
      simp only [ho, zip_cons_cons, forall_mem_cons] at hread
      obtain ⟨hl, hsM⟩ := Buffer.length_move hle' offset
      obtain ⟨hh, ha, her⟩ := ih (hl.trans (hen'.trans hlen)) hsM hn.1 hread.2
        hn.2 (by rw [Buffer.free]; omega) (by omega)
      exact ⟨by rw [hh], by simpa [hf] using ha, her⟩

/-- For every stream and every way in which `Read` cuts it: the handler gets the bodies of the
frames of the stream, up to the last complete one or the first length that is too big, and
`Read` is never given an empty buffer. -/
theorem receiveLoop_eq_parse (last : ReadErr) (reads : List (List UInt8))
    (hread : ∀ p ∈ reads.zip (receiveLoop .start last reads).asked, p.1.length ≤ p.2) :
    let stream := parse reads.flatten
    let r := receiveLoop .start last reads
    r.handled = stream.1 ∧ (∀ n ∈ r.asked, 0 < n) ∧ r.err = match stream.2 with
        | .error bodyLen => some (.framing bodyLen)
        | .ok _ => last.result := by
  have he : Buffer.start.bytes = [] := take_zero
  have h := receiveLoop_from length_replicate (by rw [he]; rfl)
    (by rw [he, parse]; rfl) hread
  rwa [he] at h

/-- A frame of one byte, cut inside its length. -/
theorem receiveLoop_cut_length : (receiveLoop .start .eof [[1, 0], [0, 0, 7]]).handled = [[7]] := by
  have h := receiveLoop_eq_parse .eof [[1, 0], [0, 0, 7]] (by
    have he : Buffer.start.data.length = 65539 := length_replicate
    have hf : (Buffer.start.read [1, 0]).frames 0 = ([], .ok 0) := by
      rw [Buffer.frames]
      rfl
    simp only [receiveLoop, hf]
    split <;> simp [Buffer.free, Buffer.read, Buffer.move, he,
      show Buffer.start.size = 0 from rfl])
  rw [h.1]
  simp [parse, uint32, maxTCPFrameBody]

end TCPFrames

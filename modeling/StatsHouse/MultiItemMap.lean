import StatsHouse.Interning
import StatsHouse.KeyEncoding

/-!
# The map from keys to items

The strings that index the map point into `keysBuffer`. The buffer is a slice of a block of
memory: an append writes behind its length or, when the capacity is used up, copies it to a
new block. Blocks are never freed here, and how much a new block is larger than needed is
an argument of every call. A string is compared by the bytes it points at when the map is
read, so the map is right only because those bytes are never overwritten.

An item is the index of its creation. Of its fields only the key is kept.
-/

open ByteCodec Function

structure Slice where
  block : Nat
  len : Nat

/-- A string made by `unsafe.String`. -/
structure Ref where
  block : Nat
  off : Nat
  len : Nat

structure MultiItemMap where
  heap : List (List UInt8)
  keysBuffer : Slice
  multiItems : Option (List (Ref × Nat))
  items : List Key

namespace MultiItemMap

/-- The zero value. A nil slice is a slice of a block without capacity. -/
def zeroValue : MultiItemMap := ⟨[[]], ⟨0, 0⟩, none, []⟩

def deref (heap : List (List UInt8)) (r : Ref) : List UInt8 :=
  ((heap.getD r.block []).drop r.off).take r.len

/-- Append to `keysBuffer`, and the string that points at the appended bytes. -/
def appendKey (b : MultiItemMap) (bytes : List UInt8) (extra : Nat) : MultiItemMap × Ref :=
  let block := b.heap.getD b.keysBuffer.block []
  let len := b.keysBuffer.len
  if len + bytes.length ≤ block.length then
    ({ b with
      heap := b.heap.set b.keysBuffer.block (copyAt block len bytes)
      keysBuffer := ⟨b.keysBuffer.block, len + bytes.length⟩ },
      ⟨b.keysBuffer.block, len, bytes.length⟩)
  else
    ({ b with
      heap := b.heap ++ [block.take len ++ bytes ++ List.replicate extra 0]
      keysBuffer := ⟨b.heap.length, len + bytes.length⟩ },
      ⟨b.heap.length, len, bytes.length⟩)

def entries (b : MultiItemMap) : List (Ref × Nat) := b.multiItems.getD []

def lookup (b : MultiItemMap) (bytes : List UInt8) : Option Nat :=
  (b.entries.find? fun e => deref b.heap e.1 == bytes).map (·.2)

def truncate (b : MultiItemMap) (len : Nat) : MultiItemMap :=
  { b with keysBuffer := ⟨b.keysBuffer.block, len⟩ }

/-- Returns the item and whether it was created. -/
def getOrCreateMultiItem (b : MultiItemMap) (key : Key) (keyBytes : List UInt8) (extra : Nat) :
    MultiItemMap × Nat × Bool :=
  let wasLen := b.keysBuffer.len
  let (b, keyString) := b.appendKey (if keyBytes.length > 0 then keyBytes else key.marshal) extra
  match b.lookup (deref b.heap keyString) with
  | some item => ({ b.truncate wasLen with multiItems := some b.entries }, item, false)
  | none =>
    ({ b with
      items := b.items ++ [key]
      multiItems := some ((keyString, b.items.length) :: b.entries) }, b.items.length, true)

def deleteMultiItem (b : MultiItemMap) (key : Key) (extra : Nat) : MultiItemMap :=
  match b.multiItems with
  | none => b
  | some entries =>
    let (b, keyString) := b.appendKey key.marshal extra
    { b.truncate (b.keysBuffer.len - keyString.len) with
      multiItems := some (entries.filter fun e => deref b.heap e.1 != deref b.heap keyString) }

end MultiItemMap

namespace MultiItems

open MultiItemMap KeyEncoding
variable {bytes : List UInt8} {b : MultiItemMap} {r : Ref} {es : List (Ref × Nat)}
  {b' : MultiItemMap} (query : List UInt8)

/-- The strings of the map lie in old blocks or before the end of `keysBuffer`. -/
structure Stable (b : MultiItemMap) : Prop where
  inside : b.keysBuffer.block < b.heap.length
  len : b.keysBuffer.len ≤ (b.heap.getD b.keysBuffer.block []).length
  known : ∀ e ∈ b.entries, e.1.block < b.heap.length
  before : ∀ e ∈ b.entries, e.1.block = b.keysBuffer.block → e.1.off + e.1.len ≤ b.keysBuffer.len

lemma zeroValue_stable : Stable zeroValue := by
  constructor
  · decide
  · decide
  · intro e he
    cases he
  · intro e he
    cases he

/-- A string sees only the bytes before its end. -/
lemma deref_congr {block block' : List UInt8} {off len n : Nat} (hin : off + len ≤ n)
    (same : block'.take n = block.take n) :
    (block'.drop off).take len = (block.drop off).take len := by
  have hc : ∀ bs : List UInt8, (bs.drop off).take len = ((bs.take n).drop off).take len := by
    intro bs
    rw [List.drop_take, List.take_take, Nat.min_eq_left (by omega)]
  rw [hc block', hc block, same]

lemma take_copyAt (block bytes : List UInt8) {n : Nat} (room : n + bytes.length ≤ block.length) :
    (copyAt block n bytes).take n = block.take n ∧
      ((copyAt block n bytes).drop n).take bytes.length = bytes ∧
      (copyAt block n bytes).length = block.length := by
  have hl : (block.take n).length = n := by
    rw [List.length_take]
    omega
  have hc : copyAt block n bytes =
      block.take n ++ (bytes ++ (block.drop n).drop bytes.length) := by
    have h := copyAt_append (block.take n) (block.drop n) bytes (by
      rw [List.length_drop]
      omega)
    rwa [List.take_append_drop, hl, List.append_assoc] at h
  rw [hc]
  refine ⟨List.take_left' hl, ?_, ?_⟩
  · rw [List.drop_left' hl]
    exact List.take_left' rfl
  · simp only [List.length_append, hl, List.length_drop]
    omega

/-- What an append to `keysBuffer` does, and what it leaves alone. -/
structure Appended (b b' : MultiItemMap) (r : Ref) (bytes : List UInt8) : Prop where
  content : deref b'.heap r = bytes
  frame : ∀ e ∈ b.entries, deref b'.heap e.1 = deref b.heap e.1
  fields : b'.multiItems = b.multiItems ∧ b'.items = b.items
  place : r = ⟨b'.keysBuffer.block, b.keysBuffer.len, bytes.length⟩
  len : b'.keysBuffer.len = b.keysBuffer.len + bytes.length
  inside : b'.keysBuffer.block < b'.heap.length
  room : b'.keysBuffer.len ≤ (b'.heap.getD b'.keysBuffer.block []).length
  known : ∀ e ∈ b.entries, e.1.block < b'.heap.length
  clear : ∀ e ∈ b.entries, e.1.block = b'.keysBuffer.block → e.1.off + e.1.len ≤ b.keysBuffer.len

/-- In place: only bytes behind the old length are written. -/
lemma appendKey_inPlace (stable : Stable b) (bytes : List UInt8) (extra : Nat)
    (hlen : b.keysBuffer.len + bytes.length ≤ (b.heap.getD b.keysBuffer.block []).length) :
    Appended b (b.appendKey bytes extra).1 (b.appendKey bytes extra).2 bytes := by
  obtain ⟨inside, -, known, before⟩ := stable
  obtain ⟨hk, hn, hz⟩ := take_copyAt _ bytes hlen
  simp only [appendKey, if_pos hlen]
  have hs : (b.heap.set b.keysBuffer.block (copyAt (b.heap.getD b.keysBuffer.block [])
      b.keysBuffer.len bytes)).getD b.keysBuffer.block [] =
      copyAt (b.heap.getD b.keysBuffer.block []) b.keysBuffer.len bytes := by
    simp [inside]
  constructor
  · simp only [deref, hs]
    exact hn
  · intro e he
    simp only [deref]
    by_cases hb : e.1.block = b.keysBuffer.block
    · rw [hb, hs]
      exact deref_congr (before e he hb) hk
    · rw [List.getD_eq_getElem?_getD, List.getElem?_set_ne (Ne.symm hb),
        ← List.getD_eq_getElem?_getD]
  · exact ⟨rfl, rfl⟩
  · rfl
  · rfl
  · simpa using inside
  · rw [hs, hz]
    exact hlen
  · intro e he
    simpa using known e he
  · exact before

/-- A new block: the old ones are not written at all. -/
lemma appendKey_newBlock (stable : Stable b) (bytes : List UInt8) (extra : Nat)
    (tooLong : ¬ b.keysBuffer.len + bytes.length ≤ (b.heap.getD b.keysBuffer.block []).length) :
    Appended b (b.appendKey bytes extra).1 (b.appendKey bytes extra).2 bytes := by
  obtain ⟨-, hl, known, -⟩ := stable
  simp only [appendKey, if_neg tooLong]
  have hs : (b.heap ++ [(b.heap.getD b.keysBuffer.block []).take b.keysBuffer.len ++ bytes ++
      List.replicate extra 0]).getD b.heap.length [] =
      (b.heap.getD b.keysBuffer.block []).take b.keysBuffer.len ++ bytes ++
        List.replicate extra 0 := by
    simp
  have hc : ((b.heap.getD b.keysBuffer.block []).take b.keysBuffer.len).length =
      b.keysBuffer.len := by
    rw [List.length_take, Nat.min_eq_left hl]
  constructor
  · simp only [deref, hs]
    rw [List.append_assoc, List.drop_left' hc]
    exact List.take_left' rfl
  · intro e he
    simp only [deref]
    rw [List.getD_eq_getElem?_getD, List.getElem?_append_left (known e he),
      ← List.getD_eq_getElem?_getD]
  · exact ⟨rfl, rfl⟩
  · rfl
  · rfl
  · simp
  · rw [hs]
    simp only [List.length_append, hc]
    omega
  · intro e he
    have := known e he
    simp only [List.length_append, List.length_singleton]
    omega
  · intro e he hb
    change e.1.block = b.heap.length at hb
    exact absurd (known e he) (by omega)

theorem appendKey_appended (stable : Stable b) (bytes : List UInt8) (extra : Nat) :
    Appended b (b.appendKey bytes extra).1 (b.appendKey bytes extra).2 bytes := by
  by_cases hf : b.keysBuffer.len + bytes.length ≤ (b.heap.getD b.keysBuffer.block []).length
  · exact appendKey_inPlace stable bytes extra hf
  · exact appendKey_newBlock stable bytes extra hf

/-- Cutting the appended bytes off again gives a stable map for any of the old entries. -/
lemma Appended.truncate (app : Appended b b' r bytes) (entries : ∀ e ∈ es, e ∈ b.entries) :
    Stable { b'.truncate b.keysBuffer.len with multiItems := some es } := by
  constructor
  · exact app.inside
  · have hr := app.room
    have hl := app.len
    change b.keysBuffer.len ≤ (b'.heap.getD b'.keysBuffer.block []).length
    omega
  · intro e he
    exact app.known e (entries e he)
  · intro e he
    exact app.clear e (entries e he)

lemma Appended.extend (app : Appended b b' r bytes) (item : Nat) (items : List Key) :
    Stable { b' with items := items, multiItems := some ((r, item) :: b.entries) } := by
  have hl := app.len
  constructor
  · exact app.inside
  · exact app.room
  · intro e he
    rcases List.mem_cons.1 he with rfl | he
    · rw [app.place]
      exact app.inside
    · exact app.known e he
  · intro e he hb
    rcases List.mem_cons.1 he with rfl | he
    · rw [app.place]
      exact le_of_eq hl.symm
    · have := app.clear e he hb
      change e.1.off + e.1.len ≤ b'.keysBuffer.len
      omega

/-- Reading the map depends only on the bytes that its strings point at. -/
lemma find_congr {heap heap' : List (List UInt8)}
    (same : ∀ e ∈ es, deref heap' e.1 = deref heap e.1) (bytes : List UInt8) :
    es.find? (fun e => deref heap' e.1 == bytes) = es.find? fun e => deref heap e.1 == bytes := by
  induction es with
  | nil => rfl
  | cons e es ih =>
    rw [List.find?_cons, List.find?_cons, same e List.mem_cons_self,
      ih fun e he => same e (List.mem_cons_of_mem _ he)]

/-- Keys whose string tags have no zero byte. -/
abbrev CleanKey := { k : Key // Clean k }

/-- What the map means: which clean key has which item. -/
def table (b : MultiItemMap) : Interning.Table CleanKey :=
  ⟨b.items.length, fun k => b.lookup k.1.marshal⟩

lemma marshal_eq_iff (k₁ k₂ : CleanKey) : k₁.1.marshal = k₂.1.marshal ↔ k₁ = k₂ := by
  constructor
  · intro h
    exact Subtype.ext (marshal_injective k₁.2 k₂.2 h)
  · intro h
    rw [h]

section

variable (app : Appended b b' r bytes)
include app

lemma Appended.lookup_eq : b'.lookup query = b.lookup query := by
  have he : b'.entries = b.entries := by rw [entries, entries, app.fields.1]
  rw [lookup, lookup, he, find_congr app.frame]

lemma Appended.lookup_old :
    (b.entries.find? fun e => deref b'.heap e.1 == query).map (·.2) = b.lookup query := by
  rw [find_congr app.frame, lookup]

lemma Appended.lookup_new (item : Nat) (query : List UInt8) :
    (((r, item) :: b.entries).find? fun e => deref b'.heap e.1 == query).map (·.2) =
      if query = bytes then some item else b.lookup query := by
  rw [List.find?_cons, app.content]
  by_cases h : query = bytes
  · rw [if_pos h, beq_iff_eq.2 h.symm]
    rfl
  · rw [if_neg h, beq_eq_false_iff_ne.2 (Ne.symm h)]
    exact app.lookup_old query

lemma Appended.lookup_filter : ((b.entries.filter fun e => deref b'.heap e.1 != bytes).find?
      fun e => deref b'.heap e.1 == query).map (·.2) =
      if query = bytes then none else b.lookup query := by
  rw [List.find?_filter]
  by_cases h : query = bytes
  · rw [if_pos h, List.find?_eq_none.2 (by simp [h])]
    rfl
  · rw [if_neg h, ← app.lookup_old query]
    congr 2
    funext e
    by_cases he : deref b'.heap e.1 = query
    · simp [he, h]
    · simp [he]

end

lemma update_lookup (b : MultiItemMap) (k k' : CleanKey) (value : Option Nat) :
    update (table b).find k value k' =
      if k'.1.marshal = k.1.marshal then value else b.lookup k'.1.marshal := by
  by_cases hk : k' = k
  · subst hk
    rw [update_self, if_pos rfl]
  · rw [update_of_ne hk, if_neg fun h => hk ((marshal_eq_iff k' k).1 h)]
    rfl

lemma marshal_length_pos (k : Key) : 0 < k.marshal.length := by
  rw [marshal_eq]
  simp

/-- `GetOrCreateMultiItem` is a lookup in the intern table. The caller may pass the bytes of
the key or leave them out. -/
theorem getOrCreateMultiItem_table (stable : Stable b) (k : CleanKey) {keyBytes : List UInt8}
    (given : keyBytes = [] ∨ keyBytes = k.1.marshal) (extra : Nat) :
    Stable (b.getOrCreateMultiItem k.1 keyBytes extra).1 ∧
      (table (b.getOrCreateMultiItem k.1 keyBytes extra).1,
        (b.getOrCreateMultiItem k.1 keyBytes extra).2.1) = (table b).get k := by
  have hb : (if keyBytes.length > 0 then keyBytes else k.1.marshal) = k.1.marshal := by
    rcases given with rfl | rfl
    · rfl
    · rw [if_pos (marshal_length_pos k.1)]
  have app := appendKey_appended stable k.1.marshal extra
  rw [getOrCreateMultiItem, hb]
  generalize b.appendKey k.1.marshal extra = result at app ⊢
  obtain ⟨b', r⟩ := result
  dsimp only at app ⊢
  have ha : b'.entries = b.entries := by rw [entries, entries, app.fields.1]
  rw [app.content, app.lookup_eq, ha]
  cases hn : b.lookup k.1.marshal with
  | some item =>
    refine ⟨app.truncate fun e he => he, ?_⟩
    have hf : (table b).find k = some item := hn
    simp only [Interning.Table.get, hf]
    refine Prod.ext (Interning.Table.ext ?_ ?_) rfl
    · change b'.items.length = b.items.length
      rw [app.fields.2]
    · funext k'
      exact app.lookup_old k'.1.marshal
  | none =>
    refine ⟨app.extend _ _, ?_⟩
    have hf : (table b).find k = none := hn
    simp only [Interning.Table.get, hf, app.fields.2]
    refine Prod.ext (Interning.Table.ext ?_ ?_) rfl
    · exact List.length_append
    · funext k'
      exact (app.lookup_new b.items.length k'.1.marshal).trans (update_lookup b k k' _).symm

theorem deleteMultiItem_table (stable : Stable b) (k : CleanKey) (extra : Nat) :
    Stable (b.deleteMultiItem k.1 extra) ∧
      table (b.deleteMultiItem k.1 extra) = (table b).delete k := by
  cases hm : b.multiItems with
  | none =>
    have hn : ∀ query, b.lookup query = none := by
      intro query
      rw [lookup, entries, hm]
      rfl
    simp only [deleteMultiItem, hm]
    refine ⟨stable, Interning.Table.ext rfl ?_⟩
    funext k'
    refine Eq.trans ?_ (update_lookup b k k' none).symm
    rw [hn, ite_self]
    exact hn _
  | some es =>
    have app := appendKey_appended stable k.1.marshal extra
    have ha : b.entries = es := by rw [entries, hm, Option.getD_some]
    simp only [deleteMultiItem, hm]
    generalize b.appendKey k.1.marshal extra = result at app ⊢
    obtain ⟨b', r⟩ := result
    dsimp only at app ⊢
    have hc : b'.keysBuffer.len - r.len = b.keysBuffer.len := by
      rw [app.len, app.place]
      exact Nat.add_sub_cancel _ _
    rw [app.content, hc, ← ha]
    refine ⟨app.truncate fun e he => (List.mem_filter.1 he).1, Interning.Table.ext ?_ ?_⟩
    · change b'.items.length = b.items.length
      rw [app.fields.2]
    · funext k'
      exact (app.lookup_filter k'.1.marshal).trans (update_lookup b k k' none).symm

/-- A call, with whether the caller passes the bytes of the key and how much memory a new
block gets. -/
inductive Call where
  | getOrCreate (k : CleanKey) (given : Bool) (extra : Nat)
  | delete (k : CleanKey) (extra : Nat)

def bytesFor (k : CleanKey) (given : Bool) : List UInt8 := if given then k.1.marshal else []

def call (b : MultiItemMap) : Call → MultiItemMap
  | .getOrCreate k given extra => (b.getOrCreateMultiItem k.1 (bytesFor k given) extra).1
  | .delete k extra => b.deleteMultiItem k.1 extra

def run (b : MultiItemMap) (calls : List Call) : MultiItemMap := calls.foldl call b

/-- The call as one of the intern table. -/
def Call.meaning : Call → Interning.Call CleanKey
  | .getOrCreate k _ _ => .get k
  | .delete k _ => .delete k

lemma bytesFor_given (k : CleanKey) (given : Bool) :
    bytesFor k given = [] ∨ bytesFor k given = k.1.marshal := by
  cases given
  · exact .inl rfl
  · exact .inr rfl

lemma call_table (stable : Stable b) (c : Call) :
    Stable (call b c) ∧ table (call b c) = (table b).call c.meaning := by
  cases c with
  | getOrCreate k given extra =>
    obtain ⟨hs, ht⟩ := getOrCreateMultiItem_table stable k (bytesFor_given k given) extra
    exact ⟨hs, congrArg Prod.fst ht⟩
  | delete k extra => exact deleteMultiItem_table stable k extra

lemma run_table (stable : Stable b) (calls : List Call) :
    Stable (run b calls) ∧ table (run b calls) = (table b).run (calls.map Call.meaning) := by
  induction calls generalizing b with
  | nil => exact ⟨stable, rfl⟩
  | cons c calls ih =>
    obtain ⟨hs, ht⟩ := call_table stable c
    obtain ⟨hst', htb'⟩ := ih hs
    refine ⟨hst', htb'.trans ?_⟩
    rw [ht]
    rfl

lemma zeroValue_table : table zeroValue = Interning.Table.empty := rfl

/-- The item of a key after some calls. -/
def itemAfter (b : MultiItemMap) (calls : List Call) (k : CleanKey) (given : Bool)
    (extra : Nat) : MultiItemMap × Nat × Bool :=
  (run b calls).getOrCreateMultiItem k.1 (bytesFor k given) extra

/-- Keys that differ have different bytes, and so two calls of `GetOrCreateMultiItem` in one
run return the same item if and only if their keys are equal and the item was not deleted
between them. -/
theorem getOrCreateMultiItem_same_iff : (∀ (k₁ k₂ : CleanKey) (buffer : List UInt8),
      k₁.1.marshalAppend buffer = k₂.1.marshalAppend buffer ↔ k₁ = k₂) ∧
    ∀ (earlier between : List Call) (k₁ k₂ : CleanKey) (given₁ given₂ : Bool) (extra₁ extra₂ : Nat),
      let first := itemAfter zeroValue earlier k₁ given₁ extra₁
      let second := itemAfter first.1 between k₂ given₂ extra₂
      second.2.1 = first.2.1 ↔ k₁ = k₂ ∧ ∀ extra, Call.delete k₁ extra ∉ between := by
  constructor
  · intro k₁ k₂ buffer
    rw [← marshal_eq_iff]
    constructor
    · intro h
      exact congrArg Prod.snd h
    · intro h
      rw [Key.marshalAppend, Key.marshalAppend, h]
  · intro earlier between k₁ k₂ given₁ given₂ extra₁ extra₂
    obtain ⟨stable, ht⟩ := run_table zeroValue_stable earlier
    have sound := Interning.empty_sound.run (earlier.map Call.meaning)
    rw [← zeroValue_table, ← ht] at sound
    obtain ⟨stable₁, hf⟩ := getOrCreateMultiItem_table stable k₁ (bytesFor_given k₁ given₁) extra₁
    obtain ⟨stable₂, hb⟩ := run_table stable₁ between
    obtain ⟨-, hd⟩ := getOrCreateMultiItem_table stable₂ k₂ (bytesFor_given k₂ given₂) extra₂
    have hs := Interning.get_same_iff sound k₁ k₂ (between.map Call.meaning)
    rw [← hf] at hs
    rw [← hb, ← hd] at hs
    refine hs.trans (and_congr_right fun _ => ?_)
    constructor
    · intro hn extra hm
      exact hn (List.mem_map.2 ⟨_, hm, rfl⟩)
    · intro hn hm
      obtain ⟨c, hc, ha⟩ := List.mem_map.1 hm
      cases c with
      | getOrCreate k given extra => cases ha
      | delete k extra =>
        cases ha
        exact hn extra hc

end MultiItems

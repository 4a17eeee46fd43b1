import StatsHouse.ByteCodec
import StatsHouse.LinearProbing
import Mathlib.Data.BitVec

/-!
# ChUnique: the unique-counting hash set

An open-addressing set of 32-bit hashes. When it outgrows its size limit it keeps
only the hashes divisible by a power of two (`skipDegree`). The zero hash is not
stored in a cell, because zero marks a free one.

A nil buffer is the empty list. The backing array that Go reuses when its capacity
allows is not modelled: both paths leave the same cells. Every operation that walks
the buffer returns `none` when the walk would not end or would leave the buffer.
-/

open LinearProbing ByteCodec

abbrev Hash := BitVec 32

structure ChUnique where
  buf : List Hash := []
  itemsCount : Int := 0
  sizeDegree : Nat := 0
  skipDegree : Nat := 0
  hasZeroItem : Bool := false
deriving Repr, DecidableEq

namespace ChUnique

def uniquesHashMaxSizeDegree : Nat := 17

def uniquesHashMaxSize : Nat := 2 ^ (uniquesHashMaxSizeDegree - 1)

def uniquesHashBitsForSkip : Nat := 32 - uniquesHashMaxSizeDegree

def uniquesHashSetInitialSizeDegree : Nat := 4

/-- The zero value of the Go struct. -/
def zeroValue : ChUnique := {}

def reset (_ : ChUnique) : ChUnique where
  buf := List.replicate (2 ^ uniquesHashSetInitialSizeDegree) 0
  itemsCount := 0
  sizeDegree := uniquesHashSetInitialSizeDegree
  skipDegree := 0
  hasZeroItem := false

/-- Public methods reset a nil buffer first. -/
def ensureBuf (ch : ChUnique) : ChUnique := if ch.buf = [] then ch.reset else ch

def bufSize (ch : ChUnique) : Nat := 2 ^ ch.sizeDegree

def maxFill (ch : ChUnique) : Nat := if ch.sizeDegree = 0 then 0 else 2 ^ (ch.sizeDegree - 1)

def mask (ch : ChUnique) : Nat := 2 ^ ch.sizeDegree - 1

def place (ch : ChUnique) (x : Hash) : Nat := (x >>> uniquesHashBitsForSkip).toNat &&& ch.mask

def good (ch : ChUnique) (x : Hash) : Bool := x == (x >>> ch.skipDegree) <<< ch.skipDegree

def uintHash32 (key : BitVec 64) : Hash :=
  let key := ~~~key + (key <<< 18)
  let key := key ^^^ ((key >>> 31) ||| (key <<< 33))
  let key := key * 21
  let key := key ^^^ ((key >>> 11) ||| (key <<< 53))
  let key := key + (key <<< 6)
  let key := key ^^^ ((key >>> 22) ||| (key <<< 42))
  key.setWidth 32

/-- Walk around the buffer from `place x` to the first cell that satisfies `stop`. -/
def walk (ch : ChUnique) (stop : Hash → Bool) (x : Hash) : Option Nat :=
  probe (fun p => (p + 1) &&& ch.mask) stop ch.buf ch.bufSize (ch.place x)

def reinsertImpl (ch : ChUnique) (x : Hash) : Option ChUnique :=
  (ch.walk (· == 0) x).map fun p => { ch with buf := ch.buf.set p x }

/-- Take the entry of cell `i` out and put it back at the start of its chain. -/
def moveBack (ch : ChUnique) (i : Nat) : Option ChUnique :=
  if i = ch.place (cell ch.buf i) then some ch
  else ChUnique.reinsertImpl { ch with buf := ch.buf.set i 0 } (cell ch.buf i)

def rehashStep (ch : ChUnique) (i : Nat) : Option ChUnique :=
  if cell ch.buf i = 0 then some ch
  else if ch.good (cell ch.buf i) = false then
    some { ch with buf := ch.buf.set i 0, itemsCount := ch.itemsCount - 1 }
  else ch.moveBack i

/-- First loop of `rehash`: `left` cells remain, the next one is `i`. -/
def rehashCells : Nat → Nat → ChUnique → Option ChUnique
  | 0, _, ch => some ch
  | left + 1, i, ch => (ch.rehashStep i).bind (rehashCells left (i + 1))

/-- Second loop of `rehash`: the first collision chain once again. -/
def rehashChain : Nat → Nat → ChUnique → Option ChUnique
  | 0, _, ch => some ch
  | left + 1, i, ch =>
    if cell ch.buf i = 0 then some ch
    else (ch.moveBack i).bind (rehashChain left (i + 1))

def rehash (ch : ChUnique) : Option ChUnique :=
  (rehashCells ch.bufSize 0 ch).bind (rehashChain ch.bufSize 0)

def resizeStep (ch : ChUnique) (i : Nat) : Option ChUnique :=
  let x := cell ch.buf i
  if x = 0 then some ch
  else if ch.place x = i then some ch
  else (ch.walk (fun v => v == 0 || v == x) x).map fun p =>
    if cell ch.buf p = x then ch else { ch with buf := (ch.buf.set p x).set i 0 }

/-- The loop of `resize`. It must stop before the end of the new buffer. -/
def resizeCells (oldSize : Nat) : Nat → Nat → ChUnique → Option ChUnique
  | 0, _, _ => none
  | left + 1, i, ch =>
    if i < oldSize ∨ cell ch.buf i ≠ 0 then
      (ch.resizeStep i).bind (resizeCells oldSize left (i + 1))
    else some ch

/-- The buffer of `newSizeDegree` before any item is moved. -/
def expand (ch : ChUnique) (newSizeDegree : Nat) : ChUnique := { ch with
    sizeDegree := newSizeDegree
    buf := (ch.buf ++ List.replicate (2 ^ newSizeDegree) 0).take (2 ^ newSizeDegree) }

def resize (ch : ChUnique) (newSizeDegree : Nat) : Option ChUnique :=
  resizeCells ch.bufSize (2 ^ newSizeDegree) 0 (ch.expand newSizeDegree)

def insertImpl (ch : ChUnique) (x : Hash) : Option ChUnique :=
  if x = 0 then
    if ch.hasZeroItem then some ch
    else some { ch with itemsCount := ch.itemsCount + 1, hasZeroItem := true }
  else (ch.walk (fun v => v == x || v == 0) x).map fun p =>
    if cell ch.buf p = x then ch
    else { ch with buf := ch.buf.set p x, itemsCount := ch.itemsCount + 1 }

/-- The thinning loop of `shrinkIfNeed`. From degree 32 on a rehash empties the
buffer, so a loop that is still running after 33 turns runs forever. -/
def thinOut : Nat → ChUnique → Option ChUnique
  | 0, _ => none
  | fuel + 1, ch =>
    if ch.itemsCount > uniquesHashMaxSize then
      (rehash { ch with skipDegree := ch.skipDegree + 1 }).bind (thinOut fuel)
    else some ch

def shrinkIfNeed (ch : ChUnique) : Option ChUnique :=
  if ch.itemsCount ≤ ch.maxFill then some ch
  else if ch.itemsCount > uniquesHashMaxSize then thinOut 34 ch
  else ch.resize (ch.sizeDegree + 1)

def insertHash (ch : ChUnique) (hashValue : Hash) : Option ChUnique :=
  if ch.good hashValue = false then some ch
  else (ch.insertImpl hashValue).bind shrinkIfNeed

def insert (ch : ChUnique) (val : BitVec 64) : Option ChUnique :=
  ch.ensureBuf.insertHash (uintHash32 val)

/-- One turn of the loop of `Merge`: the item is checked against the degree of `rhs`. -/
def mergeItem (rhs : ChUnique) (ch : ChUnique) (x : Hash) : Option ChUnique :=
  if x ≠ 0 ∧ rhs.good x = true then (ch.insertImpl x).bind shrinkIfNeed else some ch

def mergeDegree (ch rhs : ChUnique) : Option ChUnique :=
  if rhs.skipDegree > ch.skipDegree then rehash { ch with skipDegree := rhs.skipDegree }
  else some ch

def mergeZero (rhs ch : ChUnique) : Option ChUnique :=
  if ch.hasZeroItem = false ∧ rhs.hasZeroItem = true then
    shrinkIfNeed { ch with hasZeroItem := true, itemsCount := ch.itemsCount + 1 }
  else some ch

def merge (ch rhs : ChUnique) : Option ChUnique :=
  if rhs.buf = [] then some ch
  else ((ch.ensureBuf.mergeDegree rhs).bind (mergeZero rhs)).bind
    fun ch => rhs.buf.foldlM (mergeItem rhs) ch

/-- The items in the order in which they are written: zero first, then the cells. -/
def items (ch : ChUnique) : List Hash :=
  (if ch.hasZeroItem then [0] else []) ++ ch.buf.filter (· ≠ 0)

def marshallAppend (ch : ChUnique) (buf : List UInt8) : List UInt8 :=
  if ch.buf = [] then buf ++ [0, 0]
  else buf ++ UInt8.ofNat ch.skipDegree :: putUvarint (ch.itemsCount % 2 ^ 64).toNat ++
    ch.items.flatMap putUint32

inductive DecodeError where
  | read (e : ReadError)
  | tooManyItems (ic : Nat)
deriving Repr, DecidableEq

/-- What a decoder leaves behind: the new state, and the unread bytes or an error. -/
abbrev Decoded := ChUnique × Except DecodeError (List UInt8)

/-- The size that the decoders choose, `uint32(math.Log2(float64(ic)) + 2)` with the
initial degree as lower bound. The logarithm is exact enough for counts up to 65536. -/
def readSizeDegree (ic : Nat) : Nat :=
  if ic > 1 then max (Nat.log2 ic + 2) uniquesHashSetInitialSizeDegree
  else uniquesHashSetInitialSizeDegree

/-- The empty buffer of `UmMarshall` and `ReadFrom`, with the count from the wire. -/
def loadBuf (ch : ChUnique) (ic : Nat) : ChUnique := { ch with
    itemsCount := ic
    sizeDegree := readSizeDegree ic
    buf := List.replicate (2 ^ readSizeDegree ic) 0 }

def loadItem (ch : ChUnique) (x : Hash) : Option ChUnique :=
  if x = 0 then some { ch with hasZeroItem := true } else ch.reinsertImpl x

/-- `r.Read(tmp[:])` into the reused scratch area. -/
def readTmp (tmp r : List UInt8) : Except ReadError (Hash × List UInt8 × List UInt8) :=
  (readInto tmp r).map fun (tmp, r) => (uint32 tmp, tmp, r)

def readUint32LE (_ : Unit) (r : List UInt8) : Except ReadError (Hash × Unit × List UInt8) :=
  match r with
  | b0 :: b1 :: b2 :: b3 :: r => .ok (uint32 [b0, b1, b2, b3], (), r)
  | _ => .error .eof

/-- The item loop of the three decoders: `n` items remain. -/
def readItems {σ : Type} (read : σ → List UInt8 → Except ReadError (Hash × σ × List UInt8))
    (put : ChUnique → Hash → Option ChUnique) : Nat → ChUnique → σ → List UInt8 → Option Decoded
  | 0, ch, _, r => some (ch, .ok r)
  | n + 1, ch, s, r =>
    match read s r with
    | .error e => some (ch, .error (.read e))
    | .ok (x, s, r) => (put ch x).bind fun ch => readItems read put n ch s r

def umMarshall (ch : ChUnique) (r : List UInt8) : Option Decoded :=
  let ch := { ch with hasZeroItem := false }
  match readByte r with
  | .error e => some (ch, .error (.read e))
  | .ok (sd, r) =>
    let ch := { ch with skipDegree := sd.toNat }
    match readUvarint r with
    | .error e => some (ch, .error (.read e))
    | .ok (ic, r) =>
      if ic > uniquesHashMaxSize then some (ch, .error (.tooManyItems ic))
      else readItems readTmp loadItem ic (ch.loadBuf ic) [0, 0, 0, 0] r

def readFrom (ch : ChUnique) (r : List UInt8) : Option Decoded :=
  let ch := { ch with hasZeroItem := false }
  match readByte r with
  | .error e => some (ch, .error (.read e))
  | .ok (sd, r) =>
    let ch := { ch with skipDegree := sd.toNat }
    match readUvarint r with
    | .error e => some (ch, .error (.read e))
    | .ok (ic, r) =>
      if ic > uniquesHashMaxSize then some (ch, .error (.tooManyItems ic))
      else readItems readUint32LE loadItem ic (ch.loadBuf ic) () r

/-- Room for `ic` incoming items: `MergeRead` grows a buffer with fewer cells. -/
def growFor (ch : ChUnique) (ic : Nat) : Option ChUnique :=
  if ch.bufSize < ic then
    ch.resize (max (Nat.log2 ic + 2) uniquesHashSetInitialSizeDegree)
  else some ch

def mergeRead (ch : ChUnique) (r : List UInt8) : Option Decoded :=
  if ch.buf = [] then ch.umMarshall r
  else match readByte r with
  | .error e => some (ch, .error (.read e))
  | .ok (sd, r) =>
    (if sd.toNat > ch.skipDegree then ch.rehash else some ch).bind fun ch =>
    match readUvarint r with
    | .error e => some (ch, .error (.read e))
    | .ok (ic, r) =>
      if ic > uniquesHashMaxSize then some (ch, .error (.tooManyItems ic))
      else (ch.growFor ic).bind fun ch => readItems readTmp insertHash ic ch [0, 0, 0, 0] r

end ChUnique

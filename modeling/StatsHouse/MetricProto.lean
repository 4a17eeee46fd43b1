import StatsHouse.ByteCodec

/-!
# Metrics decoded from protobuf

A message is a run of fields in any order, read by one loop. The primitives of `protowire` are a
parameter, and a valid encoding of a value is one that the primitive reads as this value, whatever
follows. Doubles stand as their bits.

The decoder looks for a unique of its own field under the wire type of a double, so such a unique
is skipped as if the field were unknown. All other fields, packed or not, are read as written.
-/

namespace MetricProto

open ByteCodec List Nat

abbrev Bytes := List UInt8

/-- The primitives return what stands first and the unread rest, or a negative code. -/
structure Protowire where
  consumeTag : Bytes → Except Int ((ℕ × ℕ) × Bytes)
  consumeVarint : Bytes → Except Int (BitVec 64 × Bytes)
  consumeFixed64 : Bytes → Except Int (BitVec 64 × Bytes)
  consumeBytes : Bytes → Except Int (Bytes × Bytes)
  consumeFieldValue : ℕ → ℕ → Bytes → Except Int Bytes

inductive DecodeError where
  | parse (code : Int)
  /-- "packed double is not multiple of 8" -/
  | packedDouble
  /-- "ts field overflow, must have range [0..2^32)" -/
  | tsOverflow
deriving DecidableEq

structure Metric where
  name : Bytes := []
  tags : List (Bytes × Bytes) := []
  counter : Option (BitVec 64) := none
  ts : Option (BitVec 32) := none
  value : List (BitVec 64) := []
  unique : List (BitVec 64) := []
  histogram : List (BitVec 64 × BitVec 64) := []
deriving DecidableEq

variable {α σ τ : Type} (w : Protowire)

def protoReadString (buf : Bytes) : Except DecodeError (Bytes × Bytes) :=
  (w.consumeBytes buf).mapError .parse

def protoReadFloat64 (buf : Bytes) : Except DecodeError (BitVec 64 × Bytes) :=
  (w.consumeFixed64 buf).mapError .parse

def protoReadInt64 (buf : Bytes) : Except DecodeError (BitVec 64 × Bytes) :=
  (w.consumeVarint buf).mapError .parse

def protoReadTag (buf : Bytes) : Except DecodeError ((ℕ × ℕ) × Bytes) :=
  (w.consumeTag buf).mapError .parse

def protoSkipField (buf : Bytes) (f t : ℕ) : Except DecodeError Bytes :=
  (w.consumeFieldValue f t buf).mapError .parse

def doubles : ℕ → Bytes → List (BitVec 64)
  | 0, _ => []
  | n + 1, data => uint64 data :: doubles n (data.drop 8)

def protoReadPackedFixedFloat64 (result : List (BitVec 64)) (buf : Bytes) :
    Except DecodeError (List (BitVec 64) × Bytes) := do
  let (data, rest) ← protoReadString w buf
  if data.length % 8 ≠ 0 then .error .packedDouble
  else return (result ++ doubles (data.length / 8) data, rest)

/-- The varints up to the first that cannot be read, and whether there is none such. -/
def varints : ℕ → Bytes → List (BitVec 64) × Bool
  | _, [] => ([], true)
  | 0, _ :: _ => ([], false)
  | fuel + 1, b :: data =>
    match protoReadInt64 w (b :: data) with
    | .error _ => ([], false)
    | .ok (x, data) => ((varints fuel data).1.cons x, (varints fuel data).2)

/-- After a varint that cannot be read the packed bytes are read again, as fields. -/
def protoReadPackedVarInt64 (result : List (BitVec 64)) (buf : Bytes) :
    Except DecodeError (List (BitVec 64) × Bytes) := do
  let (data, rest) ← protoReadString w buf
  let (xs, ok) := varints w data.length data
  return (result ++ xs, if ok then rest else buf)

/-- The loop over the fields of a message. A tag has at least one byte, so the length of the
buffer is fuel enough. -/
def readFields (field : ℕ → ℕ → Bytes → σ → Except DecodeError (σ × Bytes)) :
    ℕ → Bytes → σ → Except DecodeError σ
  | _, [], m => .ok m
  | 0, _ :: _, _ => .error (.parse 0)
  | fuel + 1, b :: buf, m => do
    let ((f, t), buf) ← protoReadTag w (b :: buf)
    let (m, buf) ← field f t buf m
    readFields field fuel buf m

def pairField (read : Bytes → Except DecodeError (α × Bytes)) (type f t : ℕ) (buf : Bytes)
    (m : α × α) : Except DecodeError ((α × α) × Bytes) :=
  if f = 1 ∧ t = type then do
    let (x, buf) ← read buf
    return ((x, m.2), buf)
  else if f = 2 ∧ t = type then do
    let (x, buf) ← read buf
    return ((m.1, x), buf)
  else return (m, ← protoSkipField w buf f t)

def protobufUnmarshalFieldEntry (buf : Bytes) : Except DecodeError (Bytes × Bytes) :=
  readFields w (pairField w (protoReadString w) 2) buf.length buf ([], [])

def protobufUnmarshalCentroid (buf : Bytes) : Except DecodeError (BitVec 64 × BitVec 64) :=
  readFields w (pairField w (protoReadFloat64 w) 1) buf.length buf (0, 0)

def metricField (f t : ℕ) (buf : Bytes) (m : Metric) : Except DecodeError (Metric × Bytes) :=
  match f, t with
  | 1, 2 => do
    let (name, buf) ← protoReadString w buf
    return ({ m with name }, buf)
  | 2, 2 => do
    let (data, buf) ← protoReadString w buf
    return ({ m with tags := m.tags ++ [← protobufUnmarshalFieldEntry w data] }, buf)
  | 3, 1 => do
    let (x, buf) ← protoReadFloat64 w buf
    return ({ m with counter := some x }, buf)
  | 4, 0 => do
    let (ts, buf) ← protoReadInt64 w buf
    if ts.toInt < 0 ∨ 2 ^ 32 - 1 < ts.toInt then .error .tsOverflow
    else return ({ m with ts := some (ts.setWidth 32) }, buf)
  | 5, 2 => do
    let (value, buf) ← protoReadPackedFixedFloat64 w m.value buf
    return ({ m with value }, buf)
  | 5, 1 => do
    let (x, buf) ← protoReadFloat64 w buf
    return ({ m with value := m.value ++ [x] }, buf)
  | 6, 2 => do
    let (unique, buf) ← protoReadPackedVarInt64 w m.unique buf
    return ({ m with unique }, buf)
  | 6, 1 => do
    let (x, buf) ← protoReadInt64 w buf
    return ({ m with unique := m.unique ++ [x] }, buf)
  | 7, 2 => do
    let (data, buf) ← protoReadString w buf
    return ({ m with histogram := m.histogram ++ [← protobufUnmarshalCentroid w data] }, buf)
  | f, t => return (m, ← protoSkipField w buf f t)

def protobufUnmarshalStatshouseMetric (buf : Bytes) : Except DecodeError Metric :=
  readFields w (metricField w) buf.length buf {}

/-- The bytes are read as the value, whatever follows. -/
def Reads (consume : Bytes → Except Int (α × Bytes)) (x : α) (enc : Bytes) : Prop :=
  enc ≠ [] ∧ ∀ rest, consume (enc ++ rest) = .ok (x, rest)

/-- A run of fields, each of them its tag and a value of the tag's type. -/
inductive Fields (value : τ → ℕ → ℕ → Bytes → Prop) : List τ → Bytes → Prop
  | nil : Fields value [] []
  | cons {x fs f t tag enc rest} (htag : Reads w.consumeTag (f, t) tag)
      (hskip : ∀ rest, w.consumeFieldValue f t (enc ++ rest) = .ok rest)
      (hvalue : value x f t enc) (hfields : Fields value fs rest) :
      Fields value (x :: fs) (tag ++ (enc ++ rest))

inductive PairField (α : Type)
  | first (x : α)
  | second (x : α)
  | unknown

inductive IsPairField (reads : α → Bytes → Prop) (type : ℕ) : PairField α → ℕ → ℕ → Bytes → Prop
  | first {x enc} (h : reads x enc) : IsPairField reads type (.first x) 1 type enc
  | second {x enc} (h : reads x enc) : IsPairField reads type (.second x) 2 type enc
  | unknown {f t enc} (h : 2 < f) : IsPairField reads type .unknown f t enc

def PairField.set (m : α × α) : PairField α → α × α
  | first x => (x, m.2)
  | second x => (m.1, x)
  | unknown => m

/-- Repeated fields stand packed or one element per field. -/
inductive Field
  | name (s : Bytes)
  | tag (fields : List (PairField Bytes))
  | counter (x : BitVec 64)
  | ts (x : BitVec 32)
  | packedValues (xs : List (BitVec 64))
  | value (x : BitVec 64)
  | packedUniques (xs : List (BitVec 64))
  | unique (x : BitVec 64)
  | centroid (fields : List (PairField (BitVec 64)))
  | unknown

inductive IsField : Field → ℕ → ℕ → Bytes → Prop
  | name {s enc} (h : Reads w.consumeBytes s enc) : IsField (.name s) 1 2 enc
  | tag {fs body enc} (h : Reads w.consumeBytes body enc)
      (fields : Fields w (IsPairField (Reads w.consumeBytes) 2) fs body) : IsField (.tag fs) 2 2 enc
  | counter {x enc} (h : Reads w.consumeFixed64 x enc) : IsField (.counter x) 3 1 enc
  | ts {x enc} (h : Reads w.consumeVarint (x.setWidth 64) enc) : IsField (.ts x) 4 0 enc
  | packedValues {xs enc} (h : Reads w.consumeBytes (xs.flatMap putUint64) enc) :
      IsField (.packedValues xs) 5 2 enc
  | value {x enc} (h : Reads w.consumeFixed64 x enc) : IsField (.value x) 5 1 enc
  | packedUniques {xs encs enc} (uniques : Forall₂ (Reads w.consumeVarint) xs encs)
      (h : Reads w.consumeBytes encs.flatten enc) : IsField (.packedUniques xs) 6 2 enc
  | unique {x enc} (h : Reads w.consumeVarint x enc) : IsField (.unique x) 6 0 enc
  | centroid {fs body enc} (h : Reads w.consumeBytes body enc)
      (fields : Fields w (IsPairField (Reads w.consumeFixed64) 1) fs body) :
      IsField (.centroid fs) 7 2 enc
  | unknown {f t enc} (h : 7 < f) : IsField .unknown f t enc

/-- The last of several single fields counts, and repeated fields are strung together. -/
def Metric.add (m : Metric) : Field → Metric
  | .name s => { m with name := s }
  | .tag fs => { m with tags := m.tags ++ [fs.foldl PairField.set ([], [])] }
  | .counter x => { m with counter := some x }
  | .ts x => { m with ts := some x }
  | .packedValues xs => { m with value := m.value ++ xs }
  | .value x => { m with value := m.value ++ [x] }
  | .packedUniques xs => { m with unique := m.unique ++ xs }
  | .unique x => { m with unique := m.unique ++ [x] }
  | .centroid fs => { m with histogram := m.histogram ++ [fs.foldl PairField.set (0, 0)] }
  | .unknown => m

/-- The metric that a message with these fields stands for. -/
def metricOf (fs : List Field) : Metric := fs.foldl Metric.add {}

def Field.IsUnpackedUnique : Field → Bool
  | .unique _ => true
  | _ => false

variable {w} {value : τ → ℕ → ℕ → Bytes → Prop}

/-- The value of a field is read, and adds what the field stands for. -/
def ReadsFields (w : Protowire) (value : τ → ℕ → ℕ → Bytes → Prop)
    (field : ℕ → ℕ → Bytes → σ → Except DecodeError (σ × Bytes)) (add : σ → τ → σ) : Prop :=
  ∀ ⦃x f t enc⦄, value x f t enc → (∀ rest, w.consumeFieldValue f t (enc ++ rest) = .ok rest) →
    ∀ m rest, field f t (enc ++ rest) m = .ok (add m x, rest)

lemma ReadsFields.message {field : ℕ → ℕ → Bytes → σ → Except DecodeError (σ × Bytes)}
    {add : σ → τ → σ} (reads : ReadsFields w value field add) {fs : List τ} {buf : Bytes}
    (h : Fields w value fs buf) (m : σ) {fuel : ℕ} (enough : buf.length ≤ fuel) :
    readFields w field fuel buf m = .ok (fs.foldl add m) := by
  induction h generalizing m fuel with
  | nil => simp [readFields]
  | @cons x fs f t tag enc rest htag hskip hvalue hfields ih =>
    obtain ⟨b, tag, rfl⟩ := exists_cons_of_ne_nil htag.1
    obtain ⟨fuel, rfl⟩ : ∃ n, fuel = n + 1 := exists_eq_add_one.2 (by simp at enough; omega)
    have hr : rest.length ≤ fuel := by simp at enough; omega
    have hd : protoReadTag w (b :: tag ++ (enc ++ rest)) = .ok ((f, t), enc ++ rest) := by
      rw [protoReadTag, htag.2]
      rfl
    rw [cons_append] at hd ⊢
    rw [readFields, hd]
    simp only [bind, Except.bind]
    rw [reads hvalue hskip]
    exact ih (add m x) hr

lemma doubles_flatMap (xs : List (BitVec 64)) : doubles xs.length (xs.flatMap putUint64) = xs := by
  induction xs with
  | nil => rfl
  | cons x xs ih =>
    have hd : (putUint64 x ++ xs.flatMap putUint64).drop 8 = xs.flatMap putUint64 := rfl
    rw [flatMap_cons, length_cons, doubles, uint64_putUint64, hd, ih]

lemma length_flatMap_putUint64 (xs : List (BitVec 64)) :
    (xs.flatMap putUint64).length = 8 * xs.length := by
  induction xs with
  | nil => rfl
  | cons x xs ih =>
    rw [flatMap_cons, length_append, ih, length_cons]
    exact add_comm 8 _

lemma varints_flatten {xs : List (BitVec 64)} {encs : List Bytes}
    (h : Forall₂ (Reads w.consumeVarint) xs encs) {fuel : ℕ} (enough : encs.flatten.length ≤ fuel) :
    varints w fuel encs.flatten = (xs, true) := by
  induction h generalizing fuel with
  | nil => simp [varints]
  | @cons x enc xs encs he _ ih =>
    obtain ⟨b, enc, rfl⟩ := exists_cons_of_ne_nil he.1
    obtain ⟨fuel, rfl⟩ : ∃ n, fuel = n + 1 := exists_eq_add_one.2 (by simp at enough; omega)
    have hr : protoReadInt64 w (b :: enc ++ encs.flatten) = .ok (x, encs.flatten) := by
      rw [protoReadInt64, he.2]
      rfl
    have hl : encs.flatten.length ≤ fuel := by
      rw [flatten_cons, length_append, length_cons] at enough
      omega
    rw [flatten_cons, cons_append] at *
    simp [varints, hr, ih hl]

lemma readsFields_pair {reads : α → Bytes → Prop} {type : ℕ}
    {read : Bytes → Except DecodeError (α × Bytes)}
    (roundTrips : ∀ x enc, reads x enc → ∀ rest, read (enc ++ rest) = .ok (x, rest)) :
    ReadsFields w (IsPairField reads type) (pairField w read type) PairField.set := by
  intro x f t enc h hskip m rest
  cases h with
  | first h =>
    rw [pairField, if_pos ⟨rfl, rfl⟩, roundTrips _ _ h]
    rfl
  | second h =>
    rw [pairField, if_neg (by simp), if_pos ⟨rfl, rfl⟩, roundTrips _ _ h]
    rfl
  | unknown h =>
    rw [pairField, if_neg (by omega), if_neg (by omega), protoSkipField, hskip]
    rfl

lemma FieldEntry.read {fs : List (PairField Bytes)} {body : Bytes}
    (h : Fields w (IsPairField (Reads w.consumeBytes) 2) fs body) :
    protobufUnmarshalFieldEntry w body = .ok (fs.foldl PairField.set ([], [])) := by
  refine (readsFields_pair fun x enc he rest => ?_).message h _ le_rfl
  rw [protoReadString, he.2]
  rfl

lemma Centroid.read {fs : List (PairField (BitVec 64))} {body : Bytes}
    (h : Fields w (IsPairField (Reads w.consumeFixed64) 1) fs body) :
    protobufUnmarshalCentroid w body = .ok (fs.foldl PairField.set (0, 0)) := by
  refine (readsFields_pair fun x enc he rest => ?_).message h _ le_rfl
  rw [protoReadFloat64, he.2]
  rfl

/-- Every field is read as written, but for a unique of its own field. -/
lemma readsFields_metric : ReadsFields w (IsField w) (metricField w)
    fun m x => if !x.IsUnpackedUnique then m.add x else m := by
  intro x f t enc h hskip m rest
  cases h with
  | name h | counter h | value h =>
    simp only [metricField, protoReadString, protoReadFloat64, h.2]
    rfl
  | tag h fields =>
    simp only [metricField, protoReadString, h.2, Except.mapError, bind, Except.bind,
      FieldEntry.read fields]
    rfl
  | centroid h fields =>
    simp only [metricField, protoReadString, h.2, Except.mapError, bind, Except.bind,
      Centroid.read fields]
    rfl
  | @ts x _ h =>
    have hin : (x.setWidth 64).toInt = x.toNat := by
      rw [BitVec.toInt_eq_toNat_of_lt] <;> simp <;> omega
    have hba : (x.setWidth 64).setWidth 32 = x := by simp
    simp only [metricField, protoReadInt64, h.2, Except.mapError, bind, Except.bind]
    rw [if_neg (by omega), hba]
    rfl
  | packedValues h =>
    have hm n : ¬8 * n % 8 ≠ 0 := by simp
    simp only [metricField, protoReadPackedFixedFloat64, protoReadString, h.2, Except.mapError,
      bind, Except.bind]
    rw [length_flatMap_putUint64, if_neg (hm _), Nat.mul_div_cancel_left _ (by decide),
      doubles_flatMap]
    rfl
  | packedUniques uniques h =>
    simp only [metricField, protoReadPackedVarInt64, protoReadString, h.2, Except.mapError,
      bind, Except.bind, varints_flatten uniques le_rfl]
    rfl
  | unique =>
    simp only [metricField, protoSkipField, hskip]
    rfl
  | unknown h =>
    obtain ⟨k, rfl⟩ := Nat.exists_eq_add_of_lt h
    have hf : metricField w (7 + k + 1) t (enc ++ rest) m =
        return (m, ← protoSkipField w (enc ++ rest) (7 + k + 1) t) := by
      rw [metricField] <;> omega
    rw [hf, protoSkipField, hskip]
    rfl

lemma unmarshal_eq {fs : List Field} {buf : Bytes} (h : Fields w (IsField w) fs buf) :
    protobufUnmarshalStatshouseMetric w buf =
      .ok (metricOf (fs.filter fun x => !x.IsUnpackedUnique)) := by
  rw [metricOf, foldl_filter]
  exact readsFields_metric.message h _ le_rfl

lemma length_unique (m m' : Metric) (fs : List Field) {n : ℕ}
    (hn : m.unique.length = m'.unique.length + n) : (fs.foldl Metric.add m).unique.length =
      ((fs.filter fun x => !x.IsUnpackedUnique).foldl Metric.add m').unique.length + n +
        fs.countP Field.IsUnpackedUnique := by
  induction fs generalizing m m' n with
  | nil => exact hn
  | cons x fs ih =>
    cases x with
    | unique x =>
      have had : (m.add (.unique x)).unique.length = m'.unique.length + (n + 1) := by
        simp [Metric.add, hn, add_assoc]
      have hskip : (Field.unique x :: fs).filter (fun x => !x.IsUnpackedUnique) =
          fs.filter fun x => !x.IsUnpackedUnique := rfl
      rw [foldl_cons, ih _ _ had, hskip, countP_cons_of_pos rfl]
      omega
    | packedUniques xs =>
      apply ih _ _
      simp [Metric.add, hn, add_right_comm]
    | _ => exact ih _ _ hn

/-- A metric is decoded as encoded exactly when no unique has a field of its own. -/
theorem decoded_as_encoded_iff (w : Protowire) (fs : List Field) (buf : Bytes)
    (valid : Fields w (IsField w) fs buf) :
    protobufUnmarshalStatshouseMetric w buf = .ok (metricOf fs) ↔ ∀ x, .unique x ∉ fs := by
  rw [unmarshal_eq valid]
  constructor
  · intro h x hx
    have hl := length_unique {} {} fs (add_zero 0).symm
    have hp : 0 < fs.countP Field.IsUnpackedUnique := countP_pos_iff.2 ⟨_, hx, rfl⟩
    have hs := congrArg (·.unique.length) (Except.ok.inj h)
    simp only [metricOf] at hs
    omega
  · intro h
    rw [filter_eq_self.2]
    intro x hx
    cases x with
    | unique x => exact absurd hx (h x)
    | _ => rfl

/-- The wire format, without groups. -/
def plainWire : Protowire where
  consumeTag := varint fun n => (n / 8, n % 8)
  consumeVarint := varint (BitVec.ofNat 64)
  consumeFixed64 := fixed64
  consumeBytes := bytes
  consumeFieldValue _ t buf :=
    match t with
    | 0 => (varint id buf).map Prod.snd
    | 1 => (fixed64 buf).map Prod.snd
    | 2 => (bytes buf).map Prod.snd
    | _ => .error (-4)
where
  varint {α : Type} (f : ℕ → α) (buf : Bytes) : Except Int (α × Bytes) :=
    ((readUvarint buf).mapError fun _ => -1).map (Prod.map f id)
  fixed64 (buf : Bytes) : Except Int (BitVec 64 × Bytes) :=
    if buf.length < 8 then .error (-1) else .ok (uint64 buf, buf.drop 8)
  bytes (buf : Bytes) : Except Int (Bytes × Bytes) := do
    let (n, buf) ← varint id buf
    if buf.length < n then .error (-1) else .ok (buf.take n, buf.drop n)

theorem unpacked_unique_skipped :
    Fields plainWire (IsField plainWire) [.name [97], .unique 5, .packedUniques [7]]
      [10, 1, 97, 48, 5, 50, 1, 7] ∧
    protobufUnmarshalStatshouseMetric plainWire [10, 1, 97, 48, 5, 50, 1, 7] =
      .ok { name := [97], unique := [7] } ∧
    metricOf [.name [97], .unique 5, .packedUniques [7]] = { name := [97], unique := [5, 7] } := by
  refine ⟨?_, by decide +kernel⟩
  have huniques : Forall₂ (Reads plainWire.consumeVarint) [7] [[7]] :=
    .cons ⟨nofun, fun _ => rfl⟩ .nil
  change Fields _ _ _ ([10] ++ ([1, 97] ++ ([48] ++ ([5] ++ ([50] ++ ([1, 7] ++ []))))))
  refine .cons ?_ ?_ (.name ?_) (.cons ?_ ?_ (.unique ?_)
    (.cons ?_ ?_ (.packedUniques huniques ?_) .nil)) <;>
      first | exact ⟨nofun, fun _ => rfl⟩ | exact fun _ => rfl

/-- Two packed uniques between other fields, the last of them unknown. -/
theorem decoded_as_encoded_packed :
    protobufUnmarshalStatshouseMetric plainWire [10, 1, 97, 50, 2, 5, 7, 32, 9, 64, 1] =
      .ok (metricOf [.name [97], .packedUniques [5, 7], .ts 9, .unknown]) := by
  have huniques : Forall₂ (Reads plainWire.consumeVarint) [5, 7] [[5], [7]] :=
    .cons ⟨nofun, fun _ => rfl⟩ (.cons ⟨nofun, fun _ => rfl⟩ .nil)
  have hvalid : Fields plainWire (IsField plainWire)
      [.name [97], .packedUniques [5, 7], .ts 9, .unknown]
      ([10] ++ ([1, 97] ++ ([50] ++ ([2, 5, 7] ++ ([32] ++ ([9] ++ ([64] ++ ([1] ++ [])))))))) := by
    refine .cons ?_ ?_ (.name ?_) (.cons ?_ ?_ (.packedUniques huniques ?_)
      (.cons ?_ ?_ (.ts ?_) (.cons ⟨nofun, fun _ => rfl⟩ ?_ (.unknown (by decide)) .nil))) <;>
        first | exact ⟨nofun, fun _ => rfl⟩ | exact fun _ => rfl
  exact (decoded_as_encoded_iff plainWire _ _ hvalid).2 (by simp)

end MetricProto

import StatsHouse.ByteCodec

/-!
# Min and max hosts

`ArgMinMaxStringFloat32` is the host of the least or greatest value, a string or a mapped number,
beside that value. Values are floats, of which `none` is NaN.
-/

namespace HostStates

structure ArgMinMaxStringFloat32 (V : Type*) where
  asString : List UInt8
  asInt32 : BitVec 32
  val : V
deriving DecidableEq

def ArgMinMaxStringFloat32.Empty {V : Type*} (arg : ArgMinMaxStringFloat32 V) : Prop :=
  arg.asInt32 = 0 ∧ arg.asString = []

instance {V : Type*} (arg : ArgMinMaxStringFloat32 V) : Decidable arg.Empty :=
  inferInstanceAs (Decidable (_ ∧ _))

abbrev Host (α : Type*) := ArgMinMaxStringFloat32 (Option α)

variable {α : Type*} {l m : List (Host α)} {a b : Host α}

/-- The comparison of two floats by an order of the numbers: NaN is not related to anything. -/
def Rel (r : α → α → Prop) : Option α → Option α → Prop
  | some x, some y => r x y
  | _, _ => False

instance (r : α → α → Prop) [DecidableRel r] : DecidableRel (Rel r)
  | some _, some _ => inferInstanceAs (Decidable (r _ _))
  | some _, none => isFalse id
  | none, _ => isFalse id

section Merge

variable [LinearOrder α] (arg rhs : Host α)

def ArgMinStringFloat32.merge : Host α :=
  if arg.Empty then rhs else if Rel (· < ·) rhs.val arg.val then rhs else arg

def ArgMaxStringFloat32.merge : Host α :=
  if arg.Empty then rhs else if Rel (· < ·) arg.val rhs.val then rhs else arg

def ArgMinMaxStringFloat32.merge (x : ℤ) : Host α :=
  if arg.Empty then rhs
  else if x = 0 then if Rel (· < ·) rhs.val arg.val then rhs else arg
  else if Rel (· < ·) arg.val rhs.val then rhs else arg

end Merge

section

variable (r : α → α → Prop)

/-- What the entries `l` merge to: empty only if all are, and otherwise the best of the others. -/
def Best (l : List (Host α)) (arg : Host α) : Prop := (arg.Empty ↔ ∀ a ∈ l, a.Empty) ∧
    (¬arg.Empty → arg ∈ l ∧ ∀ a ∈ l, ¬a.Empty → ¬Rel r a.val arg.val)

/-- An empty entry is not better than a non-empty one it is merged to. -/
def Fair (arg rhs : Host α) : Prop := rhs.Empty → ¬arg.Empty → ¬Rel r rhs.val arg.val

def zero [Zero α] : Host α := ⟨[], 0, some 0⟩

/-- Every merge of the run from `arg` over the entries is fair. -/
def FairRun (merge : Host α → Host α → Host α) (arg : Host α) : List (Host α) → Prop
  | [] => True
  | rhs :: m => Fair r arg rhs ∧ FairRun merge (merge arg rhs) m

/-- One merge is right exactly when it is fair, and merging the entries of `l` in any order is
right if every merge that is made is fair. -/
def Merges [Zero α] (merge : Host α → Host α → Host α) : Prop :=
  (∀ arg rhs, Best r [arg, rhs] (merge arg rhs) ↔ Fair r arg rhs) ∧
    ∀ l m, List.Perm m l → FairRun r merge zero m → Best r l (List.foldl merge zero m)

variable [DecidableRel r]

def mergeBy (arg rhs : Host α) : Host α :=
  if arg.Empty then rhs else if Rel r rhs.val arg.val then rhs else arg

end

variable {r : α → α → Prop} [IsStrictOrder α r]

lemma rel_irrefl (x : Option α) : ¬Rel r x x := by
  cases x with
  | none => exact id
  | some x => exact irrefl_of r x

lemma rel_trans {x y z : Option α} (h : Rel r x y) (h' : Rel r y z) : Rel r x z := by
  cases x <;> cases y <;> cases z <;> first | exact h.elim | exact h'.elim | exact trans_of r h h'

variable [DecidableRel r]

lemma Best.append {arg rhs : Host α} (h : Best r l arg) (hf : Fair r arg rhs) :
    Best r (l ++ [rhs]) (mergeBy r arg rhs) := by
  obtain ⟨he, hb⟩ := h
  simp only [Best, List.mem_append, List.mem_singleton, or_imp, forall_and, forall_eq]
  rw [mergeBy]
  split_ifs with h1 h2
  · exact ⟨⟨fun h => ⟨he.1 h1, h⟩, fun h => h.2⟩, fun _ => .inr rfl,
      fun _ a ha hn => (hn (he.1 h1 a ha)).elim, fun _ _ => rel_irrefl _⟩
  · obtain ⟨-, hm⟩ := hb h1
    have hr : ¬rhs.Empty := fun h => hf h h1 h2
    exact ⟨⟨fun h => (hr h).elim, fun h => h.2⟩, fun _ => .inr rfl,
      fun _ a ha hn hlt => hm a ha hn (rel_trans hlt h2), fun _ _ => rel_irrefl _⟩
  · exact ⟨⟨fun h => (h1 h).elim, fun h => he.2 h.1⟩, fun _ => .inl (hb h1).1,
      fun _ => (hb h1).2, fun _ _ => h2⟩

lemma Best.foldl {arg : Host α} (h : Best r l arg) (m : List (Host α))
    (hf : FairRun r (mergeBy r) arg m) : Best r (l ++ m) (m.foldl (mergeBy r) arg) := by
  induction m generalizing l arg with
  | nil => simpa using h
  | cons b m ih =>
    have hs : l ++ b :: m = l ++ [b] ++ m := by simp
    rw [hs]
    exact ih (h.append hf.1) hf.2

lemma mergeBy_pair (arg rhs : Host α) : Best r [arg, rhs] (mergeBy r arg rhs) ↔ Fair r arg rhs := by
  constructor
  · intro h he hn hlt
    rw [mergeBy, if_neg hn, if_pos hlt] at h
    exact hn (h.1.1 he arg (.head _))
  · intro hf
    have h : Best r [arg] arg := ⟨by simp, fun _ => ⟨.head _, by simpa using fun _ => rel_irrefl _⟩⟩
    exact h.append hf

lemma mergeBy_merges [Zero α] : Merges r (mergeBy r) := by
  refine ⟨mergeBy_pair, fun l m hm hf => ?_⟩
  have h0 : (zero : Host α).Empty := ⟨rfl, rfl⟩
  have h : Best r [] zero := ⟨by simp [h0], fun hn => (hn h0).elim⟩
  have hb := h.foldl m hf
  simpa only [Best, List.nil_append, hm.mem_iff] using hb

/-- The four merges. -/
theorem merge_best [LinearOrder α] [Zero α] : Merges (α := α) (· < ·) ArgMinStringFloat32.merge ∧
      Merges (α := α) (· > ·) ArgMaxStringFloat32.merge ∧
      Merges (α := α) (· < ·) (ArgMinMaxStringFloat32.merge · · 0) ∧
      Merges (α := α) (· > ·) (ArgMinMaxStringFloat32.merge · · 1) := by
  have hm : ∀ x y : Option α, Rel (· > ·) x y ↔ Rel (· < ·) y x := by
    intro x y
    cases x <;> cases y <;> exact .rfl
  have he : mergeBy (· > ·) = ArgMaxStringFloat32.merge (α := α) := by
    funext arg rhs
    simp only [mergeBy, ArgMaxStringFloat32.merge, hm]
  have h := mergeBy_merges (α := α) (r := (· < ·))
  have h' := he ▸ mergeBy_merges (α := α)
  exact ⟨h, h', h, h'⟩

/-- An empty entry with value 0 takes the place of the host of value 5. -/
theorem empty_replaces_host :
    ArgMinStringFloat32.merge ⟨[], 7, some 5⟩ (⟨[], 0, some 0⟩ : Host ℤ) = ⟨[], 0, some 0⟩ := by
  decide

section Encoding

open ByteCodec

/-- A host beside the bits of its float. -/
abbrev HostState := ArgMinMaxStringFloat32 (BitVec 32)

inductive Error where
  | eof
  | terminator
deriving DecidableEq

/-- The error of a read, the target after it and the unread bytes. -/
abbrev Outcome := Option Error × HostState × List UInt8

variable (arg v : HostState) (len : BitVec 32)

/-- After an error the stream is at its end. -/
def readUint32LE : List UInt8 → Option (BitVec 32 × List UInt8)
  | b0 :: b1 :: b2 :: b3 :: r => some (uint32 [b0, b1, b2, b3], r)
  | _ => none

def readValue : List UInt8 → Outcome
  | [] => (some .eof, arg, [])
  | valueFlag :: r =>
    if valueFlag = 0 then (none, arg, r)
    else match readUint32LE r with
      | none => (some .eof, arg, [])
      | some (val, r) => (none, { arg with val }, r)

def readString (r : List UInt8) : Outcome :=
  match r.drop len.toNat with
  | [] => (some .eof, arg, [])
  | term :: r' =>
    if term ≠ 0 then (some .terminator, arg, r')
    else readValue { arg with asString := r.take len.toNat } r'

def readInt (r : List UInt8) : Outcome :=
  match readUint32LE r with
  | none => (some .eof, { arg with asInt32 := 0 }, [])
  -- what follows the integer up to the declared length is skipped
  | some (x, r) => readValue { arg with asInt32 := x } (r.drop (len.toNat - 5))

def readFrom (r : List UInt8) : Outcome :=
  match readUint32LE r with
  | none => (some .eof, arg, [])
  | some (len, r) =>
    if len = 0xffffffff ∨ len = 0 then readValue arg r
    else match r with
      | [] => (some .eof, arg, [])
      | strFlag :: r => if strFlag = 1 then readString arg (len - 2) r else readInt arg len r

def marshallAppend (buf : List UInt8) : List UInt8 := buf ++ (if v.asString ≠ [] then
      putUint32 (BitVec.ofNat 32 (v.asString.length + 2)) ++ 1 :: v.asString ++ [0]
    else putUint32 6 ++ 0 :: putUint32 v.asInt32 ++ [0]) ++ 1 :: putUint32 v.val

/-- The target holds the value; a string hides the integer beside it. -/
def Same (t v : HostState) : Prop :=
  t.asString = v.asString ∧ t.val = v.val ∧ (v.asString = [] → t.asInt32 = v.asInt32)

/-- The bytes of the string or integer, of a stream that starts with the length `len`. -/
def declared : ℕ := if len = 0xffffffff then 0 else len.toNat

/-- The declared length holds the marker and what must follow it. -/
def WellSized (strFlag : UInt8) : Prop :=
  declared len = 0 ∨ if strFlag = 1 then 2 ≤ len.toNat else 5 ≤ len.toNat

variable (r : List UInt8)

lemma readUint32LE_putUint32 (x : BitVec 32) : readUint32LE (putUint32 x ++ r) = some (x, r) :=
  congrArg (fun y => some (y, r)) (uint32_putUint32 x)

lemma readUint32LE_length : r.length ≤ 4 + ((readUint32LE r).map (·.2.length)).getD 0 := by
  rcases r with _ | ⟨_, _ | ⟨_, _ | ⟨_, _ | ⟨_, r⟩⟩⟩⟩ <;> simp [readUint32LE]; omega

lemma readValue_length : r.length ≤ 5 + (readValue arg r).2.2.length := by
  cases r with
  | nil => simp
  | cons b r =>
    have h := readUint32LE_length r
    rw [readValue]
    split_ifs
    · dsimp only [List.length_cons]
      omega
    · cases hr : readUint32LE r <;> simp [hr] at h ⊢ <;> omega

lemma readString_length : r.length ≤ len.toNat + 6 + (readString arg len r).2.2.length := by
  have hd := List.length_drop (i := len.toNat) (l := r)
  rw [readString]
  cases hr : r.drop len.toNat with
  | nil => simp [hr] at hd ⊢; omega
  | cons b r' =>
    have h := readValue_length { arg with asString := r.take len.toNat } r'
    simp only [hr, List.length_cons] at hd
    dsimp only
    split_ifs
    · dsimp only
      omega
    · omega

lemma readInt_length (hl : 5 ≤ len.toNat) :
    r.length ≤ len.toNat + 4 + (readInt arg len r).2.2.length := by
  have h := readUint32LE_length r
  rw [readInt]
  cases hr : readUint32LE r with
  | none => simp [hr] at h ⊢; omega
  | some p =>
    have hv := readValue_length { arg with asInt32 := p.1 } (p.2.drop (len.toNat - 5))
    simp only [hr, Option.map_some, Option.getD_some, List.length_drop] at h hv ⊢
    omega

variable {arg v len r}

lemma readFrom_putUint32 (b : UInt8) : readFrom arg (putUint32 len ++ b :: r) =
    if len = 0xffffffff ∨ len = 0 then readValue arg (b :: r)
    else if b = 1 then readString arg (len - 2) r else readInt arg len r := by
  rw [readFrom, readUint32LE_putUint32]

lemma wellSized_iff (b : UInt8) : WellSized len b ↔ ∀ r,
    (b :: r).length ≤ declared len + 5 + (readFrom arg (putUint32 len ++ b :: r)).2.2.length := by
  by_cases h0 : len = 0xffffffff ∨ len = 0
  · have hd : declared len = 0 := by rcases h0 with rfl | rfl <;> rfl
    refine iff_of_true (.inl hd) fun r => ?_
    rw [readFrom_putUint32, if_pos h0, hd, zero_add]
    exact readValue_length ..
  have hd : declared len = len.toNat := if_neg fun h => h0 (.inl h)
  have hp : len.toNat ≠ 0 := fun h => h0 (.inr (BitVec.eq_of_toNat_eq h))
  simp only [readFrom_putUint32, WellSized, hd, hp, false_or, List.length_cons]
  split_ifs with hb
  · constructor
    · intro hl r
      have hs : (len - 2).toNat = len.toNat - 2 := by bv_omega
      have h := readString_length arg (len - 2) r
      omega
    · intro h
      by_contra hl
      have hs : (len - 2).toNat = 2 ^ 32 - 1 := by bv_omega
      have h9 := h (List.replicate 9 0)
      rw [readString, hs, List.drop_eq_nil_of_le (by simp)] at h9
      simp at h9
      omega
  · constructor
    · intro hl r
      have h := readInt_length arg len r hl
      omega
    · intro h
      by_contra hl
      have h9 := h [0, 0, 0, 0, 1, 0, 0, 0, 0]
      have hz : len.toNat - 5 = 0 := by omega
      simp [readInt, readUint32LE, hz, readValue] at h9
      omega

lemma readValue_putUint32 : readValue arg (1 :: putUint32 v.val ++ r) =
    (none, { arg with val := v.val }, r) := by
  rw [List.cons_append, readValue, if_neg (by decide), readUint32LE_putUint32]

lemma readFrom_int (h : v.asString = []) : readFrom arg (marshallAppend v [] ++ r) =
    (none, ⟨arg.asString, v.asInt32, v.val⟩, r) := by
  have hm : marshallAppend v [] ++ r =
      putUint32 6 ++ 0 :: (putUint32 v.asInt32 ++ 0 :: (1 :: putUint32 v.val ++ r)) := by
    simp [marshallAppend, h]
  rw [hm, readFrom_putUint32, if_neg (by decide), if_neg (by decide), readInt,
    readUint32LE_putUint32]
  exact readValue_putUint32

lemma marshallAppend_string (h : v.asString ≠ []) : marshallAppend v [] ++ r =
    putUint32 (BitVec.ofNat 32 (v.asString.length + 2)) ++
      1 :: (v.asString ++ 0 :: (1 :: putUint32 v.val ++ r)) := by
  simp [marshallAppend, h]

/-- A value is read back exactly when its string is shorter than the longest one, or it is an
integer and the target holds no string; and a read stays within the declared length and the value
exactly when the length has room for what its marker announces. -/
theorem readFrom_marshallAppend_iff (arg v : HostState) : (v.asString.length ≤ 2 ^ 32 - 3 →
      ((∃ t, Same t v ∧ ∀ r, readFrom arg (marshallAppend v [] ++ r) = (none, t, r)) ↔
        v.asString.length ≠ 2 ^ 32 - 3 ∧ (v.asString = [] → arg.asString = []))) ∧
      ∀ len b, (∀ r, (b :: r).length ≤
        declared len + 5 + (readFrom arg (putUint32 len ++ b :: r)).2.2.length) ↔
          WellSized len b := by
  refine ⟨fun hl => ⟨?_, ?_⟩, fun len b => (wellSized_iff b).symm⟩
  · rintro ⟨t, ht, hr⟩
    refine ⟨fun h => ?_, fun h => ?_⟩
    · have hne : v.asString ≠ [] := List.ne_nil_of_length_pos (by omega)
      have hv := readValue_length arg (1 :: (v.asString ++ 0 :: (1 :: putUint32 v.val ++ [])))
      have hr := hr []
      rw [marshallAppend_string hne, h, readFrom_putUint32, if_pos (.inl (by decide))] at hr
      rw [hr] at hv
      simp [h] at hv
    · have hi := (hr []).symm.trans (readFrom_int h)
      rw [← h, ← ht.1, congrArg (fun o => o.2.1.asString) hi]
  · rintro ⟨hne, hs⟩
    by_cases h : v.asString = []
    · exact ⟨⟨arg.asString, v.asInt32, v.val⟩, ⟨(hs h).trans h.symm, rfl, fun _ => rfl⟩,
        fun r => readFrom_int h⟩
    · refine ⟨⟨v.asString, arg.asInt32, v.val⟩, ⟨rfl, rfl, fun h' => (h h').elim⟩, fun r => ?_⟩
      have hs : (BitVec.ofNat 32 (v.asString.length + 2) - 2).toNat = v.asString.length := by
        bv_omega
      rw [marshallAppend_string h, readFrom_putUint32, if_neg (by bv_omega), if_pos rfl, readString,
        hs, List.drop_left, List.take_left]
      exact readValue_putUint32

/-- A target that held a string keeps it beside an integer read later. -/
theorem old_string_stays : readFrom ⟨[65], 0, 0⟩ (marshallAppend ⟨[], 7, 0⟩ []) =
    (none, ⟨[65], 7, 0⟩, []) := by
  decide

end Encoding

end HostStates

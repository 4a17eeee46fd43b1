import StatsHouse.ChUniqueMergeRead

/-!
# The size limit along runs

Any number of sets, each a register, are filled, merged, and copied through their bytes.
Insertion and `Merge` keep at most 65536 items. A decoder that is given exactly 65536 items
chooses a buffer twice as large as insertion ever makes, and the next insertions into it
pass the limit.
-/

namespace ChUniqueRuns

open LinearProbing ChUniqueTable ChUniqueSet ChUniqueHash ChUniqueMerge ChUniqueCodec List Option
open ChUnique ChUniqueMergeRead Thinning Refinement ByteCodec
variable {ch : ChUnique}

abbrev Registers := Nat → ChUnique

inductive Op where
  | insert (i : Nat) (val : BitVec 64)
  | merge (i j : Nat)
  | mergeRead (i j : Nat)
  | umMarshall (i j : Nat)
  | readFrom (i j : Nat)
deriving DecidableEq

def put (regs : Registers) (i : Nat) (ch : ChUnique) : Registers :=
  fun n => if n = i then ch else regs n

/-- One operation. The decoders read what `MarshallAppend` writes for register `j`; an
error of a decoder leaves what it has read in register `i`. -/
def step (regs : Registers) : Op → Option Registers
  | .insert i val => ((regs i).insert val).map (put regs i)
  | .merge i j => ((regs i).merge (regs j)).map (put regs i)
  | .mergeRead i j =>
    ((regs i).mergeRead ((regs j).marshallAppend [])).map fun d => put regs i d.1
  | .umMarshall i j =>
    ((regs i).umMarshall ((regs j).marshallAppend [])).map fun d => put regs i d.1
  | .readFrom i j =>
    ((regs i).readFrom ((regs j).marshallAppend [])).map fun d => put regs i d.1

def run (regs : Registers) (ops : List Op) : Option Registers := ops.foldlM step regs

/-- No decoder sizes a new buffer for exactly 65536 items. -/
def Safe (regs : Registers) : Op → Prop
  | .insert _ _ => True
  | .merge _ _ => True
  | .mergeRead i j => (regs j).itemsCount = uniquesHashMaxSize →
      (regs i).buf ≠ [] ∧ uniquesHashMaxSize ≤ (regs i).bufSize
  | .umMarshall _ j => (regs j).itemsCount ≠ uniquesHashMaxSize
  | .readFrom _ j => (regs j).itemsCount ≠ uniquesHashMaxSize

lemma put_rest {regs : Registers} (rests : ∀ n, Rest (regs n)) (i : Nat) (rest : Rest ch) :
    ∀ n, Rest (put regs i ch n) := by
  intro n
  by_cases hn : n = i
  · simpa only [put, if_pos hn] using rest
  · simpa only [put, if_neg hn] using rests n

/-- Reading back fewer than 65536 items leaves a table at rest. -/
lemma load_rest {σ : Type} {read : σ → List UInt8 → Except ReadError (Hash × σ × List UInt8)}
    {s : σ} (faithful : Faithful read s) (ch : ChUnique) {B : ChUnique} (rest : Rest B)
    (few : B.itemsCount ≠ uniquesHashMaxSize) :
    ∃ ch', load read s ch (B.marshallAppend []) = some (ch', .ok []) ∧ Rest ch' := by
  obtain ⟨hc, hm⟩ := rest.items_length
  obtain ⟨ch', hlo, ht, -, hcn', -, hs⟩ := load_marshallAppend faithful ch rest
  have hr := hlo []
  rw [append_nil] at hr
  exact ⟨ch', hr, .inr (loaded_ready ht (hcn'.trans hc) hs (by omega))⟩

lemma mergeRead_rest {A B : ChUnique} (restA : Rest A) (restB : Rest B)
    (safe : B.itemsCount = uniquesHashMaxSize → A.buf ≠ [] ∧ uniquesHashMaxSize ≤ A.bufSize) :
    ∃ A', A.mergeRead (B.marshallAppend []) = some (A', .ok []) ∧ Rest A' := by
  rcases restA with rfl | ready
  · have few : B.itemsCount ≠ uniquesHashMaxSize := fun h => (safe h).1 rfl
    exact load_rest faithful_readTmp zeroValue restB few
  · have fits : ¬Oversized A B := by
      rintro ⟨hf, hs⟩
      omega
    obtain ⟨A', hr, hy, -⟩ := mergeRead_ready ready restB fits
    have hrn' := hr []
    rw [append_nil] at hrn'
    exact ⟨A', hrn', .inr hy⟩

lemma step_rest (regs : Registers) (op : Op) (rests : ∀ n, Rest (regs n))
    (safe : Safe regs op) : ∃ regs', step regs op = some regs' ∧ ∀ n, Rest (regs' n) := by
  cases op with
  | insert i val =>
    obtain ⟨ch, hin, hr, -⟩ := insertHash_rest_refines (regs i) (uintHash32 val) (rests i)
    refine ⟨put regs i ch, ?_, put_rest rests i hr⟩
    simp [step, ChUnique.insert, hin]
  | merge i j =>
    obtain ⟨ch, hm, hr, -⟩ := merge_spec (rests i) (rests j)
    exact ⟨put regs i ch, by simp [step, hm], put_rest rests i hr⟩
  | mergeRead i j =>
    obtain ⟨ch, hd, hr⟩ := mergeRead_rest (rests i) (rests j) safe
    exact ⟨put regs i ch, by simp [step, hd], put_rest rests i hr⟩
  | umMarshall i j =>
    obtain ⟨ch, hd, hr⟩ := load_rest faithful_readTmp (regs i) (rests j) safe
    exact ⟨put regs i ch, by simp [step, umMarshall_eq, hd], put_rest rests i hr⟩
  | readFrom i j =>
    obtain ⟨ch, hd, hr⟩ := load_rest faithful_readUint32LE (regs i) (rests j) safe
    exact ⟨put regs i ch, by simp [step, readFrom_eq, hd], put_rest rests i hr⟩

/-- The limit, and that both decoders accept the bytes whatever they are read into. -/
def WithinLimit (ch : ChUnique) : Prop := ch.itemsCount ≤ uniquesHashMaxSize ∧ ∀ prior : ChUnique,
    (∃ d, prior.umMarshall (ch.marshallAppend []) = some (d, .ok [])) ∧
    ∃ d, prior.readFrom (ch.marshallAppend []) = some (d, .ok [])

lemma Rest.withinLimit (rest : Rest ch) : WithinLimit ch := by
  obtain ⟨hc, hm⟩ := rest.items_length
  refine ⟨by omega, fun prior => ⟨?_, ?_⟩⟩
  · obtain ⟨d, hlo, -⟩ := load_marshallAppend faithful_readTmp prior rest
    exact ⟨d, by simpa only [umMarshall_eq, append_nil] using hlo []⟩
  · obtain ⟨d, hlo, -⟩ := load_marshallAppend faithful_readUint32LE prior rest
    exact ⟨d, by simpa only [readFrom_eq, append_nil] using hlo []⟩

/-- Along every safe run from empty sets, each set is within the limit after each
operation. -/
theorem run_withinLimit (start : Registers) (fresh : ∀ n, Fresh (start n)) (ops : List Op)
    (safe : SafeRun step Safe start ops) (front back : List Op) (split : ops = front ++ back) :
    ∃ regs, run start front = some regs ∧ ∀ n, WithinLimit (regs n) := by
  subst split
  obtain ⟨regs, hr, hs⟩ := safe.front.keeps step_rest (fun n => (fresh n).rest.1)
  exact ⟨regs, hr, fun n => Rest.withinLimit (hs n)⟩

/-- A value is inserted, copied through bytes and merged back. -/
theorem run_withinLimit_copy : ∃ regs, run (fun _ => ChUnique.zeroValue)
      [.insert 0 5, .umMarshall 1 0, .merge 0 1] = some regs ∧ ∀ n, WithinLimit (regs n) := by
  have inserted : (zeroValue.insert 5).map itemsCount = some 1 := by decide +kernel
  have safe : SafeRun step Safe (fun _ => zeroValue)
      [.insert 0 5, .umMarshall 1 0, .merge 0 1] := by
    refine ⟨trivial, fun regs h => ⟨?_, fun _ _ => ⟨trivial, fun _ _ => trivial⟩⟩⟩
    obtain ⟨ch, hc, rfl⟩ : ∃ ch, zeroValue.insert 5 = some ch ∧ put _ 0 ch = regs :=
      map_eq_some_iff.1 h
    rw [hc] at inserted
    change ch.itemsCount ≠ _
    rw [Option.some.inj inserted]
    decide
  exact run_withinLimit (fun _ => zeroValue) (fun _ => .inl rfl) _ safe _ [] (append_nil _).symm

lemma run_inserts (regs : Registers) (i : Nat) (vals : List (BitVec 64))
    (h : insertAll (regs i) vals = some ch) :
    run regs (vals.map (Op.insert i)) = some (put regs i ch) := by
  induction vals generalizing regs with
  | nil =>
    cases h
    refine congrArg some (funext fun n => ?_)
    by_cases hn : n = i
    · subst hn
      simp only [put, if_true]
    · simp only [put, if_neg hn]
  | cons val vals ih =>
    obtain ⟨ch1, hf, hr⟩ := bind_eq_some_iff.1 h
    have hp : put regs i ch1 i = ch1 := if_pos rfl
    have ha := ih (put regs i ch1) (by rw [hp]; exact hr)
    have hs : put (put regs i ch1) i ch = put regs i ch := by
      funext n
      by_cases hn : n = i
      · simp only [put, if_pos hn]
      · simp only [put, if_neg hn]
    rw [hs] at ha
    rw [map_cons, run, foldlM_cons]
    simp only [step, hf]
    exact ha

/-- Bytes whose count is above the limit are rejected. -/
lemma umMarshall_tooMany (hbuf : ch.buf ≠ []) {n : Nat} (counted : ch.itemsCount = n)
    (excess : uniquesHashMaxSize < n) (hn : n < 2 ^ 64) (prior : ChUnique) :
    ∃ d, prior.umMarshall (ch.marshallAppend []) = some (d, .error (.tooManyItems n)) := by
  have ht : ((n : Int) % 2 ^ 64).toNat = n := by omega
  have hr := readUvarint_putUvarint n hn (ch.items.flatMap putUint32)
  have hh : header (ch.marshallAppend []) = .error (.tooManyItems n) := by
    simp only [marshallAppend, if_neg hbuf, counted, ht, nil_append, cons_append, header,
      readByte, hr, if_pos excess]
  obtain ⟨sd, hlo⟩ := load_eq readTmp [0, 0, 0, 0] prior (ch.marshallAppend [])
  rw [hh] at hlo
  exact ⟨_, hlo⟩

/-- 65536 values with different hashes, a copy through bytes, and one value more. -/
theorem run_withinLimit_counterexample :
    ∃ ops regs, run (fun _ => ChUnique.zeroValue) ops = some regs ∧
      (regs 1).itemsCount = 65537 ∧ ¬ WithinLimit (regs 1) ∧ ∀ prior : ChUnique, ∃ d,
        prior.umMarshall ((regs 1).marshallAppend []) = some (d, .error (.tooManyItems 65537)) := by
  obtain ⟨vals, -, hd⟩ := exists_vals_card [] (n := 65536) (by decide) (by decide)
  obtain ⟨more, hq, hm⟩ := exists_vals_card vals (n := 65537) (by omega) (by decide)
  obtain ⟨x, hx, hn⟩ : ∃ x ∈ hashes more, x ∉ hashes vals := by
    by_contra ha
    have hle := Finset.card_le_card (fun y hy => by
      by_contra hy'
      exact ha ⟨y, hy, hy'⟩)
    omega
  obtain ⟨val, -, rfl⟩ := mem_map.1 (mem_toFinset.1 hx)
  obtain ⟨A, runA, restA, settledA⟩ := insertAll_settled (.inl rfl) vals
  obtain ⟨hg, he⟩ := settledA.of_card_le (show (hashes vals).card ≤ 65536 by omega)
  have hs : stored A = hashes vals := he
  have ht : A.itemsCount = 65536 := by
    rw [← restA.card_stored, hs, hd]
    rfl
  obtain ⟨hu, -⟩ := restA.items_length
  obtain ⟨C, hlo, tableC, hr, hcC, hk, hsC⟩ :=
    load_marshallAppend faithful_readTmp zeroValue restA
  have hit : A.items.length = 65536 := by omega
  have hsC' : C.sizeDegree = 18 := by
    rw [hsC, hit]
    decide
  have hsk' : C.skipDegree = 0 := by
    have : A.skipDegree = 0 := hg
    rw [hk, this]
  obtain ⟨D, hin, tableD, -, -, -, ho⟩ := insertHash_roomy (uintHash32 val) tableC hsC' (by omega)
  have hc : D.itemsCount = (65537 : Nat) := by
    rw [← tableD.card_stored, ho, hsk', thin_zero, Finset.union_comm,
      ← Finset.insert_eq, hr, hs, Finset.card_insert_of_notMem hn, hd]
  have hb := buf_ne_nil tableC.sized
  have hiC : C.insert val = some D := by
    rw [ChUnique.insert, ChUnique.ensureBuf, if_neg hb, hin]
  have hi : zeroValue.umMarshall (A.marshallAppend []) = some (C, .ok []) := by
    simpa only [umMarshall_eq, append_nil] using hlo []
  let copied : Registers := put (put (fun _ => zeroValue) 0 A) 1 C
  have hj : run (fun _ => zeroValue)
      (vals.map (Op.insert 0) ++ [.umMarshall 1 0, .insert 1 val]) = some (put copied 1 D) := by
    have hf := run_inserts (fun _ => zeroValue) 0 vals runA
    have hp : step (put (fun _ => zeroValue) 0 A) (.umMarshall 1 0) = some copied := by
      change (zeroValue.umMarshall (A.marshallAppend [])).map _ = _
      rw [hi]
      rfl
    have hl : step copied (.insert 1 val) = some (put copied 1 D) := by
      change (C.insert val).map _ = _
      rw [hiC]
      rfl
    rw [run] at hf ⊢
    rw [foldlM_append, hf]
    change (step _ (.umMarshall 1 0)).bind _ = _
    rw [hp]
    change (step copied (.insert 1 val)).bind _ = _
    rw [hl]
    rfl
  refine ⟨_, _, hj, hc, ?_, ?_⟩
  · rintro ⟨hle, -⟩
    have hv : uniquesHashMaxSize = 65536 := rfl
    change D.itemsCount ≤ _ at hle
    omega
  · exact umMarshall_tooMany (buf_ne_nil tableD.sized) hc (by decide) (by decide)

end ChUniqueRuns

import StatsHouse.MultiValue

/-!
# String tops

An item keeps the values of its most frequent string tags apart and collects the others in
its tail. When a new tag finds no room, passes over the map evict entries at random, with a
probability that doubles the weight an entry needs on every pass. At the end the entries are
sorted by count and those behind the capacity join the tail.

What is evicted is merged into the tail, so the totals over the tail and the map only change
by what is added.
-/

open Sampling List AList MultiValue

/-- A map entry, as a range loop yields it. -/
abbrev MultiItemPair := Sigma fun _ : TagUnion => MultiValue

structure MultiItem where
  top : AList fun _ : TagUnion => MultiValue := ∅
  tail : MultiValue := {}
  sampleFactorLog2 : Nat := 0

structure TagUnionBytes where
  s : List UInt8
  i : BitVec 32

namespace TagUnionBytes

def empty (t : TagUnionBytes) : Bool := t.i == 0 && t.s.length == 0

def normalize (t : TagUnionBytes) : TagUnionBytes := if t.i ≠ 0 then { t with s := [] } else t

def toTagUnion (t : TagUnionBytes) : TagUnion := ⟨t.s, t.i⟩

end TagUnionBytes

namespace MultiItem

def defaultStringTopCapacity : Int := 100

/-- `1 << k` for a signed integer of 64 bits. -/
def sampleFactor (k : Nat) : Int := ((1 : BitVec 64) <<< k).toInt

/-- The value that is returned by reference. -/
inductive Slot where
  | tail
  | top (tag : TagUnion)

def evict (st : MultiItem × Rng) (e : MultiItemPair) : Option (MultiItem × Rng) :=
  (st.1.tail.merge st.2 e.2).map fun r =>
    ({ st.1 with tail := r.1, top := st.1.top.erase e.1 }, r.2)

/-- The body of the loop of `resample`. `Intn` panics unless its argument is positive. -/
def resampleEntry (sf : Int) (st : MultiItem × Rng) (e : MultiItemPair) :
    Option (MultiItem × Rng) :=
  if e.2.value.counter ≥ sf then some st
  else if sf ≤ 0 then none
  else
    let (rv, rng) := st.2.intn sf.toNat
    if e.2.value.counter > rv then some (st.1, rng) else evict (st.1, rng) e

def order (rng : Rng) (s : MultiItem) : List MultiItemPair × Rng :=
  Rng.order s.top.entries.length rng s.top.entries

def resample (st : MultiItem × Rng) : Option (MultiItem × Rng) :=
  let s := { st.1 with sampleFactorLog2 := st.1.sampleFactorLog2 + 1 }
  let (entries, rng) := s.order st.2
  entries.foldlM (resampleEntry (sampleFactor s.sampleFactorLog2)) (s, rng)

/-- The loop around `resample`, cut off after a number of passes. -/
def makeRoom (capacity : Int) : Nat → MultiItem × Rng → Option (MultiItem × Rng)
  | 0, _ => none
  | passes + 1, st =>
    if st.1.top.entries.length ≥ capacity then (resample st).bind (makeRoom capacity passes)
    else some st

/-- What `mapStringTop` and `mapStringTopBytes` do with a tag that is not empty. -/
def mapTag (passes : Nat) (st : MultiItem × Rng) (capacity : Int) (tag : TagUnion) (count : ℚ) :
    Option (Slot × MultiItem × Rng) :=
  let create := fun rng =>
    let capacity := if capacity < 1 then defaultStringTopCapacity else capacity
    (makeRoom capacity passes (st.1, rng)).map fun r =>
      (Slot.top tag, { r.1 with top := r.1.top.insert tag {} }, r.2)
  match st.1.top.lookup tag with
  | some _ => some (.top tag, st)
  | none =>
    if st.1.sampleFactorLog2 ≠ 0 then
      let (r, rng) := st.2.float64
      if r * sampleFactor st.1.sampleFactorLog2 ≥ count then some (.tail, st.1, rng)
      else create rng
    else create st.2

def mapStringTop (passes : Nat) (st : MultiItem × Rng) (capacity : Int) (tag : TagUnion)
    (count : ℚ) : Option (Slot × MultiItem × Rng) :=
  if tag.empty then some (.tail, st) else mapTag passes st capacity tag.normalize count

def mapStringTopBytes (passes : Nat) (st : MultiItem × Rng) (capacity : Int)
    (tag : TagUnionBytes) (count : ℚ) : Option (Slot × MultiItem × Rng) :=
  if tag.empty then some (.tail, st)
  else mapTag passes st capacity tag.normalize.toTagUnion count

/-- The order of equal counts is the order of the map. -/
def sortByCount (entries : List MultiItemPair) : List MultiItemPair :=
  entries.insertionSort fun a b => a.2.value.counter ≥ b.2.value.counter

def whaleWeight (s : MultiItem) : ℚ :=
  s.tail.value.counter + total (fun v : MultiValue => v.value.counter) s.top

def finishStringTop (rng : Rng) (s : MultiItem) (capacity : Int) : Option (ℚ × MultiItem × Rng) :=
  if s.top.entries.length = 0 then some (s.tail.value.counter, s, rng)
  else
    let capacity := if capacity < 0 then 0 else capacity
    let (entries, rng) := s.order rng
    (((sortByCount entries).drop capacity.toNat).foldlM evict (s, rng)).map fun r =>
      (s.whaleWeight, r)

/-- Add to the value that was returned. -/
def addTo (st : MultiItem × Rng) (hostTag : TagUnion) (e : MultiValue.Event) :
    Slot → Option (MultiItem × Rng)
  | .tail => (st.1.tail.apply st.2 hostTag e).map fun r => ({ st.1 with tail := r.1 }, r.2)
  | .top tag =>
    (st.1.top.lookup tag).bind fun v =>
      (v.apply st.2 hostTag e).map fun r => ({ st.1 with top := st.1.top.insert tag r.1 }, r.2)

end MultiItem

namespace StringTop

open MultiItem
variable {capacity : Int} {es : List MultiItemPair} {s : MultiItem} {e : MultiItemPair} {rng' : Rng}
  {slot : Slot} {c : Call} {sf : Int} {s' : MultiItem} {v : MultiValue} {rng : Rng} {tag : TagUnion}

structure Valid (s : MultiItem) : Prop where
  tail : s.tail.Good
  top : ∀ tag v, s.top.lookup tag = some v → v.Good

/-- The totals over the tail and the map. -/
def totals (s : MultiItem) : Totals :=
  s.tail.value.totals + total (fun v : MultiValue => v.value.totals) s.top

lemma valid_empty : Valid {} := ⟨good_zero, fun _ _ h => by cases h⟩

lemma totals_empty : totals {} = 0 := add_zero 0

lemma Valid.insert (valid : Valid s) (tag : TagUnion) (good : v.Good) :
    Valid { s with top := s.top.insert tag v } := by
  refine ⟨valid.tail, fun k w hw => ?_⟩
  by_cases hk : k = tag
  · subst hk
    rw [lookup_insert] at hw
    cases hw
    exact good
  · rw [lookup_insert_ne hk] at hw
    exact valid.top k w hw

/-- The entries that a loop over the map has still to visit. -/
structure Pending (s : MultiItem) (es : List MultiItemPair) : Prop where
  nodup : es.NodupKeys
  present : ∀ e ∈ es, s.top.lookup e.1 = some e.2

lemma Pending.next (pending : Pending s (e :: es)) : Pending s es :=
  ⟨(nodupKeys_cons.1 pending.nodup).2, fun x hx => pending.present x (mem_cons_of_mem e hx)⟩

lemma Pending.erase (pending : Pending s (e :: es)) (top : s'.top = s.top.erase e.1) :
    Pending s' es := by
  obtain ⟨ho, hn⟩ := nodupKeys_cons.1 pending.nodup
  constructor
  · exact hn
  · intro x hx
    have hne : x.1 ≠ e.1 := fun h => ho (h ▸ mem_keys_of_mem hx)
    rw [top, lookup_erase_ne hne]
    exact pending.next.present x hx

lemma Pending.sublist {es' : List MultiItemPair} (pending : Pending s es) (h : es'.Sublist es) :
    Pending s es' :=
  ⟨List.NodupKeys.sublist h pending.nodup, fun x hx => pending.present x (h.subset hx)⟩

lemma pending_of_perm (h : es.Perm s.top.entries) : Pending s es :=
  ⟨(perm_nodupKeys h).2 s.top.nodupKeys, fun _ hx => mem_lookup_iff.2 (h.subset hx)⟩

lemma order_entries_perm (rng : Rng) (s : MultiItem) :
    (s.order rng).1.Perm s.top.entries := order_perm _ rng s.top.entries

lemma lookup_of_lookup_erase {m : AList fun _ : TagUnion => MultiValue} {k : TagUnion}
    (h : (m.erase k).lookup tag = some v) : m.lookup tag = some v := by
  by_cases heq : tag = k
  · subst heq
    rw [lookup_erase] at h
    cases h
  · rwa [lookup_erase_ne heq] at h

/-- What a pass over the map keeps. -/
structure Keeps (s s' : MultiItem) : Prop where
  valid : Valid s'
  totals_eq : totals s' = totals s
  length_le : s'.top.entries.length ≤ s.top.entries.length
  old : ∀ tag v, s'.top.lookup tag = some v → s.top.lookup tag = some v

lemma Keeps.refl (valid : Valid s) : Keeps s s := ⟨valid, rfl, le_refl _, fun _ _ h => h⟩

lemma Keeps.trans {s'' : MultiItem} (h : Keeps s s') (h' : Keeps s' s'') : Keeps s s'' :=
  ⟨h'.valid, h'.totals_eq.trans h.totals_eq, h'.length_le.trans h.length_le,
    fun tag v hv => h.old tag v (h'.old tag v hv)⟩

/-- An evicted entry leaves the map and is added to the tail. -/
lemma evict_spec (valid : Valid s) (rng : Rng) (h : s.top.lookup e.1 = some e.2) :
    ∃ s' rng', evict (s, rng) e = some (s', rng') ∧ Keeps s s' ∧ s'.top = s.top.erase e.1 := by
  obtain ⟨tail, rng', hm, hg, had⟩ := merge_adds rng valid.tail (valid.top e.1 e.2 h)
  refine ⟨{ s with tail := tail, top := s.top.erase e.1 }, rng', ?_, ?_, rfl⟩
  · simp [evict, hm]
  · constructor
    · exact ⟨hg, fun tag v hv => valid.top tag v (lookup_of_lookup_erase hv)⟩
    · change tail.value.totals + total _ (s.top.erase e.1) = totals s
      rw [had, totals, total_erase _ h, add_assoc]
    · exact Nat.le_of_succ_le (length_erase h).le
    · exact fun tag v hv => lookup_of_lookup_erase hv

lemma sampleFactor_eq {k : Nat} (h : k ≤ 62) : sampleFactor k = 2 ^ k := by
  have hp : 2 ^ k ≤ 2 ^ 62 := Nat.pow_le_pow_right (by decide) h
  have hn : ((1 : BitVec 64) <<< k).toNat = 2 ^ k := by
    rw [BitVec.toNat_shiftLeft, Nat.shiftLeft_eq]
    change 1 * 2 ^ k % 2 ^ 64 = 2 ^ k
    omega
  rw [sampleFactor, BitVec.toInt_eq_toNat_cond, hn, if_pos (by omega), Nat.cast_pow]
  rfl

lemma sampleFactor_nonpos {k : Nat} (h : 62 < k) : sampleFactor k ≤ 0 := by
  by_cases hk : k = 63
  · subst hk
    decide
  · have hz : (1 : BitVec 64) <<< k = 0 := BitVec.shiftLeft_eq_zero (by omega)
    rw [sampleFactor, hz]
    decide

/-- The entries that no pass evicts. -/
def heavy (s : MultiItem) : List MultiItemPair :=
  s.top.entries.filter fun e => (2 ^ 62 - 1 : ℚ) < e.2.value.counter

lemma heavy_erase {m : MultiItem} (top : m.top = s.top.erase e.1)
    (found : s.top.lookup e.1 = some e.2) (light : e.2.value.counter ≤ 2 ^ 62 - 1) :
    heavy m = heavy s := by
  obtain ⟨v, l₁, l₂, -, he, her⟩ :=
    exists_of_kerase (lookup_isSome.1 (by rw [found]; rfl) : e.1 ∈ s.top.keys)
  have hv : v = e.2 := by
    have ha : (⟨e.1, v⟩ : MultiItemPair) ∈ s.top.entries := by simp [he]
    exact Option.some.inj ((mem_lookup_iff.2 ha).symm.trans found)
  have hm : m.top.entries = l₁ ++ l₂ := by rw [top]; exact her
  rw [heavy, heavy, hm, he]
  simp [hv, not_lt.2 light]

/-- A generator whose draws are the largest below the last factor. -/
def steady : Rng := ⟨fun _ => 2 ^ 62 - 1⟩

lemma order_steady {α : Type} (n : Nat) (xs : List α) : (Rng.order n steady xs).2 = steady := by
  induction n generalizing xs with
  | zero => rfl
  | succ n ih =>
    rw [Rng.order]
    split
    · rfl
    · exact ih _

lemma merge_steady (v w : ItemValue) : (v.merge steady w).2 = steady := by
  have hc : (v.toItemCounter.merge steady w.toItemCounter).2 = steady := by
    rw [ItemCounter.merge, ItemCounter.addHost]
    split_ifs <;> rfl
  rw [ItemValue.merge]
  dsimp only
  split <;> exact hc

lemma evict_steady (h : evict (s, steady) e = some (s', rng')) : rng' = steady := by
  obtain ⟨⟨v, rng₁⟩, hm, heq⟩ := Option.map_eq_some_iff.1 h
  obtain ⟨hll, -, hp⟩ := Option.map_eq_some_iff.1 hm
  cases heq
  exact (Prod.mk.inj hp).2.symm.trans (merge_steady _ _)

/-- One entry: it stays, or its count is below the factor and it goes. -/
lemma resampleEntry_spec (valid : Valid s) (pending : Pending s (e :: es)) (sf : Int) (rng : Rng) :
    ∃ s' rng', resampleEntry sf (s, rng) e = some (s', rng') ∧ Keeps s s' ∧ Pending s' es ∧
      s'.sampleFactorLog2 = s.sampleFactorLog2 ∧
      (s'.top = s.top ∨ s'.top = s.top.erase e.1 ∧ 0 < sf ∧ e.2.value.counter ≤ sf - 1) ∧
      (rng = steady → rng' = steady ∧
        (sf = 2 ^ 62 → e.2.value.counter ≤ 2 ^ 62 - 1 → s'.top.lookup e.1 = none)) := by
  have ha := pending.present e (.head _)
  have hc := (valid.top e.1 e.2 ha).sane.1
  rw [resampleEntry]
  split_ifs with hh hs
  · refine ⟨s, rng, rfl, .refl valid, pending.next, rfl, .inl rfl,
      fun hr => ⟨hr, fun hs hl => ?_⟩⟩
    rw [hs] at hh
    norm_num at hh hl
    linarith
  · exact absurd (hc.trans' (by exact_mod_cast hs)) hh
  · have hs := not_le.1 hs
    have hv : ((rng.intn sf.toNat).1 : ℚ) ≤ sf - 1 := by
      have hd : rng.draw 0 % sf.toNat < sf.toNat := Nat.mod_lt _ (by omega)
      have hle : ((rng.draw 0 % sf.toNat : Nat) : Int) ≤ sf - 1 := by omega
      exact_mod_cast (Int.cast_le).2 hle
    dsimp only
    by_cases hk : e.2.value.counter > (rng.intn sf.toNat).1
    · rw [if_pos hk]
      refine ⟨s, _, rfl, .refl valid, pending.next, rfl, .inl rfl, ?_⟩
      rintro rfl
      refine ⟨rfl, fun hs hl => absurd hl (not_le.2 ?_)⟩
      have hb : (steady.intn (2 ^ 62 : Int).toNat).1 = 2 ^ 62 - 1 := by decide +kernel
      rw [hs, hb] at hk
      exact_mod_cast hk
    · rw [if_neg hk]
      obtain ⟨s', rng', he, hp, ht⟩ := evict_spec valid rng.rest ha
      refine ⟨s', rng', he, hp, pending.erase ht, ?_,
        .inr ⟨ht, hs, (not_lt.1 hk).trans hv⟩, ?_⟩
      · obtain ⟨_, -, heq⟩ := Option.map_eq_some_iff.1 he
        exact congrArg (fun st => st.1.sampleFactorLog2) heq.symm
      · rintro rfl
        exact ⟨evict_steady he, fun _ _ => by rw [ht, lookup_erase]⟩

/-- A loop over entries never takes away a heavy one. -/
lemma resampleEntries_spec (valid : Valid s) (pending : Pending s es) (bounded : sf ≤ 2 ^ 62)
    (rng : Rng) : ∃ s' rng', es.foldlM (resampleEntry sf) (s, rng) = some (s', rng') ∧
      Keeps s s' ∧ s'.sampleFactorLog2 = s.sampleFactorLog2 ∧ heavy s' = heavy s ∧
      (sf ≤ 0 → s'.top = s.top) ∧
      (rng = steady → rng' = steady ∧
        (sf = 2 ^ 62 → ∀ e ∈ es, e.2.value.counter ≤ 2 ^ 62 - 1 → s'.top.lookup e.1 = none)) := by
  induction es generalizing s rng with
  | nil =>
    exact ⟨s, rng, rfl, .refl valid, rfl, rfl, fun _ => rfl,
      fun h => ⟨h, fun _ => forall_mem_nil _⟩⟩
  | cons e es ih =>
    have ha := pending.present e (.head _)
    obtain ⟨s₁, rng₁, hs, hk, hp, hlo, ht, hb⟩ := resampleEntry_spec valid pending sf rng
    obtain ⟨s₂, rng₂, hrun, hr, hlo₂, hh, hn, hst₂⟩ := ih hk.valid hp rng₁
    refine ⟨s₂, rng₂, ?_, hk.trans hr, hlo₂.trans hlo, hh.trans ?_, fun h => ?_, fun h => ?_⟩
    · rw [foldlM_cons, hs]
      exact hrun
    · rcases ht with ht | ⟨ht, -, hg⟩
      · rw [heavy, heavy, ht]
      · refine heavy_erase ht ha (hg.trans ?_)
        have hd : (sf : ℚ) ≤ 2 ^ 62 := by exact_mod_cast bounded
        linarith
    · rcases ht with ht | ⟨-, he, -⟩
      · rw [hn h, ht]
      · omega
    · obtain ⟨hc, ho⟩ := hb h
      obtain ⟨hrn₂, hgo₂⟩ := hst₂ hc
      refine ⟨hrn₂, fun hl x hx hg => ?_⟩
      rcases mem_cons.1 hx with rfl | hx
      · cases hf : s₂.top.lookup x.1 with
        | none => rfl
        | some v => exact absurd (hr.old x.1 v hf) (by simp [ho hl hg])
      · exact hgo₂ hl x hx hg

/-- One pass: it never panics, and what it keeps. -/
lemma resample_spec (valid : Valid s) (rng : Rng) :
    ∃ s' rng', resample (s, rng) = some (s', rng') ∧ Keeps s s' ∧
      s'.sampleFactorLog2 = s.sampleFactorLog2 + 1 ∧ heavy s' = heavy s ∧
      (62 < s'.sampleFactorLog2 → s'.top = s.top) ∧
      (rng = steady → rng' = steady ∧ (s'.sampleFactorLog2 = 62 → heavy s' = s'.top.entries)) := by
  let raised : MultiItem := { s with sampleFactorLog2 := s.sampleFactorLog2 + 1 }
  have hp := order_entries_perm rng raised
  have hs : sampleFactor raised.sampleFactorLog2 ≤ 2 ^ 62 := by
    rcases Nat.lt_or_ge 62 raised.sampleFactorLog2 with h | h
    · exact (sampleFactor_nonpos h).trans (by decide)
    · rw [sampleFactor_eq h]
      exact_mod_cast Nat.pow_le_pow_right (by decide) h
  obtain ⟨s', rng', hrun, hr, hlo, hh, ha, ht⟩ := resampleEntries_spec
    (s := raised) ⟨valid.tail, valid.top⟩ (pending_of_perm hp) hs (raised.order rng).2
  have hk : Keeps s s' := ⟨hr.valid, hr.totals_eq, hr.length_le, hr.old⟩
  refine ⟨s', rng', hrun, hk, hlo, hh, fun h => ?_, fun h => ?_⟩
  · exact ha (sampleFactor_nonpos (hlo ▸ h))
  · subst h
    obtain ⟨hn, hg⟩ := ht (order_steady _ _)
    refine ⟨hn, fun hl => filter_eq_self.2 fun x hx => decide_eq_true (not_le.1 ?_)⟩
    intro hb
    have hf := mem_lookup_iff.2 hx
    have hm := hp.symm.subset (mem_lookup_iff.1 (hk.old x.1 x.2 hf))
    have hw : sampleFactor raised.sampleFactorLog2 = 2 ^ 62 := by
      rw [← hlo, hl, sampleFactor_eq (le_rfl)]
    exact absurd hf (by simp [hg hw x hm hb])

lemma makeRoom_keeps (passes : Nat) (valid : Valid s)
    (hrun : makeRoom capacity passes (s, rng) = some (s', rng')) :
    Keeps s s' ∧ s'.top.entries.length < capacity := by
  induction passes generalizing s rng with
  | zero => cases hrun
  | succ passes ih =>
    rw [makeRoom] at hrun
    split at hrun
    · obtain ⟨s1, rng1, hp, hk, -⟩ := resample_spec valid rng
      have hr : makeRoom capacity passes (s1, rng1) = some (s', rng') := by
        simpa only [hp, Option.bind_some] using hrun
      obtain ⟨hkp', hm⟩ := ih hk.valid hr
      exact ⟨hk.trans hkp', hm⟩
    · cases hrun
      rename_i hm
      exact ⟨Keeps.refl valid, not_le.1 hm⟩

/-- The slot can be added to. -/
def Present (s : MultiItem) : Slot → Prop
  | .tail => True
  | .top tag => ∃ v, s.top.lookup tag = some v

/-- What finding the slot for a tag keeps. -/
structure Finds (capacity : Int) (s s' : MultiItem) (slot : Slot) : Prop where
  valid : Valid s'
  totals_eq : totals s' = totals s
  length_le : (s.top.entries.length : Int) ≤ capacity → (s'.top.entries.length : Int) ≤ capacity
  present : Present s' slot

lemma create_finds (keeps : Keeps s s') (room : s'.top.entries.length < capacity)
    (missing : s.top.lookup tag = none) :
    Finds capacity s { s' with top := s'.top.insert tag {} } (.top tag) := by
  have hnw' : s'.top.lookup tag = none := by
    cases h : s'.top.lookup tag with
    | none => rfl
    | some v => exact absurd (keeps.old tag v h) (by simp [missing])
  constructor
  · exact keeps.valid.insert tag good_zero
  · rw [← keeps.totals_eq]
    change s'.tail.value.totals + total _ (s'.top.insert tag {}) = totals s'
    rw [total_insert_new _ hnw']
    exact congrArg _ (zero_add _)
  · intro _
    have hl := length_insert_new hnw' ({} : MultiValue)
    change ((s'.top.insert tag {}).entries.length : Int) ≤ capacity
    omega
  · exact ⟨{}, lookup_insert s'.top⟩

lemma mapTag_finds (hcap : 1 ≤ capacity) (passes : Nat) (valid : Valid s) {count : ℚ}
    (taken : mapTag passes (s, rng) capacity tag count = some (slot, s', rng')) :
    Finds capacity s s' slot := by
  have hs : ∀ slot, Present s slot → Finds capacity s s slot :=
    fun slot ha => ⟨valid, rfl, id, ha⟩
  have hc : ∀ rng1, s.top.lookup tag = none →
      ((makeRoom (if capacity < 1 then defaultStringTopCapacity else capacity) passes
        (s, rng1)).map fun r => (Slot.top tag, { r.1 with top := r.1.top.insert tag {} }, r.2)) =
        some (slot, s', rng') → Finds capacity s s' slot := by
    intro rng1 hn h
    rw [if_neg (not_lt.2 hcap)] at h
    obtain ⟨⟨s1, rng2⟩, hr, heq⟩ := Option.map_eq_some_iff.1 h
    cases heq
    obtain ⟨hk, hlt⟩ := makeRoom_keeps passes valid hr
    exact create_finds hk hlt hn
  rw [mapTag] at taken
  cases hl : s.top.lookup tag with
  | some v =>
    simp only [hl] at taken
    cases taken
    exact hs _ ⟨v, hl⟩
  | none =>
    simp only [hl] at taken
    split at taken
    · split at taken
      · cases taken
        exact hs _ trivial
      · exact hc _ hl taken
    · exact hc _ hl taken

lemma addTo_adds (valid : Valid s) (rng : Rng) (hostTag : TagUnion) {e : MultiValue.Event}
    (proper : e.Proper) (present : Present s slot) :
    ∃ s' rng', addTo (s, rng) hostTag e slot = some (s', rng') ∧ Valid s' ∧
      totals s' = totals s + e.added ∧ s'.top.entries.length = s.top.entries.length := by
  cases slot with
  | tail =>
    obtain ⟨tail, rng', ha, hg, had⟩ := apply_adds rng valid.tail hostTag proper
    refine ⟨{ s with tail := tail }, rng', by simp [addTo, ha], ⟨hg, valid.top⟩, ?_, rfl⟩
    change tail.value.totals + total _ s.top = totals s + e.added
    rw [had, totals]
    exact add_right_comm _ _ _
  | top tag =>
    obtain ⟨v, hl⟩ := present
    obtain ⟨v', rng', ha, hg, had⟩ := apply_adds rng (valid.top tag v hl) hostTag proper
    refine ⟨{ s with top := s.top.insert tag v' }, rng', by simp [addTo, hl, ha],
      valid.insert tag hg, ?_, length_erase hl⟩
    change s.tail.value.totals + total _ (s.top.insert tag v') = totals s + e.added
    rw [total_insert, had, totals, total_erase _ hl]
    abel

/-- A call of `mapStringTop` or `mapStringTopBytes`, and what is added to the value it
returns. -/
structure Call where
  bytes : Bool
  tag : TagUnion
  count : ℚ
  passes : Nat
  hostTag : TagUnion
  event : MultiValue.Event

def find (capacity : Int) (st : MultiItem × Rng) (c : Call) : Option (Slot × MultiItem × Rng) :=
  if c.bytes then mapStringTopBytes c.passes st capacity ⟨c.tag.s, c.tag.i⟩ c.count
  else mapStringTop c.passes st capacity c.tag c.count

def step (capacity : Int) (st : MultiItem × Rng) (c : Call) : Option (MultiItem × Rng) :=
  (find capacity st c).bind fun r => addTo r.2 c.hostTag c.event r.1

def run (capacity : Int) (rng : Rng) (calls : List Call) : Option (MultiItem × Rng) :=
  calls.foldlM (step capacity) ({}, rng)

def added (calls : List Call) : Totals := (calls.map fun c => c.event.added).sum

lemma find_finds (hcap : 1 ≤ capacity) (valid : Valid s)
    (taken : find capacity (s, rng) c = some (slot, s', rng')) : Finds capacity s s' slot := by
  have ht : Finds capacity s s .tail := ⟨valid, rfl, id, trivial⟩
  rw [find] at taken
  split at taken
  · rw [mapStringTopBytes] at taken
    split at taken
    · cases taken
      exact ht
    · exact mapTag_finds hcap c.passes valid taken
  · rw [mapStringTop] at taken
    split at taken
    · cases taken
      exact ht
    · exact mapTag_finds hcap c.passes valid taken

lemma step_adds (hcap : 1 ≤ capacity) (valid : Valid s)
    (hlen : (s.top.entries.length : Int) ≤ capacity) (proper : c.event.Proper)
    (taken : step capacity (s, rng) c = some (s', rng')) :
    Valid s' ∧ totals s' = totals s + c.event.added ∧ (s'.top.entries.length : Int) ≤ capacity := by
  obtain ⟨⟨slot, s1, rng1⟩, hf, had⟩ := Option.bind_eq_some_iff.1 taken
  have hfin := find_finds hcap valid hf
  obtain ⟨s2, rng2, had', hv, ht, hs⟩ := addTo_adds hfin.valid rng1 c.hostTag proper hfin.present
  cases had.symm.trans had'
  refine ⟨hv, ?_, ?_⟩
  · rw [ht, hfin.totals_eq]
  · rw [hs]
    exact hfin.length_le hlen

lemma run_adds (hcap : 1 ≤ capacity) (calls : List Call) (proper : ∀ c ∈ calls, c.event.Proper)
    (valid : Valid s) (hlen : (s.top.entries.length : Int) ≤ capacity)
    (hrun : calls.foldlM (step capacity) (s, rng) = some (s', rng')) :
    Valid s' ∧ totals s' = totals s + added calls ∧ (s'.top.entries.length : Int) ≤ capacity := by
  induction calls generalizing s rng with
  | nil =>
    cases hrun
    exact ⟨valid, (add_zero _).symm, hlen⟩
  | cons c calls ih =>
    obtain ⟨⟨s1, rng1⟩, hs, hr⟩ := Option.bind_eq_some_iff.1 hrun
    obtain ⟨hv, ht, hln1⟩ := step_adds hcap valid hlen (proper c (.head _)) hs
    obtain ⟨hvl', ht', hln'⟩ := ih (fun x hx => proper x (mem_cons_of_mem c hx)) hv hln1 hr
    refine ⟨hvl', ?_, hln'⟩
    rw [ht', ht, add_assoc]
    rfl

/-- The loop that evicts the given entries. -/
lemma evictAll_spec (es : List MultiItemPair) (valid : Valid s) (rng : Rng)
    (pending : Pending s es) :
    ∃ s' rng', es.foldlM evict (s, rng) = some (s', rng') ∧ Keeps s s' ∧
      s'.top.entries.length + es.length = s.top.entries.length ∧
      ∀ tag, s'.top.lookup tag = if tag ∈ es.keys then none else s.top.lookup tag := by
  induction es generalizing s rng with
  | nil => exact ⟨s, rng, rfl, Keeps.refl valid, rfl, fun tag => rfl⟩
  | cons e es ih =>
    have hl := pending.present e (.head _)
    obtain ⟨s1, rng1, he, hf, ht⟩ := evict_spec valid rng hl
    obtain ⟨s2, rng2, hr, hk, hn, hgt⟩ := ih hf.valid rng1 (pending.erase ht)
    refine ⟨s2, rng2, ?_, hf.trans hk, ?_, ?_⟩
    · rw [foldlM_cons, he]
      exact hr
    · have her := length_erase hl
      rw [← ht] at her
      rw [length_cons]
      omega
    · intro tag
      rw [hgt tag, ht]
      by_cases hg : tag = e.1
      · subst hg
        simp
      · simp [lookup_erase_ne hg, hg]

/-- What `finishStringTop` does to the map. -/
structure Finishes (capacity : Int) (s s' : MultiItem) : Prop extends Keeps s s' where
  length_le_max : (s'.top.entries.length : Int) ≤ max 0 capacity
  largest : ∀ tag v, s.top.lookup tag = some v → s'.top.lookup tag = none →
    ∀ tag' v', s'.top.lookup tag' = some v' → v.value.counter ≤ v'.value.counter

lemma evictSorted_finishes (keeps : Keeps s s') (hp : es.Perm s.top.entries)
    (sorted : es.Pairwise fun a b => a.2.value.counter ≥ b.2.value.counter)
    (hlen : s'.top.entries.length + (es.drop capacity.toNat).length = s.top.entries.length)
    (hgt : ∀ tag, s'.top.lookup tag =
      if tag ∈ (es.drop capacity.toNat).keys then none else s.top.lookup tag) :
    Finishes capacity s s' := by
  have ha := pending_of_perm hp
  have hd := ha.sublist (drop_sublist capacity.toNat es)
  rw [← take_append_drop capacity.toNat es] at sorted
  refine ⟨keeps, ?_, ?_⟩
  · have := hp.length_eq
    rw [length_drop] at hlen
    omega
  · intro tag v hv hn tag' v' hv'
    have hb : (⟨tag, v⟩ : MultiItemPair) ∈ es.drop capacity.toNat := by
      rw [hgt tag] at hn
      split at hn
      · rename_i hk
        obtain ⟨w, hw⟩ := exists_of_mem_keys hk
        have hs := hv.symm.trans (hd.present _ hw)
        cases hs
        exact hw
      · rw [hv] at hn
        cases hn
    have hf : (⟨tag', v'⟩ : MultiItemPair) ∈ es.take capacity.toNat := by
      have hin := hp.symm.subset (mem_lookup_iff.1 (keeps.old tag' v' hv'))
      rw [← take_append_drop capacity.toNat es] at hin
      rcases mem_append.1 hin with h | h
      · exact h
      · rw [hgt tag', if_pos (mem_keys_of_mem h)] at hv'
        cases hv'
    exact (pairwise_append.1 sorted).2.2 _ hf _ hb

lemma whaleWeight_eq (s : MultiItem) : s.whaleWeight = (totals s).count := by
  rw [totals, add_count, total, sum_count, map_map]
  rfl

lemma finishStringTop_finishes (valid : Valid s) (rng : Rng) (capacity : Int) :
    ∃ s' rng', s.finishStringTop rng capacity = some ((totals s).count, s', rng') ∧
      Finishes capacity s s' := by
  by_cases hz : s.top.entries.length = 0
  · have hl := length_eq_zero_iff.1 hz
    refine ⟨s, rng, ?_, Keeps.refl valid, by omega, ?_⟩
    · rw [finishStringTop, if_pos hz, ← whaleWeight_eq, whaleWeight, total, hl]
      simp
    · intro tag v hv hn
      rw [hv] at hn
      cases hn
  · have hp := (perm_insertionSort _ _ : (sortByCount (s.order rng).1).Perm _).trans
      (order_entries_perm rng s)
    obtain ⟨s', rng', hrun, hk, ha, hgt⟩ :=
      evictAll_spec ((sortByCount (s.order rng).1).drop capacity.toNat) valid (s.order rng).2
        ((pending_of_perm hp).sublist (drop_sublist _ _))
    have hcap : (if capacity < 0 then 0 else capacity).toNat = capacity.toNat := by
      split <;> omega
    refine ⟨s', rng', ?_, evictSorted_finishes hk hp (pairwise_insertionSort _ _) ha hgt⟩
    rw [finishStringTop, if_neg hz]
    dsimp only
    rw [hcap, hrun, ← whaleWeight_eq]
    rfl

/-- Whatever the random outcomes are, the totals over the tail and the map are those of what
was added, the map is never larger than the capacity, and the last cut keeps the largest
entries. -/
theorem mapStringTop_conserves (capacity : Int) (hcap : 1 ≤ capacity) (calls : List Call)
    (proper : ∀ c ∈ calls, c.event.Proper) (rng rng' : Rng) (s : MultiItem)
    (hrun : run capacity rng calls = some (s, rng')) :
    totals s = added calls ∧ (s.top.entries.length : Int) ≤ capacity ∧
      ∀ (finishRng : Rng) (finishCapacity : Int), ∃ s' rng'',
        s.finishStringTop finishRng finishCapacity = some ((added calls).count, s', rng'') ∧
        totals s' = added calls ∧
        (s'.top.entries.length : Int) ≤ max 0 finishCapacity ∧
        (∀ tag v, s'.top.lookup tag = some v → s.top.lookup tag = some v) ∧
        ∀ tag v, s.top.lookup tag = some v → s'.top.lookup tag = none →
          ∀ tag' v', s'.top.lookup tag' = some v' → v.value.counter ≤ v'.value.counter := by
  obtain ⟨hv, ht, hl⟩ := run_adds hcap calls proper valid_empty (le_trans (by decide) hcap) hrun
  rw [totals_empty, zero_add] at ht
  refine ⟨ht, hl, fun finishRng finishCapacity => ?_⟩
  obtain ⟨s', rng'', hh, hf⟩ := finishStringTop_finishes hv finishRng finishCapacity
  rw [ht] at hh
  exact ⟨s', rng'', hh, hf.totals_eq.trans ht, hf.length_le_max, hf.old, hf.largest⟩

/-- Two tags for one place: the second call evicts the entry of the first. -/
def twoTags : List Call :=
  [⟨false, ⟨[], 1⟩, 1, 4, {}, .counter 1⟩, ⟨true, ⟨[65], 0⟩, 3, 4, {}, .value 5 3⟩]

theorem mapStringTop_conserves_twoTags :
    ∃ s rng', run 1 ⟨fun _ => 1⟩ twoTags = some (s, rng') ∧ s.tail.value.counter = 1 ∧
      totals s = added twoTags := by
  have proper : ∀ c ∈ twoTags, c.event.Proper := by
    intro c hc
    rcases mem_cons.1 hc with rfl | hc
    · exact zero_le_one
    · rcases mem_singleton.1 hc with rfl
      exact (by decide : (0 : ℚ) ≤ 3)
  have h := mapStringTop_conserves 1 (by decide) twoTags proper ⟨fun _ => 1⟩ _ _ rfl
  exact ⟨_, _, rfl, rfl, h.1⟩

end StringTop

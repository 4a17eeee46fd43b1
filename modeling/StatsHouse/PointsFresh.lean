import StatsHouse.PointsCache
import StatsHouse.TimescaleGrid

/-!
# Rows of the points cache are fresh

An hour is looked up only when it starts behind the start of the range, and so does a minute.
Notes are dropped when they start before the moment from which on anything can change, and no
range that is checked later starts before it. So a dropped note is never looked up again, and
the check by hours, minutes and seconds is the same as one by seconds alone.
-/

namespace PointsCache

open Timescale List AList Cache Noted
variable {approxMaxSize : Int}

/-- Nothing in the range was invalidated after the load. -/
def FreshIn (log : List (Int × Int)) (loadAt fromSec toSec : Int) : Prop :=
  ∀ x ∈ log, fromSec ≤ x.2 → x.2 ≤ toSec → x.1 + invalidateLinger < loadAt

/-- The notes of a level are those of the log, complete from some second on. -/
structure Notes (log : List (Int × Int)) (since utcOffset : Int) (l : Int × Noted) : Prop where
  pos : 0 < l.1
  sound (k atNano : Int) (h : l.2.lookup k = some atNano) :
    ∃ sec, (atNano, sec) ∈ log ∧ roundTime sec l.1 utcOffset = k
  complete (x : Int × Int) (hx : x ∈ log) (hsince : since ≤ roundTime x.2 l.1 utcOffset) :
    ∃ last, l.2.lookup (roundTime x.2 l.1 utcOffset) = some last ∧ x.1 ≤ last

variable {log : List (Int × Int)} {since utcOffset loadAt : Int} {l : Int × Noted}

lemma Notes.clear_iff (h : Notes log since utcOffset l) {k : Int} (hk : since ≤ k) :
    l.2.clear loadAt k = true ↔
      ∀ x ∈ log, roundTime x.2 l.1 utcOffset = k → x.1 + invalidateLinger < loadAt := by
  constructor
  · intro ha x hx hr
    obtain ⟨last, hl, hle⟩ := h.complete x hx (hr ▸ hk)
    rw [hr] at hl
    simp only [clear, hl, Bool.not_eq_true', decide_eq_false_iff_not] at ha
    omega
  · intro hb
    rw [clear]
    cases hc : l.2.lookup k with
    | none => rfl
    | some atNano =>
      obtain ⟨sec, hm, hr⟩ := h.sound k atNano hc
      have hf := hb (atNano, sec) hm hr
      simp only [Bool.not_eq_true', decide_eq_false_iff_not]
      omega

lemma scan_iff {ok : Int → Bool} {step stop : Int} (hpos : 0 < step) {fuel : Nat} {i : Int}
    (enough : (stop - i).toNat ≤ fuel) :
    scan ok step stop fuel i = true ↔
      ∀ j : Nat, i + j * step < stop → ok (i + j * step) = true := by
  induction fuel generalizing i with
  | zero =>
    refine iff_of_true rfl fun j hj => ?_
    have hg : 0 ≤ j * step := Int.mul_nonneg (Int.natCast_nonneg j) hpos.le
    omega
  | succ fuel ih =>
    rw [scan]
    split_ifs with hi
    · rw [Bool.and_eq_true, ih (by omega)]
      constructor
      · rintro ⟨hf, hr⟩ j hj
        cases j with
        | zero => simpa using hf
        | succ j =>
          have hn : i + ((j + 1 : Nat) : Int) * step = i + step + j * step := by
            push_cast
            ring
          rw [hn] at hj ⊢
          exact hr j hj
      · intro h
        refine ⟨by simpa using h 0 (by simpa using hi), fun j hj => ?_⟩
        have hn : i + ((j + 1 : Nat) : Int) * step = i + step + j * step := by
          push_cast
          ring
        rw [← hn] at hj ⊢
        exact h (j + 1) hj
    · refine iff_of_true rfl fun j hj => ?_
      have hg := Int.mul_nonneg (Int.natCast_nonneg j) hpos.le
      omega

lemma scanFrom_iff {ok : Int → Bool} {step i stop : Int} (hpos : 0 < step) :
    scanFrom ok step i stop = true ↔ ∀ j : Nat, i + j * step < stop → ok (i + j * step) = true :=
  scan_iff hpos (le_rfl)

/-- Whole steps between two ends are looked up by their starts. -/
lemma Notes.scan_iff (h : Notes log since utcOffset l) {fromSec toSec : Int}
    (hsince : since ≤ fromSec) :
    scanFrom (l.2.clear loadAt) l.1 (roundTime fromSec l.1 utcOffset + l.1)
        (roundTime toSec l.1 utcOffset) = true ↔
      ∀ x ∈ log, roundTime fromSec l.1 utcOffset + l.1 ≤ x.2 →
        x.2 < roundTime toSec l.1 utcOffset → x.1 + invalidateLinger < loadAt := by
  have hp := h.pos
  have hb := lt_roundTime_add hp fromSec utcOffset
  have hl (j : Nat) : since ≤ roundTime fromSec l.1 utcOffset + l.1 + j * l.1 := by
    have hn : 0 ≤ j * l.1 := Int.mul_nonneg (Int.natCast_nonneg j) hp.le
    omega
  rw [scanFrom_iff hp]
  constructor
  · intro ha x hx hw hhi
    have hq : (fromSec + utcOffset) / l.1 + 1 ≤ (x.2 + utcOffset) / l.1 := by
      rw [Int.le_ediv_iff_mul_le hp, Int.add_mul, Int.one_mul]
      rw [roundTime] at hw
      omega
    obtain ⟨j, hj⟩ := Int.eq_ofNat_of_zero_le (Int.sub_nonneg_of_le hq)
    have hr : roundTime x.2 l.1 utcOffset = roundTime fromSec l.1 utcOffset + l.1 + j * l.1 := by
      have hqt' : (x.2 + utcOffset) / l.1 = (fromSec + utcOffset) / l.1 + 1 + j := by omega
      rw [roundTime, roundTime, hqt']
      ring
    have hs : roundTime fromSec l.1 utcOffset + l.1 + j * l.1 < roundTime toSec l.1 utcOffset := by
      rw [← hr]
      exact (roundTime_le hp x.2 utcOffset).trans_lt hhi
    exact (h.clear_iff (hl j)).1 (ha j hs) x hx hr
  · intro ha j hj
    rw [h.clear_iff (hl j)]
    intro x hx hr
    have hw := roundTime_le hp x.2 utcOffset
    have hhi : x.2 < roundTime toSec l.1 utcOffset := by
      have hx' : (x.2 + utcOffset) / l.1 < (toSec + utcOffset) / l.1 := by
        rw [← hr, roundTime, roundTime] at hj
        exact lt_of_mul_lt_mul_right (by omega) hp.le
      rw [Int.ediv_lt_iff_lt_mul hp] at hx'
      rw [roundTime]
      omega
    have hn : 0 ≤ j * l.1 := Int.mul_nonneg (Int.natCast_nonneg j) hp.le
    exact ha x hx (by omega) hhi

lemma roundTime_one (t utcOffset : Int) : roundTime t 1 utcOffset = t := by
  rw [roundTime, Int.ediv_one]
  omega

lemma freshIn_split {fromSec toSec fromR toR step : Int} (early : fromSec < fromR + step)
    (late : toR ≤ toSec) :
    (FreshIn log loadAt fromSec (if toSec < fromR + step then toSec else fromR + step) ∧
        FreshIn log loadAt (if fromSec > toR then fromSec else toR) toSec ∧
        ∀ x ∈ log, fromR + step ≤ x.2 → x.2 < toR → x.1 + invalidateLinger < loadAt) ↔
      FreshIn log loadAt fromSec toSec := by
  constructor
  · rintro ⟨hf, hs, hm⟩ x hx hl hhi
    rcases Int.lt_or_le x.2 (fromR + step) with hx1 | hx1
    · apply hf x hx hl
      split_ifs <;> omega
    · rcases Int.lt_or_le x.2 toR with hx2 | hx2
      · exact hm x hx hx1 hx2
      · refine hs x hx ?_ hhi
        split_ifs <;> omega
  · intro h
    refine ⟨fun x hx hl hhi => h x hx hl ?_, fun x hx hl hhi => h x hx ?_ hhi,
      fun x hx hl hhi => h x hx (by omega) (by omega)⟩
    · split_ifs at hhi <;> omega
    · split_ifs at hl <;> omega

/-- Looking through the levels is the same as looking at every second. -/
lemma checkInvalidationMap_iff {levels : Levels}
    (hlevels : ∀ l ∈ levels, Notes log since utcOffset l)
    (lastLevel : levels.getLast?.map Prod.fst = some 1) {fromSec toSec : Int}
    (hsince : since ≤ fromSec) :
    checkInvalidationMap utcOffset loadAt levels fromSec toSec = true ↔
      FreshIn log loadAt fromSec toSec := by
  induction levels generalizing fromSec toSec with
  | nil => cases lastLevel
  | cons l levels ih =>
    have hl := hlevels l (.head _)
    cases levels with
    | nil =>
      obtain ⟨step, m⟩ := l
      obtain rfl : step = 1 := Option.some.inj lastLevel
      rw [checkInvalidationMap, scanFrom_iff hl.pos]
      constructor
      · intro ha x hx hw hhi
        obtain ⟨j, hj⟩ := Int.eq_ofNat_of_zero_le (Int.sub_nonneg_of_le hw)
        have hp : x.2 = fromSec + j * 1 := by omega
        have hb := ha j (by omega)
        rw [hl.clear_iff (by omega)] at hb
        exact hb x hx ((roundTime_one x.2 utcOffset).trans hp)
      · intro ha j hj
        rw [hl.clear_iff (by omega)]
        intro x hx hn
        rw [roundTime_one] at hn
        exact ha x hx (by omega) (by omega)
    | cons next levels =>
      obtain ⟨step, m⟩ := l
      have hr : ∀ l ∈ next :: levels, Notes log since utcOffset l :=
        fun l hm => hlevels l (.tail _ hm)
      have hls' : (next :: levels).getLast?.map Prod.fst = some 1 := by
        rwa [getLast?_cons_cons] at lastLevel
      have hf := lt_roundTime_add hl.pos fromSec utcOffset
      have ht := roundTime_le hl.pos toSec utcOffset
      have hc : since ≤ if fromSec > roundTime toSec step utcOffset then fromSec
          else roundTime toSec step utcOffset := by
        split_ifs <;> omega
      rw [checkInvalidationMap, ← freshIn_split hf ht]
      simp only [Bool.if_false_right, Bool.and_eq_true, ih hr hls' hsince,
        ih hr hls' hc, decide_eq_true_eq, and_assoc]
      rw [hl.scan_iff hsince]

lemma Noted.lookup_update (m : Noted) (atNano rounded k : Int) :
    (m.update atNano rounded).lookup k =
      if k = rounded then some ((m.lookup rounded).elim atNano (max atNano)) else m.lookup k := by
  rw [update]
  cases ha : m.lookup rounded with
  | none =>
    split_ifs with hk
    · rw [hk, lookup_insert]
      rfl
    · rw [lookup_insert_ne hk]
  | some last =>
    simp only [Option.elim_some]
    by_cases hl : last < atNano
    · rw [if_pos hl, max_eq_left hl.le]
      split_ifs with hk
      · rw [hk, lookup_insert]
      · rw [lookup_insert_ne hk]
    · rw [if_neg hl, max_eq_right (not_lt.1 hl)]
      split_ifs with hk
      · rw [hk, ha]
      · rfl

section

variable (h : Notes log since utcOffset l)
include h

lemma Notes.update (atNano sec : Int) : Notes (log ++ [(atNano, sec)]) since utcOffset
      (l.1, l.2.update atNano (roundTime sec l.1 utcOffset)) where
  pos := h.pos
  sound k a hl := by
    have hn : ∃ sec', (atNano, sec') ∈ log ++ [(atNano, sec)] ∧
        roundTime sec' l.1 utcOffset = roundTime sec l.1 utcOffset :=
      ⟨sec, mem_append_right _ (mem_singleton_self _), rfl⟩
    have hold {k a : Int} (hl : l.2.lookup k = some a) :
        ∃ sec', (a, sec') ∈ log ++ [(atNano, sec)] ∧ roundTime sec' l.1 utcOffset = k := by
      obtain ⟨sec', hm, hr⟩ := h.sound k a hl
      exact ⟨sec', mem_append_left _ hm, hr⟩
    rw [lookup_update] at hl
    split_ifs at hl with hk
    · rw [hk]
      cases hs : l.2.lookup (roundTime sec l.1 utcOffset) with
      | none =>
        rw [hs] at hl
        cases hl
        exact hn
      | some last =>
        rw [hs, Option.elim_some, Option.some.injEq] at hl
        rcases max_choice atNano last with ha | ha
        · rw [← hl, ha]
          exact hn
        · rw [← hl, ha]
          exact hold hs
    · exact hold hl
  complete x hx hsince := by
    simp only [lookup_update]
    rcases mem_append.1 hx with hx | hx
    · obtain ⟨last, hs, hle⟩ := h.complete x hx hsince
      split_ifs with hk
      · rw [← hk, hs]
        exact ⟨_, rfl, hle.trans (le_max_right _ _)⟩
      · exact ⟨last, hs, hle⟩
    · obtain rfl := mem_singleton.1 hx
      rw [if_pos rfl]
      refine ⟨_, rfl, ?_⟩
      cases l.2.lookup (roundTime sec l.1 utcOffset) with
      | none => exact le_refl atNano
      | some last => exact le_max_left atNano last

lemma Notes.mono {since' : Int} (hle : since ≤ since') : Notes log since' utcOffset l :=
  { h with complete := fun x hx hsince => h.complete x hx (hle.trans hsince) }

/-- What is dropped is older than what has to be complete. -/
lemma Notes.drop (visited : List Int) : Notes log since utcOffset
      (l.1, visited.foldl (fun m sec => if sec < since then m.erase sec else m) l.2) := by
  induction visited generalizing l with
  | nil => exact h
  | cons sec visited ih =>
    apply ih (l := (l.1, if sec < since then l.2.erase sec else l.2))
    split_ifs with hs
    · refine { h with sound := fun k a hl => ?_, complete := fun x hx hsince => ?_ }
      · by_cases hk : k = sec
        · subst hk
          rw [lookup_erase] at hl
          cases hl
        · rw [lookup_erase_ne hk] at hl
          exact h.sound k a hl
      · rw [lookup_erase_ne (by omega)]
        exact h.complete x hx hsince
    · exact h

end

variable {Key Row : Type} [DecidableEq Key] {c c' : Cache Key Row}

/-- The rows are what the database answered to this query for this range. -/
def Answered (c : Cache Key Row) (key : Key) (fromSec toSec : Int) (cr : CachedRows Row) : Prop :=
  ∃ load : Load Key, (load, cr.rows) ∈ c.loaded ∧ load.key = key ∧ load.fromSec = fromSec ∧
    load.toSec = toSec ∧ load.loadedAtNano = cr.loadedAtNano

structure Sound (utcOffset : Int) (c : Cache Key Row) : Prop where
  steps : c.invalidatedAtNano.map Prod.fst = steps
  notes (l : Int × Noted) (hl : l ∈ c.invalidatedAtNano) :
    Notes c.invalidations (immutableSec c.clock) utcOffset l
  rows (key : Key) (entry : CacheEntry Row) (hentry : c.cache.lookup key = some entry)
    (fromSec toSec : Int) (cr : CachedRows Row)
    (hcr : entry.rows.lookup (fromSec, toSec) = some cr) :
    Answered c key fromSec toSec cr

lemma immutableSec_mono {a b : Int} (h : a ≤ b) : immutableSec a ≤ immutableSec b :=
  Int.ediv_le_ediv (by decide) (by omega)

/-- Time goes on and nothing else that matters changes. -/
lemma Sound.later (h : Sound utcOffset c) (levels : c'.invalidatedAtNano = c.invalidatedAtNano)
    (hlo : c'.invalidations = c.invalidations) (later : c.clock ≤ c'.clock)
    (hrows : ∀ key entry, c'.cache.lookup key = some entry → ∀ fromSec toSec cr,
      entry.rows.lookup (fromSec, toSec) = some cr → Answered c' key fromSec toSec cr) :
    Sound utcOffset c' where
  steps := levels ▸ h.steps
  notes l hl := by
    rw [hlo]
    exact (h.notes l (levels ▸ hl)).mono (immutableSec_mono later)
  rows := hrows

lemma sound_newPointsCache (clock : Int) : Sound utcOffset ({ clock } : Cache Key Row) where
  steps := rfl
  notes l hl := by
    obtain ⟨step, hs, rfl⟩ := mem_map.1 hl
    have hp : ∀ step ∈ steps, 0 < step := by decide
    refine ⟨hp step hs, fun k a hk => ?_, fun x hx => ?_⟩
    · cases hk
    · cases hx
  rows key entry hentry := by cases hentry

lemma Sound.loadCached (h : Sound utcOffset c) (key : Key) (fromSec toSec : Int)
    {lruNow now : Int} (later : c.clock ≤ now) :
    Sound utcOffset (c.loadCached utcOffset key fromSec toSec lruNow now).1 := by
  rw [Cache.loadCached]
  cases hentry : c.cache.lookup key with
  | none => exact h
  | some entry =>
    simp only
    cases hc : entry.rows.lookup (fromSec, toSec) with
    | none => exact h
    | some cr =>
      refine h.later rfl rfl later fun key' entry' hentry' => ?_
      by_cases hk : key' = key
      · subst hk
        rw [lookup_insert, Option.some.injEq] at hentry'
        subst hentry'
        exact h.rows key' entry hentry
      · rw [lookup_insert_ne hk] at hentry'
        exact h.rows key' entry' hentry'

/-- Making room only drops entries. -/
structure Emptied (c c' : Cache Key Row) : Prop where
  lookup (key : Key) (entry : CacheEntry Row) (h : c'.cache.lookup key = some entry) :
    c.cache.lookup key = some entry
  levels : c'.invalidatedAtNano = c.invalidatedAtNano
  clock : c'.clock = c.clock
  loaded : c'.loaded = c.loaded
  log : c'.invalidations = c.invalidations

lemma Emptied.refl (c : Cache Key Row) : Emptied c c := ⟨fun _ _ h => h, rfl, rfl, rfl, rfl⟩

lemma evictLocked_emptied (c : Cache Key Row) (order : List Key → List Key) :
    Emptied c (c.evictLocked order) := by
  rw [evictLocked]
  split
  · exact .refl c
  · next key _ _ =>
    split
    · exact .refl c
    · refine ⟨fun key' entry h => ?_, rfl, rfl, rfl, rfl⟩
      by_cases hk : key' = key
      · rw [hk, lookup_erase] at h
        cases h
      · rwa [lookup_erase_ne hk] at h

variable {orders : List (List Key → List Key)}

lemma makeRoom_emptied :
    ∀ {c : Cache Key Row}, c.makeRoom approxMaxSize orders = some c' → Emptied c c' := by
  induction orders with
  | nil =>
    intro c h
    rw [makeRoom] at h
    split_ifs at h
    cases h
    exact .refl c'
  | cons order orders ih =>
    intro c h
    rw [makeRoom] at h
    split_ifs at h
    · have ho := evictLocked_emptied c order
      have hr := ih h
      exact ⟨fun key entry hentry => ho.lookup key entry (hr.lookup key entry hentry),
        hr.levels.trans ho.levels, hr.clock.trans ho.clock,
        hr.loaded.trans ho.loaded, hr.log.trans ho.log⟩
    · cases h
      exact .refl c'

lemma Sound.finishLoad (h : Sound utcOffset c) {i : Nat} {load : Load Key}
    {result : Option (List Row)} {now : Int}
    (later : c.clock ≤ now)
    (taken : c.finishLoad approxMaxSize i load result orders now = some c') :
    Sound utcOffset c' := by
  cases result with
  | none =>
    cases taken
    exact h.later rfl rfl le_rfl h.rows
  | some rows =>
    simp only [Cache.finishLoad] at taken
    have hl key entry (hentry : c.cache.lookup key = some entry)
        fromSec toSec cr
        (hc : entry.rows.lookup (fromSec, toSec) = some cr) :
        Answered { c with loaded := c.loaded ++ [(load, rows)] } key fromSec toSec cr := by
      obtain ⟨load', hm, hr⟩ := h.rows key entry hentry fromSec toSec cr hc
      exact ⟨load', mem_append_left _ hm, hr⟩
    split_ifs at taken
    · cases taken
      exact h.later rfl rfl le_rfl hl
    · obtain ⟨c₁, ha, rfl⟩ := Option.map_eq_some_iff.1 taken
      have he := makeRoom_emptied ha
      refine h.later he.levels he.log later ?_
      intro key entry hentry fromSec toSec cr hc
      have hk entry (hentry : c₁.cache.lookup key = some entry)
          (hc : entry.rows.lookup (fromSec, toSec) = some cr) :
          Answered (c₁.store load rows now) key fromSec toSec cr := by
        obtain ⟨load', hm, hr⟩ := hl key entry (he.lookup key entry hentry) fromSec toSec cr hc
        exact ⟨load', he.loaded ▸ hm, hr⟩
      rw [store] at hentry
      by_cases hy : key = load.key
      · subst hy
        rw [lookup_insert, Option.some.injEq] at hentry
        subst hentry
        by_cases ht : (fromSec, toSec) = (load.fromSec, load.toSec)
        · rw [ht, lookup_insert, Option.some.injEq] at hc
          obtain ⟨rfl, rfl⟩ := Prod.mk.inj ht
          subst hc
          refine ⟨load, ?_, rfl, rfl, rfl, rfl⟩
          exact he.loaded ▸ mem_append_right _ (mem_singleton_self _)
        · rw [lookup_insert_ne ht] at hc
          cases hold : c₁.cache.lookup load.key with
          | none =>
            rw [hold] at hc
            cases hc
          | some e =>
            rw [hold] at hc
            exact hk e hold hc
      · rw [lookup_insert_ne hy] at hentry
        exact hk entry hentry hc

lemma notes_foldl_updateTime (atNano : Int) (times : List Int) :
    ∀ {levels : Levels} {log : List (Int × Int)}, (∀ l ∈ levels, Notes log since utcOffset l) →
      ∀ l ∈ times.foldl (fun levels sec => updateTime utcOffset atNano sec levels) levels,
        Notes (log ++ times.map fun sec => (atNano, sec)) since utcOffset l := by
  induction times with
  | nil =>
    intro levels log h
    simpa using h
  | cons sec times ih =>
    intro levels log h
    rw [foldl_cons, map_cons, ← singleton_append, ← append_assoc]
    refine ih fun l hl => ?_
    obtain ⟨l₀, hl₀, rfl⟩ := mem_map.1 hl
    exact (h l₀ hl₀).update atNano sec

lemma steps_foldl_updateTime {atNano : Int} (times : List Int) (levels : Levels) :
    (times.foldl (fun levels sec => updateTime utcOffset atNano sec levels) levels).map Prod.fst =
      levels.map Prod.fst := by
  induction times generalizing levels with
  | nil => rfl
  | cons sec times ih =>
    rw [foldl_cons, ih, updateTime, map_map]
    rfl

lemma steps_dropOld (order : Nat → List Int → List Int) (fromSec : Int) (levels : Levels) :
    (dropOld order fromSec levels).map Prod.fst = levels.map Prod.fst := by
  refine ext_getElem? fun i => ?_
  rw [dropOld, getElem?_map, getElem?_mapIdx, getElem?_map]
  cases levels[i]? <;> rfl

lemma Sound.invalidate (h : Sound utcOffset c) (times : List Int) {atNano now : Int}
    (later : c.clock ≤ now) (order : Nat → List Int → List Int) :
    Sound utcOffset (c.invalidate utcOffset times atNano now order) where
  steps := by
    rw [Cache.invalidate, steps_dropOld, steps_foldl_updateTime, h.steps]
  notes l hl := by
    have hn := notes_foldl_updateTime atNano times h.notes
    obtain ⟨i, hi, rfl⟩ := mem_mapIdx.1 hl
    exact ((hn _ (getElem_mem hi)).mono (immutableSec_mono later)).drop _
  rows := h.rows

lemma sound_of_reachable (h : Reachable utcOffset approxMaxSize c) : Sound utcOffset c := by
  induction h with
  | newPointsCache clock => exact sound_newPointsCache clock
  | loadCached _ key fromSec toSec hl hnow ih =>
    exact ih.loadCached key fromSec toSec (hl.trans hnow)
  | startLoad _ key fromSec toSec avoidCache hnow ih => exact ih.later rfl rfl hnow ih.rows
  | finishLoad _ _ result orders hnow ho ih => exact ih.finishLoad hnow ho
  | invalidate _ times ha hnow order ih => exact ih.invalidate times (ha.trans hnow) order

lemma startSec_eq (now fromSec : Int) :
    (if fromSec * nanos < now + invalidateFrom then immutableSec now else fromSec) =
      max fromSec (immutableSec now) := by
  have hp : 0 < nanos := by decide
  split_ifs with hold
  · rw [immutableSec, max_eq_right]
    exact (Int.le_ediv_iff_mul_le hp).2 hold.le
  · rw [immutableSec, max_eq_left]
    exact Int.ediv_le_of_le_mul hp (not_lt.1 hold)

/-- The check gives the answer of a look at every second, and rows that are handed out were
loaded long enough after everything in their range that can still change was invalidated. -/
theorem cached_points_fresh {approxMaxSize : Int} (h : Reachable utcOffset approxMaxSize c)
    {now : Int} (hnow : c.clock ≤ now) :
    (∀ loadAt fromSec toSec,
      checkInvalidation utcOffset c.invalidatedAtNano now loadAt fromSec toSec = true ↔
        toSec * nanos < now + invalidateFrom ∨
          FreshIn c.invalidations loadAt (max fromSec (immutableSec now)) toSec) ∧
    ∀ key fromSec toSec lruNow rows,
      (c.loadCached utcOffset key fromSec toSec lruNow now).2 = some rows →
      ∃ load : Load Key, (load, rows) ∈ c.loaded ∧ load.key = key ∧ load.fromSec = fromSec ∧
        load.toSec = toSec ∧ ∀ x ∈ c.invalidations, fromSec ≤ x.2 →
          now + invalidateFrom ≤ x.2 * nanos → x.2 ≤ toSec →
            x.1 + invalidateLinger < load.loadedAtNano := by
  have hp : 0 < nanos := by decide
  have hs := sound_of_reachable h
  have hb : c.invalidatedAtNano.getLast?.map Prod.fst = some 1 := by
    rw [← getLast?_map, hs.steps]
    rfl
  have hn l hl :
      Notes c.invalidations (immutableSec now) utcOffset l :=
    (hs.notes l hl).mono (immutableSec_mono hnow)
  have hh loadAt fromSec toSec :
      checkInvalidation utcOffset c.invalidatedAtNano now loadAt fromSec toSec = true ↔
        toSec * nanos < now + invalidateFrom ∨
          FreshIn c.invalidations loadAt (max fromSec (immutableSec now)) toSec := by
    simp only [checkInvalidation, startSec_eq]
    split_ifs with hold
    · exact iff_of_true rfl (.inl hold)
    · rw [or_iff_right hold, checkInvalidationMap_iff hn hb (le_max_right _ _)]
  refine ⟨hh, fun key fromSec toSec lruNow rows ha => ?_⟩
  rw [Cache.loadCached] at ha
  cases hentry : c.cache.lookup key with
  | none =>
    rw [hentry] at ha
    cases ha
  | some entry =>
    simp only [hentry] at ha
    cases hc : entry.rows.lookup (fromSec, toSec) with
    | none =>
      rw [hc] at ha
      cases ha
    | some cr =>
      simp only [hc] at ha
      split_ifs at ha with hv
      cases ha
      obtain ⟨load, hm, hk, hf, ht, hd⟩ := hs.rows key entry hentry fromSec toSec cr hc
      refine ⟨load, hm, hk, hf, ht, fun x hx hw hr hhi => ?_⟩
      rw [hd]
      rcases (hh _ _ _).1 hv with hold | he
      · have hle := Int.mul_le_mul_of_nonneg_right hhi hp.le
        omega
      · have hg := Int.ediv_le_of_le_mul hp hr
        exact he x hx (max_le hw hg) hhi

/-- A second is invalidated, sixteen seconds later its range is loaded, and then it is handed
out from the cache. -/
theorem loaded_behind_linger : ∃ c : Cache Unit Unit, Reachable 0 10 c ∧
      (c.loadCached 0 () 0 10 (17 * nanos) (17 * nanos)).2 = some [()] ∧
      ∃ load : Load Unit, (load, [()]) ∈ c.loaded ∧ load.key = () ∧ load.fromSec = 0 ∧
        load.toSec = 10 ∧ ∀ x ∈ c.invalidations, 0 ≤ x.2 →
          17 * nanos + invalidateFrom ≤ x.2 * nanos → x.2 ≤ 10 →
            x.1 + invalidateLinger < load.loadedAtNano := by
  let c₁ := (Cache.invalidate ({ clock := 0 } : Cache Unit Unit) 0 [5] 0 0 fun _ l => l).startLoad
    () 0 10 false (16 * nanos)
  have h₁ : Reachable 0 10 c₁ :=
    ((Reachable.newPointsCache 0).invalidate [5] (le_refl 0) (le_refl 0) fun _ l => l).startLoad
      () 0 10 false (by decide)
  obtain ⟨c, ho⟩ : ∃ c, c₁.finishLoad 10 0 ⟨(), 0, 10, 16 * nanos, false⟩ (some [()]) []
      (17 * nanos) = some c := ⟨_, rfl⟩
  have h := h₁.finishLoad rfl (some [()]) [] (by decide) ho
  have ha : (c.loadCached 0 () 0 10 (17 * nanos) (17 * nanos)).2 = some [()] := by
    cases ho
    decide +kernel
  have hc : c.clock ≤ 17 * nanos := by
    cases ho
    decide +kernel
  exact ⟨c, h, ha, (cached_points_fresh h hc).2 () 0 10 (17 * nanos) [()] ha⟩

end PointsCache

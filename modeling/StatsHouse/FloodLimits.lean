import Mathlib.Tactic.Linarith
import StatsHouse.MetadataDB

/-!
# The flood limit of a metric

Every new mapping of a metric costs one unit of its budget, every step of the clock gives a
bonus. The potential of a stored budget is what it would be worth at the beginning of time;
a creation lowers it by one. A reset stores the time of the clock as it is, the other writer
stores it rounded down, so a creation in the step of a reset subtracts a later time from an
earlier one.
-/

namespace Metadata

open BitVec List DB DBV2 UniqueTable
variable {s : DBV2} {t : Int} {call : Int × Request} {calls : List (Int × Request)} {created : Nat}
  {after : Option FloodLimit} {lastCreatedID : BitVec 32} {count now : Int}
  {events : List BinlogEvent} {limit : Option FloodLimit} {response : Response}

/-- Budgets that 64-bit arithmetic can hold. -/
structure Options.Sane (opt : Options) : Prop where
  maxBudget_pos : 0 < opt.maxBudget
  maxBudget_lt : opt.maxBudget < 2 ^ 62
  budgetBonus_nonneg : 0 ≤ opt.budgetBonus
  budgetBonus_lt : opt.budgetBonus < 2 ^ 30

/-- The number of step boundaries up to a time. -/
def Options.stepIndex (opt : Options) (t : Int) : Int := t / opt.stepSec.toNat

lemma int64_eq {x : Int} (hlo : -2 ^ 63 ≤ x) (hhi : x < 2 ^ 63) : int64 x = x := by
  rw [int64, toInt_ofInt]
  exact Int.bmod_eq_of_le (by omega) (by omega)

/-- Whole steps between two times are not more than the boundaries between them. -/
lemma steps_le_boundaries (opt : Options) {last now : BitVec 32} (ordered : last ≤ now) :
    (((now - last) / opt.stepSec).toNat : Int) ≤
      opt.stepIndex now.toNat - opt.stepIndex last.toNat := by
  have hle := ordered
  have hp : ((now - last) / opt.stepSec).toNat + last.toNat / opt.stepSec.toNat ≤
      now.toNat / opt.stepSec.toNat := by
    rw [toNat_udiv, toNat_sub_of_le ordered]
    calc (now.toNat - last.toNat) / opt.stepSec.toNat + last.toNat / opt.stepSec.toNat
        ≤ (now.toNat - last.toNat + last.toNat) / opt.stepSec.toNat := Nat.div_add_div_le_add_div
      _ = now.toNat / opt.stepSec.toNat := by rw [Nat.sub_add_cancel hle]
  simp only [Options.stepIndex]
  omega

section Budget

variable {opt : Options} (hopt : opt.Sane)
include hopt

lemma calcBudget_spec {last now : BitVec 32} (nonneg : 0 ≤ count) (bounded : count ≤ opt.maxBudget)
    (ordered : last ≤ now) :
    let budget := calcBudget count 1 last now opt.maxBudget opt.budgetBonus opt.stepSec
    budget ≤ opt.maxBudget ∧ budget ≤ count - 1 +
        opt.budgetBonus * (opt.stepIndex now.toNat - opt.stepIndex last.toNat) := by
  intro budget
  have hp := steps_le_boundaries opt ordered
  have hn := ((now - last) / opt.stepSec).isLt
  have hb : budget = calcBudget count 1 last now opt.maxBudget opt.budgetBonus opt.stepSec := rfl
  simp only [calcBudget] at hb
  generalize ((now - last) / opt.stepSec).toNat = steps at hp hn hb
  have hs := mul_nonneg (Int.natCast_nonneg steps) hopt.budgetBonus_nonneg
  have hm : steps * opt.budgetBonus ≤ 2 ^ 32 * 2 ^ 30 :=
    mul_le_mul (by omega) hopt.budgetBonus_lt.le hopt.budgetBonus_nonneg (by omega)
  have hg := mul_le_mul_of_nonneg_left hp hopt.budgetBonus_nonneg
  have hlt := hopt.maxBudget_lt
  rw [if_neg (not_lt.2 bounded), int64_eq (by omega) (by omega),
    int64_eq (by omega) (by omega)] at hb
  split_ifs at hb with hf
  · exact ⟨by omega, by linarith⟩
  · exact ⟨by omega, by linarith⟩

end Budget

/-- The new mappings of a metric among the events. -/
def createdFor (metric : List UInt8) (events : List BinlogEvent) : Nat := events.countP fun
    | .createMappingEvent _ _ m _ _ _ => m = metric
    | _ => false

/-- The budget written when a mapping is created. -/
def Spends (opt : Options) (lastCreatedID : BitVec 32) (pred : BitVec 32) (count : Int) :
    Option FloodLimit → Prop
  | some limit => countToInsert opt lastCreatedID pred limit = some count
  | none => count = int64 (opt.maxBudget - 1)

lemma createMapping_eq_ok {db db' : DB} {metric key : List UInt8} {pred : BitVec 32} {budget : Int}
    {create : Bool}
    (h : db.createMapping metric key pred budget create = .ok (db', response, events)) :
    db'.floodLimits = db.floodLimits ∧
      ∃ id, events = [.createMappingEvent id key metric pred budget create] := by
  obtain ⟨rowid, -, h⟩ := bind_eq_ok.1 h
  obtain ⟨inserted, hin, h⟩ := bind_eq_ok.1 h
  obtain ⟨mappings, -, hm⟩ := bind_eq_ok.1 hin
  cases hm
  cases h
  exact ⟨rfl, _, rfl⟩

/-- Either nothing happens or one mapping is created and paid for. -/
lemma getOrCreateMapping_cases {db db' : DB} {opt : Options} {metric key : List UInt8}
    (h : db.getOrCreateMapping opt lastCreatedID now metric key = .ok (db', response, events)) :
    (db' = db ∧ events = []) ∨ ((∀ row ∈ db.mappings.rows, row.name ≠ key) ∧ ∃ id count create,
        events = [.createMappingEvent id key metric (roundTime now opt.stepSec) count create] ∧
        Spends opt lastCreatedID (roundTime now opt.stepSec) count (db.floodLimits.lookup metric) ∧
        ∀ m, db'.floodLimits.lookup m =
          if metric = m then some ⟨metric, (roundTime now opt.stepSec).toNat, count⟩
          else db.floodLimits.lookup m) := by
  simp only [getOrCreateMapping] at h
  split at h
  · cases h
    exact .inl ⟨rfl, rfl⟩
  · next hn =>
    have hnew : ∀ row ∈ db.mappings.rows, row.name ≠ key := by
      simpa using find?_eq_none.1 hn
    split at h
    · next limit hl =>
      split at h
      · cases h
        exact .inl ⟨rfl, rfl⟩
      · next count hc =>
        obtain ⟨floodLimits, hu, h⟩ := bind_eq_ok.1 h
        obtain ⟨hf, id, he⟩ := createMapping_eq_ok h
        refine .inr ⟨hnew, id, count, false, he, ?_, ?_⟩
        · rw [hl]
          exact hc
        · intro m
          rw [hf, lookup_update? (by intro r; rfl) (orConstraint_eq_ok.1 hu)]
          by_cases hm : metric = m
          · subst hm
            have ha : limit.metricName = metric := by simpa using find?_some hl
            rw [if_pos rfl, if_pos rfl, hl, Option.map_some, ha]
          · rw [if_neg hm, if_neg (Ne.symm hm)]
    · next hl =>
      obtain ⟨floodLimits, his, h⟩ := bind_eq_ok.1 h
      obtain ⟨hf, id, he⟩ := createMapping_eq_ok h
      refine .inr ⟨hnew, id, _, true, he, ?_, ?_⟩
      · rw [hl]
        rfl
      · intro m
        rw [hf, lookup_insert? (orConstraint_eq_ok.1 his)]

/-- What a request can do to the budget of a metric, and how many mappings it creates. -/
inductive FloodStep (opt : Options) (s : DBV2) (metric : List UInt8) :
    Int × Request → Option FloodLimit → Nat → Prop
  | idle {call : Int × Request} : FloodStep opt s metric call (s.db.floodLimits.lookup metric) 0
  | create {now : Int} {key : List UInt8} {count : Int}
      (hnew : ∀ row ∈ s.db.mappings.rows, row.name ≠ key)
      (hspends : Spends opt s.lastMappingIDToInsert (roundTime now opt.stepSec) count
        (s.db.floodLimits.lookup metric)) :
      FloodStep opt s metric (now, .getOrCreateMapping metric key)
        (some ⟨metric, (roundTime now opt.stepSec).toNat, count⟩) 1
  | reset {now limit : Int} : FloodStep opt s metric (now, .resetFlood metric limit)
        (if limit ≤ 0 then none else some ⟨metric, now, min limit maxResetLimit⟩) 0

lemma putMapping_floodLimits (db : DB) (ks : List (List UInt8)) (vs : List (BitVec 32)) :
    (db.putMapping ks vs).1.floodLimits = db.floodLimits :=
  (congrArg DB.floodLimits (putMapping_withFlood db ks vs db.floodLimits) :)

variable (opt : Options) (metric : List UInt8)

lemma FloodStep.of_idle (hafter : after = s.db.floodLimits.lookup metric)
    (none_created : created = 0) :
    FloodStep opt s metric call after created := by
  subst hafter none_created
  exact .idle

lemma resetFlood_floodStep (s : DBV2) (now : Int) (m : List UInt8) (limit : Int) :
    FloodStep opt s metric (now, .resetFlood m limit)
      ((s.db.resetFlood opt now m limit).1.floodLimits.lookup metric) 0 := by
  by_cases hm : m = metric
  · subst hm
    have ha : (s.db.resetFlood opt now m limit).1.floodLimits.lookup m =
        if limit ≤ 0 then none else some ⟨m, now, min limit maxResetLimit⟩ := by
      simp only [resetFlood]
      split_ifs
      · simp [lookup_delete]
      · simp [lookup_replace]
    rw [ha]
    exact .reset
  · apply FloodStep.of_idle opt metric _ rfl
    simp only [resetFlood]
    split_ifs
    · simp [lookup_delete, Ne.symm hm]
    · simp [lookup_replace, hm]

lemma step_flood (s : DBV2) (call : Int × Request) :
    FloodStep opt s metric call ((s.step opt call).1.db.floodLimits.lookup metric)
      (createdFor metric (s.step opt call).2) := by
  obtain ⟨now, request⟩ := call
  simp only [step]
  cases hs : s.serve opt now request with
  | error e => exact .idle
  | ok out =>
    cases request with
    | saveEntity r =>
      obtain ⟨⟨db, result, event⟩, hc, ho⟩ := bind_eq_ok.1 hs
      cases ho
      obtain ⟨⟨metrics, metricsSeq, entityHistory, hb⟩, he⟩ := saveEntity_eq_ok hc
      simp only at hb he
      apply FloodStep.of_idle opt metric (by rw [hb])
      rcases he with rfl | rfl <;> rfl
    | getOrCreateMapping m key =>
      obtain ⟨⟨db, response, events⟩, hgt, ho⟩ := bind_eq_ok.1 hs
      have ha : out.1.db = db ∧ out.2 = events := by
        cases response <;> cases ho <;> exact ⟨rfl, rfl⟩
      rw [ha.1, ha.2]
      rcases getOrCreateMapping_cases hgt with ⟨rfl, rfl⟩ |
        ⟨hnew, id, count, create, rfl, hspends, hl⟩
      · exact .idle
      · rw [hl]
        by_cases hm : m = metric
        · subst hm
          simpa [createdFor] using FloodStep.create hnew hspends
        · simpa [createdFor, hm] using FloodStep.idle
    | putMapping ks vs =>
      simp only [serve] at hs
      split_ifs at hs
      cases hs
      exact .of_idle opt metric (by rw [putMapping_floodLimits]) rfl
    | deleteMappings ids =>
      obtain ⟨⟨db, events⟩, hd, ho⟩ := bind_eq_ok.1 hs
      cases ho
      simp only [deleteMappingsByIdBatched] at hd
      split_ifs at hd
      all_goals cases hd; exact .idle
    | resetFlood m limit =>
      cases hs
      exact resetFlood_floodStep opt metric s now m limit

lemma roundTime_spec (hlo : 0 ≤ now) (hhi : now < 2 ^ 32) :
    ((roundTime now opt.stepSec).toNat : Int) ≤ now ∧
      opt.stepIndex (roundTime now opt.stepSec).toNat = opt.stepIndex now := by
  have hn := uint32_toNat hlo hhi
  have hm : uint32 now % opt.stepSec ≤ uint32 now := by
    exact Nat.mod_le _ _
  have hr : (roundTime now opt.stepSec).toNat =
      (uint32 now).toNat - (uint32 now).toNat % opt.stepSec.toNat := by
    rw [roundTime, toNat_sub_of_le hm, toNat_umod]
  constructor
  · omega
  · have hp := opt.stepSec_pos
    have hd : (roundTime now opt.stepSec).toNat / opt.stepSec.toNat =
        (uint32 now).toNat / opt.stepSec.toNat := by
      have hs : (uint32 now).toNat - (uint32 now).toNat % opt.stepSec.toNat =
          opt.stepSec.toNat * ((uint32 now).toNat / opt.stepSec.toNat) := by
        have := Nat.mod_add_div (uint32 now).toNat opt.stepSec.toNat
        omega
      rw [hr, hs, Nat.mul_div_cancel_left _ hp]
    calc opt.stepIndex (roundTime now opt.stepSec).toNat
        = opt.stepIndex (uint32 now).toNat := by
          simp only [Options.stepIndex]
          exact_mod_cast hd
      _ = opt.stepIndex now := by rw [hn]

/-- What a stored budget would be worth at the beginning of time. A metric without a row has
the full budget, counted from the time given. -/
def potential (opt : Options) (start : Int) : Option FloodLimit → Int
  | some limit => limit.countFree - opt.budgetBonus * opt.stepIndex limit.lastTimeUpdate
  | none => opt.maxBudget - opt.budgetBonus * opt.stepIndex start

/-- A budget in its bounds, written not later than the time given. -/
def Funded (opt : Options) (now : Int) : Option FloodLimit → Prop
  | some limit => (0 ≤ limit.countFree ∧ limit.countFree ≤ opt.maxBudget) ∧
      0 ≤ limit.lastTimeUpdate ∧ limit.lastTimeUpdate ≤ now
  | none => True

/-- The global budget is exhausted, and resets stay within the maximum. -/
def Exhausted (opt : Options) (metric : List UInt8) (s : DBV2) (call : Int × Request) : Prop :=
  match call.2 with
  | .getOrCreateMapping m _ => m = metric →
      ¬(0 < s.lastMappingIDToInsert.toInt ∧ s.lastMappingIDToInsert.toInt ≤ opt.globalBudget)
  | .resetFlood m limit => m = metric → 0 < limit ∧ limit ≤ opt.maxBudget
  | _ => True

/-- No new mapping is asked for with a rounded clock before the stored time. -/
def Timely (opt : Options) (metric : List UInt8) (s : DBV2) (call : Int × Request) : Prop :=
  match call.2 with
  | .getOrCreateMapping m key => m = metric → (∀ row ∈ s.db.mappings.rows, row.name ≠ key) →
      ∀ limit, s.db.floodLimits.lookup metric = some limit →
        uint32 limit.lastTimeUpdate ≤ roundTime call.1 opt.stepSec
  | _ => True

/-- The request starts the budget of the metric anew. -/
def Resets (metric : List UInt8) (request : Request) : Prop :=
  match request with
  | .resetFlood m _ => m = metric
  | _ => False

lemma Options.stepIndex_mono (opt : Options) {t' : Int} (h : t ≤ t') :
    opt.stepIndex t ≤ opt.stepIndex t' := by
  have hp : 0 < opt.stepSec.toNat := opt.stepSec_pos
  exact Int.ediv_le_ediv (by omega) h

/-- The clock does not go back and fits 32 bits. -/
def ClockFrom (t : Int) : List (Int × Request) → Prop
  | [] => True
  | call :: calls => t ≤ call.1 ∧ call.1 < 2 ^ 32 ∧ ClockFrom call.1 calls

def lastClock (t : Int) : List (Int × Request) → Int
  | [] => t
  | call :: calls => lastClock call.1 calls

lemma ClockFrom.le_lastClock (h : ClockFrom t calls) : t ≤ lastClock t calls := by
  induction calls generalizing t with
  | nil => exact le_rfl
  | cons call calls ih => exact h.1.trans (ih h.2.2)

lemma ClockFrom.append {more : List (Int × Request)} (h : ClockFrom t (calls ++ more)) :
    ClockFrom t calls ∧ ClockFrom (lastClock t calls) more := by
  induction calls generalizing t with
  | nil => exact ⟨trivial, h⟩
  | cons call calls ih =>
    obtain ⟨hc, hm⟩ := ih h.2.2
    exact ⟨⟨h.1, h.2.1, hc⟩, hm⟩

/-- A period begins: the budget is reset, or asked for the first time. -/
def Opens (metric : List UInt8) (s : DBV2) : Request → Prop
  | .resetFlood m _ => m = metric
  | .getOrCreateMapping m _ => m = metric ∧ s.db.floodLimits.lookup metric = none
  | _ => False

def budgetInForce (opt : Options) : Request → Int
  | .resetFlood _ limit => min limit maxResetLimit
  | _ => opt.maxBudget

section Run

variable {opt} (hopt : opt.Sane) {start : Int} {metric : List UInt8}
include hopt

section Step

variable (floodStep : FloodStep opt s metric call after created)
  (funded : Funded opt call.1 (s.db.floodLimits.lookup metric)) (hlo : 0 ≤ call.1)
  (hhi : call.1 < 2 ^ 32) (hexhausted : Exhausted opt metric s call)
  (htimely : Timely opt metric s call)
include floodStep funded hlo hhi hexhausted htimely

/-- Without a reset, creations are paid from the potential. -/
lemma floodStep_pays (started : start ≤ call.1) (notResets : ¬Resets metric call.2) :
    Funded opt call.1 after ∧
      potential opt start after + created ≤
        potential opt start (s.db.floodLimits.lookup metric) := by
  cases floodStep with
  | idle => exact ⟨funded, by simp⟩
  | reset => exact absurd rfl notResets
  | @create now key count hnew hspends =>
    obtain ⟨hr, hi⟩ := roundTime_spec opt hlo hhi
    have hs := hexhausted rfl
    have ha := htimely rfl hnew
    cases hk : s.db.floodLimits.lookup metric with
    | none =>
      rw [hk] at hspends
      have hm := hopt.maxBudget_lt
      have hb := hopt.maxBudget_pos
      have hc := hspends.trans (int64_eq (by omega) (by omega))
      have hg := mul_le_mul_of_nonneg_left (opt.stepIndex_mono started) hopt.budgetBonus_nonneg
      simp only [Funded, potential, hi, Nat.cast_one]
      exact ⟨⟨⟨by omega, by omega⟩, by omega, hr⟩, by linarith⟩
    | some limit =>
      rw [hk] at hspends funded
      obtain ⟨⟨hc, hm⟩, hl, hl'⟩ := funded
      obtain ⟨hle, hp⟩ := calcBudget_spec hopt hc hm (ha limit hk)
      simp only [Spends, countToInsert] at hspends
      split_ifs at hspends with hn
      cases hspends
      rw [uint32_toNat hl (by omega)] at hp
      simp only [Funded, potential, Nat.cast_one]
      exact ⟨⟨⟨not_lt.1 hn, hle⟩, by omega, hr⟩, by linarith⟩

lemma floodStep_funded : Funded opt call.1 after := by
  by_cases hr : Resets metric call.2
  · cases floodStep with
    | idle => exact funded
    | create => exact absurd hr id
    | @reset now limit =>
      obtain ⟨hp, hm⟩ := hexhausted rfl
      rw [if_neg (not_le.2 hp)]
      simp only [Funded, maxResetLimit]
      exact ⟨⟨by omega, by omega⟩, hlo, le_refl now⟩
  · exact (floodStep_pays hopt floodStep funded hlo hhi hexhausted htimely le_rfl hr).1

end Step

omit hopt in
lemma Funded.mono {now' : Int} (h : Funded opt now limit) (hle : now ≤ now') :
    Funded opt now' limit := by
  cases limit with
  | none => trivial
  | some limit => exact ⟨h.1, h.2.1, h.2.2.trans hle⟩

omit hopt in
lemma createdFor_run_cons (s : DBV2) (metric : List UInt8) (call : Int × Request)
    (calls : List (Int × Request)) : createdFor metric (s.run opt (call :: calls)).2 =
      createdFor metric (s.step opt call).2 +
        createdFor metric ((s.step opt call).1.run opt calls).2 :=
  countP_append

section Calls

variable (ht : 0 ≤ t) (funded : Funded opt t (s.db.floodLimits.lookup metric))
  (hclock : ClockFrom t calls) (hexhausted : DBV2.Along opt (Exhausted opt metric) s calls)
  (htimely : DBV2.Along opt (Timely opt metric) s calls)
include ht funded hclock hexhausted htimely

/-- The stored budget stays in its bounds. -/
lemma run_funded :
    Funded opt (lastClock t calls) ((s.run opt calls).1.db.floodLimits.lookup metric) := by
  induction calls generalizing s t with
  | nil => exact funded
  | cons call calls ih =>
    obtain ⟨hle, hhi, hclock⟩ := hclock
    have hlo := ht.trans hle
    have floodStep := floodStep_funded hopt (step_flood opt metric s call) (funded.mono hle) hlo hhi
      hexhausted.1 htimely.1
    exact ih hlo floodStep hclock hexhausted.2 htimely.2

/-- Between two resets all creations are paid from the potential. -/
lemma run_pays (started : start ≤ t) (noReset : ∀ call ∈ calls, ¬Resets metric call.2) :
    potential opt start ((s.run opt calls).1.db.floodLimits.lookup metric) +
        createdFor metric (s.run opt calls).2 ≤
      potential opt start (s.db.floodLimits.lookup metric) := by
  induction calls generalizing s t with
  | nil => exact (add_zero _).le
  | cons call calls ih =>
    obtain ⟨hle, hhi, hclock⟩ := hclock
    have hlo := ht.trans hle
    obtain ⟨hfd', hp⟩ := floodStep_pays hopt (step_flood opt metric s call)
      (funded.mono hle) hlo hhi hexhausted.1 htimely.1 (started.trans hle) (noReset call (.head _))
    have hr := ih hlo hfd' hclock hexhausted.2 htimely.2 (started.trans hle)
      fun call' hca' => noReset call' (mem_cons_of_mem call hca')
    simp only [run, createdFor, countP_append, Nat.cast_add] at hp hr ⊢
    linarith

/-- A period without resets, from a state whose budget is known. -/
lemma created_le (noReset : ∀ call ∈ calls, ¬Resets metric call.2) :
    createdFor metric (s.run opt calls).2 ≤
      potential opt t (s.db.floodLimits.lookup metric) +
        opt.budgetBonus * opt.stepIndex (lastClock t calls) := by
  have hp := run_pays hopt ht funded hclock hexhausted htimely le_rfl noReset
  have funded := run_funded hopt ht funded hclock hexhausted htimely
  cases hk : (s.run opt calls).1.db.floodLimits.lookup metric with
  | none =>
    have hg := mul_le_mul_of_nonneg_left (opt.stepIndex_mono hclock.le_lastClock)
      hopt.budgetBonus_nonneg
    have hs := hopt.maxBudget_pos
    simp only [hk, potential] at hp ⊢
    linarith
  | some limit =>
    rw [hk] at hp funded
    obtain ⟨⟨hc, -⟩, -, hl⟩ := funded
    have hg := mul_le_mul_of_nonneg_left (opt.stepIndex_mono hl) hopt.budgetBonus_nonneg
    simp only [potential] at hp ⊢
    linarith

end Calls

/-- Mappings of a metric are created at most as fast as its budget allows, and the budget stays
within its maximum, on every run in which no mapping is asked for with a rounded clock before
the time that a reset stored. -/
theorem flood_limit_holds {s : DBV2} {metric : List UInt8} {calls : List (Int × Request)}
    (hnew : s.db.floodLimits.lookup metric = none) (hclock : ClockFrom 0 calls)
    (hexhausted : DBV2.Along opt (Exhausted opt metric) s calls)
    (htimely : DBV2.Along opt (Timely opt metric) s calls) :
    (∀ before after, calls = before ++ after → ∀ limit,
      (s.run opt before).1.db.floodLimits.lookup metric = some limit →
        limit.countFree ≤ opt.maxBudget) ∧
    ∀ before start period after, calls = before ++ (start :: period) ++ after →
      Opens metric (s.run opt before).1 start.2 →
      (∀ call ∈ period, ¬Resets metric call.2) →
        createdFor metric ((s.run opt before).1.run opt (start :: period)).2 ≤
          budgetInForce opt start.2 + opt.budgetBonus *
              (opt.stepIndex (lastClock start.1 period) - opt.stepIndex start.1) := by
  have funded : Funded opt 0 (s.db.floodLimits.lookup metric) := by
    rw [hnew]
    trivial
  constructor
  · rintro before after rfl limit hl
    have h := run_funded hopt le_rfl funded hclock.append.1 hexhausted.append.1 htimely.append.1
    rw [hl] at h
    exact h.1.2
  · rintro before ⟨now, request⟩ period after rfl ho hr
    rw [List.append_assoc] at hclock hexhausted htimely
    have hb := run_funded hopt le_rfl funded hclock.append.1 hexhausted.append.1 htimely.append.1
    have hlo := hclock.append.1.le_lastClock
    have hclock := (hclock.append.2).append.1
    have hexhausted := (hexhausted.append.2).append.1
    have htimely := (htimely.append.2).append.1
    generalize (s.run opt before).1 = opened at *
    generalize lastClock 0 before = t at *
    obtain ⟨hle, hhi, hp⟩ := hclock
    have hn := hlo.trans hle
    cases request with
    | resetFlood m limit =>
      have hm := ho
      subst hm
      have hf : (opened.step opt (now, .resetFlood m limit)).1.db.floodLimits.lookup m =
          some ⟨m, now, min limit maxResetLimit⟩ := by
        simp [step, serve, resetFlood, not_le.2 (hexhausted.1 rfl).1, lookup_replace]
      have funded := floodStep_funded hopt (step_flood opt m opened _) (hb.mono hle)
        hn hhi hexhausted.1 htimely.1
      have hc := created_le hopt hn funded hp hexhausted.2 htimely.2 hr
      rw [createdFor_run_cons, show createdFor m (opened.step opt (now, _)).2 = 0 from rfl,
        zero_add]
      rw [hf] at hc
      simp only [potential, budgetInForce] at hc ⊢
      linarith
    | getOrCreateMapping m key =>
      have hrs' : ∀ call ∈ (now, Request.getOrCreateMapping m key) :: period,
          ¬Resets metric call.2 := by
        intro call ha
        rcases mem_cons.1 ha with rfl | ha
        · exact id
        · exact hr call ha
      have hclock' : ClockFrom now ((now, .getOrCreateMapping m key) :: period) :=
        ⟨le_rfl, hhi, hp⟩
      have hc := created_le hopt hn (hb.mono hle) hclock' hexhausted htimely hrs'
      rw [ho.2] at hc
      simp only [potential, budgetInForce, lastClock] at hc ⊢
      linarith
    | _ => exact absurd ho id

end Run

/-- The options the engine is started with, with nothing left of the global budget. -/
def defaultOptions : Options where
  maxBudget := 1000
  stepSec := 3600
  budgetBonus := 10
  globalBudget := 0
  stepSec_pos := by decide

theorem flood_limit_after_reset :
    let calls : List (Int × Request) :=
      [(3600, .resetFlood [109] 1), (7300, .getOrCreateMapping [109] [97])]
    createdFor [109] (run defaultOptions {} calls).2 ≤
      1 + 10 * (defaultOptions.stepIndex 7300 - defaultOptions.stepIndex 3600) := by
  intro calls
  have hopt : defaultOptions.Sane := ⟨by decide, by decide, by decide, by decide⟩
  have hclock : ClockFrom 0 calls := ⟨by decide, by decide, by decide, by decide, trivial⟩
  have hexhausted : DBV2.Along defaultOptions (Exhausted defaultOptions [109]) {} calls :=
    ⟨fun _ => ⟨by decide, by decide⟩, fun _ => by decide, trivial⟩
  have hs : (step defaultOptions {} (3600, .resetFlood [109] 1)).1.db.floodLimits.lookup
      [109] = some ⟨[109], 3600, 1⟩ := by decide +kernel
  have htimely : DBV2.Along defaultOptions (Timely defaultOptions [109]) {} calls := by
    refine ⟨trivial, fun _ _ limit hl => ?_, trivial⟩
    cases hs.symm.trans hl
    decide
  exact (flood_limit_holds hopt rfl hclock hexhausted htimely).2 [] _ _ [] rfl rfl
    (by simp [Resets])

/-- A reset in the middle of a step leaves a time that the next request in the same step
precedes once it is rounded: the difference wraps around, the budget of one is refilled to the
maximum and a second mapping is created without any boundary crossed. -/
theorem flood_limit_exceeded :
    let calls : List (Int × Request) :=
      [(5000, .resetFlood [109] 1), (5001, .getOrCreateMapping [109] [97]),
        (5002, .getOrCreateMapping [109] [98])]
    createdFor [109] (run defaultOptions {} calls).2 = 2 ∧
      defaultOptions.stepIndex 5002 = defaultOptions.stepIndex 5000 ∧
      ((run defaultOptions {} calls).1.db.floodLimits.lookup [109]).map
        FloodLimit.countFree = some 998 := by
  decide +kernel

end Metadata

import Mathlib.Algebra.BigOperators.Fin
import Mathlib.Algebra.Order.Field.Basic
import Mathlib.Data.Rat.Cast.Order
import Mathlib.Tactic.FinCases
import Mathlib.Tactic.Linarith
import Mathlib.Tactic.NormNum
import TronlinkCore.Library.Numerals
import TronlinkCore.Metrics.Ledger

namespace TronlinkCore.Metrics

open Text

def decimalNumber (s : Text) : ℚ :=
  let integerPart := (unsigned s).takeWhile Char.isDigit
  let fraction := ((unsigned s).dropWhile Char.isDigit).tail
  let magnitude : ℚ := decimalValue integerPart + decimalValue fraction / 10 ^ fraction.length
  if s.head? = some '-' then -magnitude else magnitude

theorem decimalNumber_nil : decimalNumber [] = 0 := by
  simp [decimalNumber, unsigned, decimalValue]

def Significant (digits : ℕ) (q : ℚ) : Prop := ∃ m e : ℤ, |m| < 10 ^ digits ∧ q = m * 10 ^ e

/-- `NSDecimalNumber` is exact as far as 38 significant digits go. -/
class ExactDecimals [DecimalNumbers] : Prop where
  value_empty : DecimalNumbers.value [] = none
  value_exact : ∀ {s : Text} {q : ℚ}, metricsDecimalNumber s = some q → Significant 38 (decimalNumber s) →
    q = decimalNumber s
  add_exact : ∀ {a b sum : ℚ}, DecimalNumbers.add a b = some sum → Significant 38 (a + b) → sum = a + b
  stringValue_exact : ∀ {q : ℚ}, Significant 38 q → metricsDecimalNumber (DecimalNumbers.stringValue q) ≠ none →
    decimalNumber (DecimalNumbers.stringValue q) = q

def Summable (numbers : List ℚ) : Prop :=
  (∀ number ∈ numbers, Significant 38 number) ∧ ∀ first, first <+: numbers → Significant 38 first.sum

theorem Summable.of_append {numbers : List ℚ} {number : ℚ} (h : Summable (numbers ++ [number])) :
    Summable numbers := by
  constructor
  · intro other hother
    exact h.1 other (List.mem_append_left _ hother)
  · intro first hfirst
    exact h.2 first (hfirst.trans (List.prefix_append _ _))

theorem Summable.last {numbers : List ℚ} {number : ℚ} (h : Summable (numbers ++ [number])) :
    Significant 38 number := h.1 number (List.mem_append_right _ List.mem_cons_self)

theorem Summable.sum {numbers : List ℚ} (h : Summable numbers) : Significant 38 numbers.sum :=
  h.2 numbers (List.prefix_refl numbers)

/-- `(0, 1]`, `(1, 10]`, …, `(1000000, 10000000]`, and what is above -/
def InBucket (i : Fin 9) (amount : ℚ) : Prop :=
  (if i = 0 then 0 else 10 ^ (i.val - 1)) < amount ∧ (i = 8 ∨ amount ≤ 10 ^ i.val)

instance (i : Fin 9) (amount : ℚ) : Decidable (InBucket i amount) := inferInstanceAs (Decidable (_ ∧ _))

theorem InBucket.pos {i : Fin 9} {amount : ℚ} (h : InBucket i amount) : 0 < amount := by
  refine lt_of_le_of_lt ?_ h.1
  split
  · exact le_rfl
  · positivity

theorem InBucket.le {i j : Fin 9} {amount : ℚ} (hi : InBucket i amount) (hj : InBucket j amount) : j ≤ i := by
  by_contra hlt
  have hlt : i.val < j.val := not_le.mp hlt
  have hupper : amount ≤ 10 ^ i.val := by
    apply hi.2.resolve_left
    rintro rfl
    have := j.isLt
    simp at hlt
    omega
  have hlower := hj.1
  rw [if_neg (by rintro rfl; simp at hlt)] at hlower
  have hpow : (10 : ℚ) ^ i.val ≤ 10 ^ (j.val - 1) := pow_le_pow_right₀ (by norm_num) (by omega)
  linarith

theorem InBucket.unique {i j : Fin 9} {amount : ℚ} (hi : InBucket i amount) (hj : InBucket j amount) : i = j :=
  le_antisymm (hj.le hi) (hi.le hj)

def bucketOf (amount : ℚ) : Fin 9 := ((amountBuckets.find? fun bucket => amount ≤ bucket.1).map Prod.snd).getD 8

theorem amountBuckets_get (k : Fin 8) : amountBuckets[k.val]? = some (10 ^ k.val, ⟨k.val, by omega⟩) := by
  fin_cases k <;> norm_num [amountBuckets]
  all_goals rfl

theorem inBucket_bucketOf {amount : ℚ} (h : 0 < amount) : InBucket (bucketOf amount) amount := by
  unfold bucketOf
  cases hfind : amountBuckets.find? fun bucket => amount ≤ bucket.1 with
  | none =>
    refine ⟨?_, .inl rfl⟩
    have hlast := List.find?_eq_none.mp hfind _ (List.mem_of_getElem? (amountBuckets_get 7))
    simpa using hlast
  | some bucket =>
    obtain ⟨hle, k, hk, hget, hearlier⟩ := List.find?_eq_some_iff_getElem.mp hfind
    have hbucket := (List.getElem?_eq_some_iff.mpr ⟨hk, hget⟩).symm.trans (amountBuckets_get ⟨k, hk⟩)
    cases hbucket
    refine ⟨?_, .inr (by simpa using hle)⟩
    dsimp only [Option.map_some, Option.getD_some]
    split
    · exact h
    · rename_i hne
      have hk0 : k ≠ 0 := by
        rintro rfl
        exact hne rfl
      have hprevious := hearlier (k - 1) (by omega)
      have hget := List.getElem?_eq_some_iff.mp (amountBuckets_get ⟨k - 1, by have : k < 8 := hk; omega⟩)
      obtain ⟨_, hget⟩ := hget
      rw [hget] at hprevious
      simpa using hprevious

theorem inBucket_iff {i : Fin 9} {amount : ℚ} (h : 0 < amount) : InBucket i amount ↔ bucketOf amount = i := by
  constructor
  · exact (inBucket_bucketOf h).unique
  · rintro rfl
    exact inBucket_bucketOf h

theorem sum_countP_inBucket (amounts : List ℚ) :
    ∑ i, amounts.countP (fun amount => InBucket i amount) = amounts.countP fun amount => 0 < amount := by
  induction amounts with
  | nil => simp
  | cons amount amounts ih =>
    simp only [List.countP_cons, Finset.sum_add_distrib, ih, decide_eq_true_eq]
    congr 1
    by_cases hpos : 0 < amount
    · simp only [inBucket_iff hpos, if_pos hpos, Finset.sum_ite_eq, Finset.mem_univ, if_true]
    · have hnone (i : Fin 9) : ¬ InBucket i amount := fun h => hpos h.pos
      simp only [hnone, if_false, if_neg hpos, Finset.sum_const_zero]

structure StatisticsCall where
  event : TransactionEvent
  config : DataSource
  uId : Text
  date : Text
  works : Bool

namespace StatisticsCall

def key (call : StatisticsCall) : TransactionKey := call.event.key call.config call.uId call.date

def amount (call : StatisticsCall) : ℚ := decimalNumber call.event.tokenAmount

/-- The native token, or the USDT contract of the moment -/
def counted [CanonicalText] (call : StatisticsCall) : Bool :=
  CanonicalText.same call.event.tokenAddress ['_'] ||
    CanonicalText.same call.event.tokenAddress call.config.usdtContractAddress

end StatisticsCall

def totals : List ((TransactionEvent → Text) × (TransactionRow → Option Text)) :=
  [(TransactionEvent.tokenAmount, TransactionRow.tokenAmount), (TransactionEvent.energy, TransactionRow.energy),
    (TransactionEvent.bandwidth, TransactionRow.bandwidth), (TransactionEvent.burn, TransactionRow.burn)]

def addends (field : TransactionEvent → Text) (calls : List StatisticsCall) : List ℚ :=
  calls.map fun call => decimalNumber (field call.event)

structure Tally [CanonicalText] (saved : List StatisticsCall) (row : TransactionRow) : Prop where
  count : ∃ count, row.count = some count ∧ count.toInt = saved.length
  total : ∀ total ∈ totals, ∃ text, total.2 row = some text ∧
    (Summable (addends total.1 saved) → decimalNumber text = (addends total.1 saved).sum)
  bucket : ∀ i, ∃ count, row.bucket i = some count ∧
    ((∀ call ∈ saved, Significant 38 call.amount) →
      count.toInt = saved.countP fun call => call.counted ∧ InBucket i call.amount)

theorem Tally.buckets [CanonicalText] {saved : List StatisticsCall} {row : TransactionRow} (h : Tally saved row)
    (hcounted : ∀ call ∈ saved, call.counted ∧ Significant 38 call.amount) (i : Fin 9) :
    ∃ count, row.bucket i = some count ∧ count.toInt = saved.countP fun call => InBucket i call.amount := by
  obtain ⟨count, hcount, hvalue⟩ := h.bucket i
  refine ⟨count, hcount, ?_⟩
  rw [hvalue fun call hcall => (hcounted call hcall).2]
  congr 1
  apply List.countP_congr
  intro call hcall
  simp [(hcounted call hcall).1]

theorem Tally.sum_buckets [CanonicalText] {saved : List StatisticsCall} {row : TransactionRow} (h : Tally saved row)
    (hcounted : ∀ call ∈ saved, call.counted ∧ Significant 38 call.amount) :
    ∑ i, ((row.bucket i).getD 0).toInt = saved.countP fun call => 0 < call.amount := by
  have hbucket (i : Fin 9) : ((row.bucket i).getD 0).toInt =
      ((saved.map StatisticsCall.amount).countP fun amount => InBucket i amount : ℕ) := by
    obtain ⟨count, hcount, hvalue⟩ := h.buckets hcounted i
    rw [hcount, Option.getD_some, hvalue, List.countP_map]
    rfl
  have hsum := sum_countP_inBucket (saved.map StatisticsCall.amount)
  simp only [hbucket]
  rw [← Nat.cast_sum, hsum, List.countP_map]
  rfl

theorem gathered_eq_some {α : Type} {n : ℕ} {f : Fin n → Option α} {g : Fin n → α} (h : gathered f = some g)
    (i : Fin n) : f i = some (g i) := by
  unfold gathered at h
  split at h
  · cases h
    exact (Option.some_get _).symm
  · cases h

theorem extendedBucket_eq_some {increment previous : Int64} {written : Option Int64}
    (h : extendedBucket (some increment) (some previous) = some written) :
    ∃ count, written = some count ∧ count.toInt = previous.toInt + increment.toInt := by
  simp only [extendedBucket, Option.getD_some] at h
  split at h
  · rename_i hguard
    cases h
    exact ⟨_, rfl, not_overflow hguard.2⟩
  · cases h

theorem overflow_of_lt {a b : Int64} (ha : 0 ≤ a.toInt) (hb : 0 ≤ b.toInt) (h : a.toInt + b.toInt < 2 ^ 63) :
    (addingReportingOverflow a b).2 = false := by
  have hsum : (a + b).toInt = a.toInt + b.toInt := by
    rw [Int64.toInt_add, Int.bmod_eq_of_le (by omega) (by omega)]
  simp [addingReportingOverflow, hsum]

section

variable [DecimalNumbers]

theorem value_of_metricsDecimalNumber {s : Text} {q : ℚ} (h : metricsDecimalNumber s = some q) (hne : s ≠ []) :
    DecimalNumbers.value s = some q := by
  unfold metricsDecimalNumber at h
  rw [if_neg (by simpa using hne)] at h
  grind

theorem distributionTokenAmount_zero [ExactDecimals] {s : Text} (hread : metricsDecimalNumber s ≠ none)
    (hdigits : Significant 38 (decimalNumber s)) (i : Fin 9) :
    distributionTokenAmount s (fun _ => 0) i = if InBucket i (decimalNumber s) then 1 else 0 := by
  by_cases hs : s = []
  · subst hs
    have hnot : ¬ InBucket i (decimalNumber []) := by
      intro h
      have := h.pos
      rw [decimalNumber_nil] at this
      exact lt_irrefl _ this
    rw [if_neg hnot, distributionTokenAmount, ExactDecimals.value_empty]
  · obtain ⟨q, hq⟩ := Option.ne_none_iff_exists'.mp hread
    obtain rfl := ExactDecimals.value_exact hq hdigits
    rw [distributionTokenAmount, value_of_metricsDecimalNumber hq hs]
    dsimp only
    split
    · rename_i hpos
      change Function.update _ (bucketOf (decimalNumber s)) _ i = _
      rw [Function.update_apply]
      by_cases hi : i = bucketOf (decimalNumber s)
      · rw [if_pos hi, if_pos ((inBucket_iff hpos).mpr hi.symm)]
        rfl
      · rw [if_neg hi, if_neg fun h => hi ((inBucket_iff hpos).mp h).symm]
    · rename_i hpos
      rw [if_neg fun h => hpos h.pos]

def Extended (old : Option Text) (addend : Text) (new : Option Text) : Prop :=
  ∃ total, decimalNumberByAdding (old.getD []) addend = some total ∧ new = some (DecimalNumbers.stringValue total)

theorem Extended.sum [ExactDecimals] {text addend : Text} {new : Option Text} {numbers : List ℚ}
    (h : Extended (some text) addend new) (hsum : Summable numbers → decimalNumber text = numbers.sum) :
    ∃ later, new = some later ∧ (Summable (numbers ++ [decimalNumber addend]) →
      decimalNumber later = (numbers ++ [decimalNumber addend]).sum) := by
  obtain ⟨total, htotal, rfl⟩ := h
  simp only [decimalNumberByAdding, Option.bind_eq_bind, Option.bind_eq_some_iff, Option.getD_some,
    Option.some.injEq] at htotal
  obtain ⟨left, hleft, right, hright, result, hadd, read, hread, rfl⟩ := htotal
  refine ⟨_, rfl, ?_⟩
  intro hnumbers
  have htext := hsum hnumbers.of_append
  have hdigits := hnumbers.sum
  obtain rfl : left = numbers.sum := by
    rw [← htext]
    apply ExactDecimals.value_exact hleft
    rw [htext]
    exact hnumbers.of_append.sum
  obtain rfl := ExactDecimals.value_exact hright hnumbers.last
  rw [List.sum_append, List.sum_singleton] at hdigits ⊢
  obtain rfl := ExactDecimals.add_exact hadd hdigits
  apply ExactDecimals.stringValue_exact hdigits
  rw [hread]
  exact Option.some_ne_none read

structure Further (event : TransactionEvent) (model current written : TransactionSyncModel) : Prop where
  count : ∃ count, written.count = some count ∧ count.toInt = (current.count.getD 0).toInt + 1
  tokenAmount : Extended current.tokenAmount event.tokenAmount written.tokenAmount
  energy : Extended current.energy event.energy written.energy
  bandwidth : Extended current.bandwidth event.bandwidth written.bandwidth
  burn : Extended current.burn event.burn written.burn
  bucket : ∀ i, extendedBucket (model.bucket i) (current.bucket i) = some (written.bucket i)

theorem further_of_extendTransaction {event : TransactionEvent} {model current written : TransactionSyncModel}
    (h : extendTransaction event model (some current) = some written) : Further event model current written := by
  obtain ⟨_, _, hcount⟩ := extendTransaction_some h
  simp only [extendTransaction, Option.bind_eq_bind] at h
  split at h
  · simp only [Option.bind_eq_some_iff, Option.some.injEq] at h
    obtain ⟨amount, hamount, energy, henergy, bandwidth, hbandwidth, burn, hburn, bucket, hbucket, rfl⟩ := h
    exact {
      count := hcount
      tokenAmount := ⟨amount, hamount, rfl⟩
      energy := ⟨energy, henergy, rfl⟩
      bandwidth := ⟨bandwidth, hbandwidth, rfl⟩
      burn := ⟨burn, hburn, rfl⟩
      bucket := gathered_eq_some hbucket }
  · cases h

theorem Extended.of_further {event : TransactionEvent} {model written : TransactionSyncModel} {row : TransactionRow}
    (h : Further event model (makeTransactionSync row) written)
    {total : (TransactionEvent → Text) × (TransactionRow → Option Text)} (htotal : total ∈ totals) :
    ∃ new, Extended (total.2 row) (total.1 event) new ∧ total.2 (row.set written) = new.or (total.2 row) := by
  revert total
  simp only [totals, List.forall_mem_cons, List.not_mem_nil, false_implies, implies_true, and_true]
  exact ⟨⟨_, h.tokenAmount, rfl⟩, ⟨_, h.energy, rfl⟩, ⟨_, h.bandwidth, rfl⟩, ⟨_, h.burn, rfl⟩⟩

namespace StatisticsCall

def increment (call : StatisticsCall) (i : Fin 9) : Int64 :=
  distributionTokenAmount call.event.tokenAmount (fun _ => 0) i

theorem increment_nonneg (call : StatisticsCall) (i : Fin 9) : 0 ≤ (call.increment i).toInt := by
  rw [increment, distributionTokenAmount]
  cases DecimalNumbers.value call.event.tokenAmount with
  | none => exact le_rfl
  | some amount =>
    dsimp only
    split
    · rw [Function.update_apply]
      split <;> decide
    · exact le_rfl

theorem increment_toInt [ExactDecimals] {call : StatisticsCall}
    (hread : metricsDecimalNumber call.event.tokenAmount ≠ none) (hdigits : Significant 38 call.amount) (i : Fin 9) :
    (call.increment i).toInt = if InBucket i call.amount then 1 else 0 := by
  rw [increment, distributionTokenAmount_zero hread hdigits, amount]
  split <;> rfl

end StatisticsCall

variable [CanonicalText]

namespace StatisticsCall

def model (call : StatisticsCall) : TransactionSyncModel :=
  makeTransactionSyncModel call.event call.config call.uId call.date

def save (call : StatisticsCall) (table : TransactionSyncTable) : Option TransactionSyncTable :=
  upsertTransactionsData call.event call.config call.uId call.date call.works table

def numbers (event : TransactionEvent) : List Text :=
  [event.tokenAmount, event.energy, event.bandwidth, event.burn]

theorem save_eq_some {call : StatisticsCall} {table later : TransactionSyncTable} (h : call.save table = some later) :
    (∀ number ∈ numbers call.event, metricsDecimalNumber number ≠ none) ∧
      ((∃ row written, table.find? call.key = some row ∧
          extendTransaction call.event call.model (some (makeTransactionSync row)) = some written ∧
          later.find? call.key = some (row.set written)) ∨
        (table.find? call.key = none ∧ later.find? call.key = some (insertedTransaction call.model))) := by
  unfold save upsertTransactionsData at h
  split at h
  · cases h
  split at h
  · rename_i hread
    constructor
    · intro number hnumber
      exact Option.isSome_iff_ne_none.mp (List.all_eq_true.mp hread number hnumber)
    · obtain ⟨row, written, hrow, htransform, rfl⟩ | ⟨written, hrow, htransform, hinsert⟩ :=
        mutateTransactionSync_eq_some h
      · refine .inl ⟨row, written, hrow, htransform, ?_⟩
        rw [key, Table.find?_update_self, hrow]
        rfl
      · cases htransform
        refine .inr ⟨hrow, ?_⟩
        rw [Table.find?_insert hinsert]
        exact if_pos rfl
  · cases h

theorem model_bucket_of_counted {call : StatisticsCall} (h : call.counted = true) (i : Fin 9) :
    call.model.bucket i = some (call.increment i) := by
  have hbucket : call.model.bucket = if call.counted then fun i => some (call.increment i) else fun _ => none := rfl
  rw [hbucket, if_pos h]

theorem model_bucket_of_not_counted {call : StatisticsCall} (h : call.counted = false) (i : Fin 9) :
    call.model.bucket i = none := by
  have hbucket : call.model.bucket = if call.counted then fun i => some (call.increment i) else fun _ => none := rfl
  rw [hbucket, if_neg (by rw [h]; decide)]

end StatisticsCall

theorem tally_singleton [ExactDecimals] {call : StatisticsCall}
    (hread : metricsDecimalNumber call.event.tokenAmount ≠ none) :
    Tally [call] (insertedTransaction call.model) where
  count := ⟨1, rfl, rfl⟩
  total := by
    simp only [totals, List.forall_mem_cons, List.not_mem_nil, false_implies, implies_true, and_true]
    refine ⟨⟨_, rfl, ?_⟩, ⟨_, rfl, ?_⟩, ⟨_, rfl, ?_⟩, ⟨_, rfl, ?_⟩⟩
    all_goals
      intro _
      rw [addends, List.map_singleton, List.sum_singleton]
      rfl
  bucket i := by
    refine ⟨_, rfl, ?_⟩
    intro hdigits
    rw [List.countP_singleton]
    cases hcounted : call.counted with
    | true =>
      rw [StatisticsCall.model_bucket_of_counted hcounted, Option.getD_some,
        StatisticsCall.increment_toInt hread (hdigits call List.mem_cons_self)]
      simp
    | false =>
      rw [StatisticsCall.model_bucket_of_not_counted hcounted]
      simp

theorem tally_snoc [ExactDecimals] {saved : List StatisticsCall} {call : StatisticsCall} {row : TransactionRow}
    {written : TransactionSyncModel} (h : Tally saved row)
    (hread : metricsDecimalNumber call.event.tokenAmount ≠ none)
    (hwritten : extendTransaction call.event call.model (some (makeTransactionSync row)) = some written) :
    Tally (saved ++ [call]) (row.set written) := by
  have hfurther := further_of_extendTransaction hwritten
  constructor
  case count =>
    obtain ⟨old, hold, hlength⟩ := h.count
    obtain ⟨count, hcount, hvalue⟩ := hfurther.count
    refine ⟨count, by rw [TransactionRow.set, hcount]; rfl, ?_⟩
    have hrow : (makeTransactionSync row).count = some old := hold
    rw [hrow, Option.getD_some, hlength] at hvalue
    rw [hvalue, List.length_append, List.length_singleton, Nat.cast_add, Nat.cast_one]
  case total =>
    intro total htotal
    obtain ⟨text, htext, hsum⟩ := h.total total htotal
    obtain ⟨new, hnew, hset⟩ := Extended.of_further hfurther htotal
    rw [htext] at hnew
    obtain ⟨later, rfl, hlater⟩ := hnew.sum hsum
    refine ⟨later, hset, ?_⟩
    rw [addends, List.map_append, List.map_singleton]
    exact hlater
  case bucket =>
    intro i
    obtain ⟨old, hold, hcountP⟩ := h.bucket i
    have hbucket := hfurther.bucket i
    have hrow : (makeTransactionSync row).bucket i = some old := by
      change some ((row.bucket i).getD 0) = some old
      rw [hold, Option.getD_some]
    have hset : (row.set written).bucket i = (written.bucket i).or (some old) := by
      rw [← hold]
      rfl
    have hcount : ((saved ++ [call]).countP fun call => call.counted ∧ InBucket i call.amount) =
        (saved.countP fun call => call.counted ∧ InBucket i call.amount) +
          if call.counted ∧ InBucket i call.amount then 1 else 0 := by
      rw [List.countP_append, List.countP_singleton]
      simp only [decide_eq_true_eq]
    rw [hrow] at hbucket
    rw [hset, hcount]
    cases hcounted : call.counted with
    | false =>
      rw [StatisticsCall.model_bucket_of_not_counted hcounted] at hbucket
      have hkept : none = written.bucket i := Option.some.inj hbucket
      refine ⟨old, by rw [← hkept, Option.none_or], ?_⟩
      intro hdigits
      rw [hcountP fun other hother => hdigits other (List.mem_append_left _ hother), if_neg (by simp), Nat.add_zero]
    | true =>
      rw [StatisticsCall.model_bucket_of_counted hcounted] at hbucket
      obtain ⟨count, hnew, hvalue⟩ := extendedBucket_eq_some hbucket
      refine ⟨count, by rw [hnew]; rfl, ?_⟩
      intro hdigits
      rw [hvalue, hcountP fun other hother => hdigits other (List.mem_append_left _ hother),
        StatisticsCall.increment_toInt hread (hdigits call (List.mem_append_right _ List.mem_cons_self)),
        Nat.cast_add]
      simp

/-- No counter of the row is negative. -/
structure TransactionRow.Sound (row : TransactionRow) : Prop where
  count : 0 ≤ row.counter
  bucket : ∀ i, 0 ≤ ((row.bucket i).getD 0).toInt

theorem sound_inserted (call : StatisticsCall) : (insertedTransaction call.model).Sound where
  count := (by decide : 0 ≤ (1 : Int64).toInt)
  bucket i := by
    change 0 ≤ ((call.model.bucket i).getD 0).toInt
    cases hcounted : call.counted with
    | true =>
      rw [StatisticsCall.model_bucket_of_counted hcounted]
      exact call.increment_nonneg i
    | false =>
      rw [StatisticsCall.model_bucket_of_not_counted hcounted]
      decide

theorem TransactionRow.Sound.set {call : StatisticsCall} {row : TransactionRow} {written : TransactionSyncModel}
    (h : row.Sound) (hfurther : Further call.event call.model (makeTransactionSync row) written) :
    (row.set written).Sound where
  count := by
    obtain ⟨count, hcount, hvalue⟩ := hfurther.count
    have hrow : 0 ≤ ((makeTransactionSync row).count.getD 0).toInt := h.count
    rw [TransactionRow.counter, TransactionRow.set, hcount]
    change 0 ≤ count.toInt
    omega
  bucket i := by
    have hbucket := hfurther.bucket i
    have hrow := h.bucket i
    change 0 ≤ (((written.bucket i).or (row.bucket i)).getD 0).toInt
    cases hcounted : call.counted with
    | true =>
      rw [StatisticsCall.model_bucket_of_counted hcounted] at hbucket
      obtain ⟨count, hnew, hvalue⟩ := extendedBucket_eq_some hbucket
      have hpos := call.increment_nonneg i
      rw [hnew]
      change 0 ≤ count.toInt
      omega
    | false =>
      rw [StatisticsCall.model_bucket_of_not_counted hcounted] at hbucket
      rw [← Option.some.inj hbucket]
      exact hrow

def saving : List StatisticsCall → TransactionSyncTable → TransactionSyncTable × List StatisticsCall
  | [], table => (table, [])
  | call :: calls, table =>
    match call.save table with
    | some later => ((saving calls later).1, call :: (saving calls later).2)
    | none => saving calls table

theorem saving_append (calls more : List StatisticsCall) (table : TransactionSyncTable) :
    saving (calls ++ more) table =
      ((saving more (saving calls table).1).1, (saving calls table).2 ++ (saving more (saving calls table).1).2) := by
  induction calls generalizing table with
  | nil => rfl
  | cons call calls ih =>
    rw [List.cons_append, saving, saving]
    cases call.save table with
    | none => exact ih table
    | some later =>
      dsimp only
      rw [ih later]
      rfl

/-- The row of the key tells of the saved calls; without one nothing was saved. -/
inductive Accounted (key : TransactionKey) (saved : List StatisticsCall) (table : TransactionSyncTable) : Prop where
  | absent (hsaved : saved = []) (hrow : table.find? key = none)
  | present {row : TransactionRow} (hsaved : saved ≠ []) (hrow : table.find? key = some row)
      (tally : Tally saved row) (sound : row.Sound)

omit [DecimalNumbers] in
theorem Accounted.sound {key : TransactionKey} {saved : List StatisticsCall} {table : TransactionSyncTable} {row : TransactionRow}
    (h : Accounted key saved table) (hrow : table.find? key = some row) : row.Sound := by
  cases h with
  | absent _ hnone =>
    rw [hnone] at hrow
    cases hrow
  | present _ hpresent _ sound =>
    rw [hpresent] at hrow
    cases hrow
    exact sound

theorem Accounted.snoc [ExactDecimals] {key : TransactionKey} {saved : List StatisticsCall}
    {table later : TransactionSyncTable} {call : StatisticsCall} (h : Accounted key saved table) (hkey : call.key = key)
    (hsave : call.save table = some later) : Accounted key (saved ++ [call]) later := by
  subst hkey
  obtain ⟨hnumbers, hrows⟩ := StatisticsCall.save_eq_some hsave
  have hread := hnumbers _ List.mem_cons_self
  obtain ⟨row, written, hrow, hwritten, hlater⟩ | ⟨hrow, hlater⟩ := hrows
  · cases h with
    | absent _ habsent =>
      rw [habsent] at hrow
      cases hrow
    | present _ hpresent tally sound =>
      rw [hpresent] at hrow
      cases hrow
      exact .present (by simp) hlater (tally_snoc tally hread hwritten)
        (sound.set (further_of_extendTransaction hwritten))
  · cases h with
    | absent hsaved _ =>
      rw [hsaved, List.nil_append]
      exact .present (by simp) hlater (tally_singleton hread) (sound_inserted call)
    | present _ hpresent =>
      rw [hpresent] at hrow
      cases hrow

theorem Accounted.saving [ExactDecimals] {key : TransactionKey} {saved calls : List StatisticsCall}
    {table : TransactionSyncTable} (h : Accounted key saved table) (hkey : ∀ call ∈ calls, call.key = key) :
    Accounted key (saved ++ (saving calls table).2) (saving calls table).1 := by
  induction calls generalizing saved table with
  | nil =>
    rw [Metrics.saving, List.append_nil]
    exact h
  | cons call calls ih =>
    obtain ⟨hcall, hcalls⟩ := List.forall_mem_cons.mp hkey
    rw [Metrics.saving]
    cases hsave : call.save table with
    | none => exact ih h hcalls
    | some later =>
      have hlater := ih (h.snoc hcall hsave) hcalls
      rwa [List.append_assoc, List.singleton_append] at hlater

inductive Rejection (call : StatisticsCall) (row : Option TransactionRow) : Prop where
  | malformed {number : Text} (hnumber : number ∈ StatisticsCall.numbers call.event)
      (h : metricsDecimalNumber number = none)
  | countOverflow {stored : TransactionRow} {count : Int64} (hrow : row = some stored)
      (hcount : stored.count = some count) (h : 2 ^ 63 ≤ count.toInt + 1)
  | bucketOverflow {stored : TransactionRow} {i : Fin 9} {count : Int64} (hrow : row = some stored)
      (hcount : stored.bucket i = some count) (hcounted : call.counted)
      (h : 2 ^ 63 ≤ count.toInt + (call.increment i).toInt)
  | sumOutOfRange {stored : TransactionRow} {total : (TransactionEvent → Text) × (TransactionRow → Option Text)}
      (hrow : row = some stored) (htotal : total ∈ totals)
      (h : decimalNumberByAdding ((total.2 stored).getD []) (total.1 call.event) = none)

theorem Rejection.not_saved {call : StatisticsCall} {table : TransactionSyncTable}
    (h : Rejection call (table.find? call.key)) : call.save table = none := by
  by_contra hsaved
  obtain ⟨later, hlater⟩ := Option.ne_none_iff_exists'.mp hsaved
  obtain ⟨hnumbers, hrows⟩ := StatisticsCall.save_eq_some hlater
  have further {stored : TransactionRow} (hrow : table.find? call.key = some stored) :
      ∃ written, Further call.event call.model (makeTransactionSync stored) written := by
    obtain ⟨row, written, hfound, hwritten, _⟩ | ⟨hfound, _⟩ := hrows
    · rw [hrow] at hfound
      cases hfound
      exact ⟨written, further_of_extendTransaction hwritten⟩
    · rw [hrow] at hfound
      cases hfound
  cases h with
  | malformed hnumber hnone => exact hnumbers _ hnumber hnone
  | countOverflow hrow hcount hover =>
    obtain ⟨written, hfurther⟩ := further hrow
    obtain ⟨count, _, hvalue⟩ := hfurther.count
    have hlt := count.toInt_lt
    rw [show (makeTransactionSync _).count = some _ from hcount, Option.getD_some] at hvalue
    omega
  | @bucketOverflow stored i old hrow hcount hcounted hover =>
    obtain ⟨written, hfurther⟩ := further hrow
    have hbucket := hfurther.bucket i
    have hstored : (makeTransactionSync stored).bucket i = some old := by
      change some ((stored.bucket i).getD 0) = some old
      rw [hcount, Option.getD_some]
    rw [StatisticsCall.model_bucket_of_counted hcounted, hstored] at hbucket
    obtain ⟨count, _, hvalue⟩ := extendedBucket_eq_some hbucket
    have hlt := count.toInt_lt
    omega
  | sumOutOfRange hrow htotal hnone =>
    obtain ⟨written, hfurther⟩ := further hrow
    obtain ⟨new, ⟨sum, hsum, _⟩, _⟩ := Extended.of_further hfurther htotal
    rw [hnone] at hsum
    cases hsum

theorem extendTransaction_of_not_rejected {call : StatisticsCall} {row : TransactionRow} (hsound : row.Sound)
    (h : ¬ Rejection call (some row)) :
    ∃ written, extendTransaction call.event call.model (some (makeTransactionSync row)) = some written := by
  have hcount : 0 ≤ (makeTransactionSync row).count.getD 0 ∧
      (addingReportingOverflow ((makeTransactionSync row).count.getD 0) 1).2 = false := by
    refine ⟨Int64.le_iff_toInt_le.mpr hsound.count, overflow_of_lt hsound.count (by decide) ?_⟩
    change (row.count.getD 0).toInt + 1 < 2 ^ 63
    cases hstored : row.count with
    | none => decide
    | some count => exact not_le.mp fun hover => h (.countOverflow rfl hstored hover)
  have hsum (total : (TransactionEvent → Text) × (TransactionRow → Option Text)) (htotal : total ∈ totals) :
      ∃ sum, decimalNumberByAdding ((total.2 row).getD []) (total.1 call.event) = some sum :=
    Option.ne_none_iff_exists'.mp fun hnone => h (.sumOutOfRange rfl htotal hnone)
  have hbucket (i : Fin 9) : (extendedBucket (call.model.bucket i) ((makeTransactionSync row).bucket i)).isSome := by
    change (extendedBucket (call.model.bucket i) (some ((row.bucket i).getD 0))).isSome
    cases hcounted : call.counted with
    | false =>
      rw [StatisticsCall.model_bucket_of_not_counted hcounted]
      rfl
    | true =>
      have hpos := hsound.bucket i
      have hlt : ((row.bucket i).getD 0).toInt + (call.increment i).toInt < 2 ^ 63 := by
        cases hstored : row.bucket i with
        | none =>
          have := (call.increment i).toInt_lt
          simpa using this
        | some count => exact not_le.mp fun hover => h (.bucketOverflow rfl hstored hcounted hover)
      rw [StatisticsCall.model_bucket_of_counted hcounted, extendedBucket]
      dsimp only [Option.getD_some]
      rw [if_pos ⟨Int64.le_iff_toInt_le.mpr hpos, overflow_of_lt hpos (call.increment_nonneg i) hlt⟩]
      rfl
  simp only [totals, List.forall_mem_cons] at hsum
  obtain ⟨⟨amount, hamount⟩, ⟨energy, henergy⟩, ⟨bandwidth, hbandwidth⟩, ⟨burn, hburn⟩, _⟩ := hsum
  rw [extendTransaction, if_pos hcount]
  simp only [Option.bind_eq_bind, Option.bind_eq_some_iff]
  exact ⟨_, amount, hamount, energy, henergy, bandwidth, hbandwidth, burn, hburn, _, dif_pos hbucket, rfl⟩

theorem StatisticsCall.save_of_not_rejected {call : StatisticsCall} {table : TransactionSyncTable}
    (hworks : call.works = true) (henabled : isCollectionDisabled call.config = false)
    (hsound : ∀ row, table.find? call.key = some row → row.Sound)
    (h : ¬ Rejection call (table.find? call.key)) : ∃ later, call.save table = some later := by
  have hread : [call.event.tokenAmount, call.event.energy, call.event.bandwidth, call.event.burn].all
      fun number => (metricsDecimalNumber number).isSome := by
    rw [List.all_eq_true]
    intro number hnumber
    exact Option.isSome_iff_ne_none.mpr fun hnone => h (.malformed hnumber hnone)
  rw [save, upsertTransactionsData, henabled, if_neg (by simp), if_pos hread]
  change ∃ later, mutateTransactionSync call.key (extendTransaction call.event call.model) call.works table = some later
  cases hrow : table.find? call.key with
  | none =>
    obtain ⟨later, hlater⟩ : ∃ later, table.insert? (insertedTransaction call.model) = some later := by
      apply Table.insert?_of_absent
      intro key hkey
      rw [insertedTransaction_key hkey]
      exact hrow
    refine ⟨later, ?_⟩
    simpa [mutateTransactionSync, hrow, hworks, extendTransaction, insertTransactionSync_internal] using hlater
  | some row =>
    rw [hrow] at h
    obtain ⟨written, hwritten⟩ := extendTransaction_of_not_rejected (hsound row hrow) h
    obtain ⟨count, hcount, _⟩ := (further_of_extendTransaction hwritten).count
    refine ⟨table.update call.key (TransactionRow.set written) (TransactionRow.set_key written), ?_⟩
    simp [mutateTransactionSync, hrow, hwritten, hworks, updateTransactionSync_internal, hcount]

theorem statistics_are_exact_sums [ExactDecimals] {key : TransactionKey} {table : TransactionSyncTable}
    (hnone : table.find? key = none) {calls : List StatisticsCall} (hkey : ∀ call ∈ calls, call.key = key)
    {later : TransactionSyncTable} {saved : List StatisticsCall} (hsaving : saving calls table = (later, saved)) :
    (saved = [] → later.find? key = none) ∧
    (saved ≠ [] → ∃ row, later.find? key = some row ∧ Tally saved row ∧
      ((∀ call ∈ saved, call.counted ∧ Significant 38 call.amount) →
        (∀ i, ∃ count, row.bucket i = some count ∧
          count.toInt = saved.countP fun call => InBucket i call.amount) ∧
        ∑ i, ((row.bucket i).getD 0).toInt = saved.countP fun call => 0 < call.amount)) ∧
    (∀ call, call.key = key → Rejection call (later.find? key) → saving (calls ++ [call]) table = (later, saved)) ∧
    ∀ call, call.key = key → call.works = true → isCollectionDisabled call.config = false →
      ¬ Rejection call (later.find? key) → ∃ latest, saving (calls ++ [call]) table = (latest, saved ++ [call]) := by
  have haccounted := Accounted.saving (.absent rfl hnone) hkey
  rw [hsaving, List.nil_append] at haccounted
  refine ⟨?_, ?_, ?_, ?_⟩
  · intro hempty
    cases haccounted with
    | absent _ hrow => exact hrow
    | present hsaved => exact absurd hempty hsaved
  · intro hne
    cases haccounted with
    | absent hsaved _ => exact absurd hsaved hne
    | @present row _ hrow tally _ =>
      refine ⟨row, hrow, tally, ?_⟩
      intro hcounted
      exact ⟨tally.buckets hcounted, tally.sum_buckets hcounted⟩
  · intro call hcall hrejection
    subst hcall
    rw [saving_append, hsaving, saving, hrejection.not_saved, saving, List.append_nil]
  · intro call hcall hworks henabled hrejection
    subst hcall
    have hsound (row : TransactionRow) (hrow : later.find? call.key = some row) : row.Sound := haccounted.sound hrow
    obtain ⟨latest, hlatest⟩ := StatisticsCall.save_of_not_rejected hworks henabled hsound hrejection
    refine ⟨latest, ?_⟩
    rw [saving_append, hsaving, saving, hlatest]
    rfl

end

abbrev printedNumbers : DecimalNumbers :=
  { wholeNumbers with
    stringValue a := if a.den = 1 ∧ 0 ≤ a.num then Nat.toDigits 10 a.num.toNat else ['?'] }

theorem decimalNumber_of_isDigits {s : Text} (h : IsDigits s) : decimalNumber s = decimalValue s := by
  have hunsigned : unsigned s = s := by
    unfold unsigned
    split
    · exact absurd (h '-' List.mem_cons_self) (by decide)
    · rfl
  have hhead : s.head? ≠ some '-' := by
    intro hhead
    exact absurd (h '-' (List.mem_of_head? hhead)) (by decide)
  rw [decimalNumber, hunsigned, if_neg hhead, List.takeWhile_eq_self_iff.mpr h, List.dropWhile_eq_nil_iff.mpr h]
  simp [decimalValue]

theorem printedNumbers_exact : @ExactDecimals printedNumbers :=
  letI := printedNumbers
  { value_empty := rfl
    value_exact := by
      intro s q hq _
      by_cases hs : s = []
      · subst hs
        cases hq
        exact decimalNumber_nil.symm
      · have hvalue := value_of_metricsDecimalNumber hq hs
        change (if !s.isEmpty && s.all Char.isDigit then some (decimalValue s : ℚ) else none) = some q at hvalue
        split at hvalue
        · rename_i hdigits
          cases hvalue
          have hall := List.all_eq_true.mp (Bool.and_eq_true_iff.mp hdigits).2
          exact (decimalNumber_of_isDigits hall).symm
        · cases hvalue
    add_exact := by
      intro a b sum hsum _
      cases hsum
      rfl
    stringValue_exact := by
      intro q _ hread
      change metricsDecimalNumber (if q.den = 1 ∧ 0 ≤ q.num then _ else _) ≠ none at hread
      change decimalNumber (if q.den = 1 ∧ 0 ≤ q.num then _ else _) = q
      split at hread
      · rename_i hwhole
        rw [if_pos hwhole, decimalNumber_of_isDigits (isDigits_toDigits _), decimalValue_toDigits]
        have hnum : ((q.num.toNat : ℤ) : ℚ) = q.num := by rw [Int.toNat_of_nonneg hwhole.2]
        rw [← Int.cast_natCast, hnum]
        exact Rat.coe_int_num_of_den_eq_one hwhole.1
      · exact absurd rfl hread }

section

attribute [local instance] precomposedText printedNumbers

def sampleCall (tokenAmount : String) : StatisticsCall where
  event := ⟨1, ['_'], tokenAmount.toList, [], ['7'], []⟩
  config := sampleSource
  uId := ['u']
  date := ['d']
  works := true

def sampleCalls : List StatisticsCall := [sampleCall "5", sampleCall "x", sampleCall "20"]

theorem statistics_are_exact_sums_sample :
    ∃ row, (saving sampleCalls .empty).1.find? (sampleCall "5").key = some row ∧ row.count = some 2 ∧
      (∀ i, row.bucket i = some (if i = 1 ∨ i = 2 then 1 else 0)) ∧
      ∃ latest, saving (sampleCalls ++ [sampleCall "3"]) .empty =
        (latest, (saving sampleCalls .empty).2 ++ [sampleCall "3"]) := by
  obtain ⟨_, hrow, _, hsaved⟩ := @statistics_are_exact_sums _ _ printedNumbers_exact (sampleCall "5").key .empty rfl
    sampleCalls (by decide) (saving sampleCalls .empty).1 (saving sampleCalls .empty).2 rfl
  have hlength : (saving sampleCalls .empty).2.length = 2 := by decide +kernel
  have hcounted : ∀ call ∈ (saving sampleCalls .empty).2,
      call.counted = true ∧ (call.amount = 5 ∨ call.amount = 20) := by decide +kernel
  have hcounts : ∀ i : Fin 9, ((saving sampleCalls .empty).2.countP fun call => decide (InBucket i call.amount)) =
      if i = 1 ∨ i = 2 then 1 else 0 := by decide +kernel
  have hsums : ((saving sampleCalls .empty).1.find? (sampleCall "5").key).all fun row : TransactionRow =>
      totals.all fun total => (decimalNumberByAdding ((total.2 row).getD []) (total.1 (sampleCall "3").event)).isSome := by
    decide +kernel
  have hincrements : ∀ i : Fin 9, ((sampleCall "3").increment i).toInt ≤ 1 := by decide +kernel
  have hnumbers : ∀ number ∈ StatisticsCall.numbers (sampleCall "3").event, metricsDecimalNumber number ≠ none := by
    decide +kernel
  obtain ⟨row, hfound, htally, hbuckets⟩ := hrow (by
    intro hempty
    rw [hempty] at hlength
    cases hlength)
  obtain ⟨count, hcount, hvalue⟩ := htally.count
  obtain rfl : count = 2 := Int64.toInt_inj.mp (by rw [hvalue, hlength]; rfl)
  have hbucket (i : Fin 9) : row.bucket i = some (if i = 1 ∨ i = 2 then 1 else 0) := by
    obtain ⟨hbucket, _⟩ := hbuckets (by
      intro call hcall
      obtain ⟨hcounted, hamount | hamount⟩ := hcounted call hcall
      · exact ⟨hcounted, 5, 0, by norm_num, by rw [hamount]; norm_num⟩
      · exact ⟨hcounted, 20, 0, by norm_num, by rw [hamount]; norm_num⟩)
    obtain ⟨count, hcount, hvalue⟩ := hbucket i
    rw [hcount, Option.some.injEq]
    apply Int64.toInt_inj.mp
    rw [hvalue, hcounts]
    split <;> rfl
  refine ⟨row, hfound, hcount, hbucket, hsaved (sampleCall "3") (by decide) rfl (by decide) ?_⟩
  rw [hfound] at hsums ⊢
  intro hrejection
  cases hrejection with
  | malformed hnumber h => exact hnumbers _ hnumber h
  | countOverflow hrow hstored h =>
    cases hrow
    rw [hcount] at hstored
    cases hstored
    exact absurd h (by decide)
  | @bucketOverflow stored i old hrow hstored _ h =>
    cases hrow
    rw [hbucket] at hstored
    cases hstored
    have hone := hincrements i
    split at h
    · have h1 : (1 : Int64).toInt = 1 := rfl
      omega
    · have h0 : (0 : Int64).toInt = 0 := rfl
      omega
  | sumOutOfRange hrow htotal h =>
    cases hrow
    have hsum := List.all_eq_true.mp hsums _ htotal
    rw [h] at hsum
    cases hsum

end

end TronlinkCore.Metrics

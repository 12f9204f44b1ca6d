import TronlinkCore.Metrics.Normalization

/-!
An asset row becomes dirty exactly when a balance changes: normalized balances
are equal when they denote one number.
-/

namespace TronlinkCore.Metrics

open Text

/-- Canonical equivalence tells ASCII texts apart. -/
class ExactAscii [CanonicalText] : Prop where
  eq_of_same : ∀ s t, isAscii s = true → isAscii t = true → CanonicalText.same s t = true → s = t

def PlainBalance (s : Text) : Prop := s = [] ∨ ∃ integer fraction, WritesDigits s integer fraction

def Changed (row : AssetRow) (model : AssetSyncModel) : Prop :=
  decimalNumber (row.trxBalance.getD []) ≠ decimalNumber (model.trxBalance.getD []) ∨
    decimalNumber (row.usdtBalance.getD []) ≠ decimalNumber (model.usdtBalance.getD []) ∨
    decimalNumber (row.usdBalance.getD []) ≠ decimalNumber (model.usdBalance.getD [])

structure PlainRow (row : AssetRow) : Prop where
  trx : PlainBalance (row.trxBalance.getD [])
  usdt : PlainBalance (row.usdtBalance.getD [])
  usd : PlainBalance (row.usdBalance.getD [])

structure PlainModel (model : AssetSyncModel) (trx usdt usd : Text) : Prop where
  trx : model.trxBalance = some trx ∧ PlainBalance trx
  usdt : model.usdtBalance = some usdt ∧ PlainBalance usdt
  usd : model.usdBalance = some usd ∧ PlainBalance usd

section

variable [Graphemes]

theorem PlainBalance.normalized {s : Text} (h : PlainBalance s) : ∃ integer fraction, IsDigits fraction ∧
    removeFloatSuffixZero s = shortest integer fraction ∧ decimalNumber s = denoted false integer fraction := by
  rcases h with rfl | ⟨integer, fraction, hwrites⟩
  · refine ⟨[], [], by simp [IsDigits], removeFloatSuffixZero_nil, ?_⟩
    rw [decimalNumber_nil]
    simp [denoted, decimalValue]
  · exact ⟨integer, fraction, hwrites.fraction_digits, removeFloatSuffixZero_eq hwrites,
      decimalNumber_of_writes hwrites⟩

theorem normalized_eq_iff {s t : Text} (hs : PlainBalance s) (ht : PlainBalance t) :
    removeFloatSuffixZero s = removeFloatSuffixZero t ↔ decimalNumber s = decimalNumber t := by
  obtain ⟨integer, fraction, hfraction, hclean, hvalue⟩ := hs.normalized
  obtain ⟨integer', fraction', hfraction', hclean', hvalue'⟩ := ht.normalized
  rw [hclean, hclean', hvalue, hvalue']
  constructor
  · intro hsame
    have hnumber := decimalNumber_of_writes (writesDigits_shortest integer hfraction)
    rw [hsame, decimalNumber_of_writes (writesDigits_shortest integer' hfraction'), denoted_shortest,
      denoted_shortest] at hnumber
    exact hnumber.symm
  · exact shortest_injective hfraction hfraction'

theorem PlainBalance.clean_writes {s : Text} (h : PlainBalance s) :
    ∃ integer fraction, WritesDigits (removeFloatSuffixZero s) integer fraction := by
  obtain ⟨integer, fraction, hfraction, hclean, _⟩ := h.normalized
  rw [hclean]
  exact ⟨_, _, writesDigits_shortest integer hfraction⟩

theorem PlainBalance.clean_ne {s : Text} (h : PlainBalance s) : (removeFloatSuffixZero s).isEmpty = false := by
  obtain ⟨integer, fraction, hwrites⟩ := h.clean_writes
  obtain ⟨c, rest, htext, _⟩ := digit_of_writes hwrites
  rw [htext]
  rfl

variable [CanonicalText] [ExactAscii]

theorem same_iff {s t : Text} (hs : PlainBalance s) (ht : PlainBalance t) :
    CanonicalText.same (removeFloatSuffixZero s) (removeFloatSuffixZero t) = true ↔
      decimalNumber s = decimalNumber t := by
  rw [← normalized_eq_iff hs ht]
  constructor
  · obtain ⟨_, _, hwrites⟩ := hs.clean_writes
    obtain ⟨_, _, hwrites'⟩ := ht.clean_writes
    exact ExactAscii.eq_of_same _ _ (isAscii_of_plain (plain_of_writes hwrites))
      (isAscii_of_plain (plain_of_writes hwrites'))
  · intro hsame
    rw [hsame]
    exact CanonicalText.same_refl _

theorem balancesDiffer_iff {row : AssetRow} {model : AssetSyncModel} {trx usdt usd : Text} (hrow : PlainRow row)
    (hmodel : PlainModel model trx usdt usd) : balancesDiffer row model = true ↔ Changed row model := by
  obtain ⟨htrx, hplainTrx⟩ := hmodel.trx
  obtain ⟨husdt, hplainUsdt⟩ := hmodel.usdt
  obtain ⟨husd, hplainUsd⟩ := hmodel.usd
  have differs {s t : Text} (hs : PlainBalance s) (ht : PlainBalance t) :
      (!CanonicalText.same (removeFloatSuffixZero s) (removeFloatSuffixZero t)) = true ↔
        decimalNumber s ≠ decimalNumber t := by
    rw [Bool.not_eq_true', Bool.eq_false_iff]
    exact not_congr (same_iff hs ht)
  simp only [balancesDiffer, Changed, htrx, husdt, husd, Option.getD_some, hrow.trx.clean_ne, hrow.usdt.clean_ne,
    hplainTrx.clean_ne, hplainUsdt.clean_ne, hplainUsd.clean_ne, Bool.not_false, Bool.true_and, Bool.or_eq_true,
    differs hrow.trx hplainTrx, differs hrow.usdt hplainUsdt, differs hrow.usd hplainUsd, or_assoc]

theorem dirty_iff_changed {table : AssetSyncTable} {model : AssetSyncModel} {row : AssetRow} {trx usdt usd : Text}
    (hfound : table.find? model.key = some row) (hrow : PlainRow row) (hmodel : PlainModel model trx usdt usd) :
    (Changed row model → ∃ later, upsertAssetSync_compareAndUpsert model true table = some later ∧
      later.find? model.key = some { row with
        idType := some (model.idType.getD 0)
        trxBalance := some trx
        usdtBalance := some usdt
        usdBalance := some usd
        updated := some 1 } ∧
      ∀ key, key ≠ model.key → later.find? key = table.find? key) ∧
    ∀ works, ¬ Changed row model ∨ works = false →
      (upsertAssetSync_compareAndUpsert model works table).getD table = table := by
  have hiff := balancesDiffer_iff hrow hmodel
  constructor
  · intro hchanged
    have hupsert : upsertAssetSync_compareAndUpsert model true table = some (table.update model.key
        (AssetRow.set (model.idType.getD 0) (copyAssetSyncModel model true)) (AssetRow.set_key _ _)) := by
      simp only [upsertAssetSync_compareAndUpsert, hfound, if_pos (hiff.mpr hchanged)]
      rw [if_pos trivial, updateAssetSync_internal, if_neg]
      rintro ⟨_, _, _, hupdated⟩
      cases hupdated
    refine ⟨_, hupsert, ?_, fun key hkey => Table.find?_update_of_ne hkey⟩
    rw [Table.find?_update_self, hfound, Option.map_some, AssetRow.set]
    simp only [copyAssetSyncModel, hmodel.trx.1, hmodel.usdt.1, hmodel.usd.1]
    rfl
  · intro works h
    rw [upsertAssetSync_compareAndUpsert, hfound]
    rcases h with hsame | rfl
    · dsimp only
      rw [if_neg fun hdiffer => hsame (hiff.mp hdiffer), ite_self]
      rfl
    · rfl

end

def sampleModel (trx usdt usd : String) (updated : Bool) : AssetSyncModel where
  uId := some "wallet".toList
  idType := some 1
  trxBalance := some trx.toList
  usdtBalance := some usdt.toList
  usdBalance := some usd.toList
  date := some "2000-01-01".toList
  chain := some "MainNet".toList
  updated := some updated

def sampleRow : AssetRow where
  uId := some "wallet".toList
  idType := some 1
  trxBalance := some "1".toList
  usdtBalance := some "10.50".toList
  usdBalance := some []
  date := some "2000-01-01".toList
  chain := some "MainNet".toList
  updated := some 0

def sampleAssets : AssetSyncTable := ⟨[sampleRow], List.pairwise_singleton _ _⟩

theorem exactAscii_precomposed : @ExactAscii precomposedText :=
  @ExactAscii.mk precomposedText fun _ _ _ _ h => of_decide_eq_true h

/-- A respelling alone leaves the row as it is; a dollar balance that was empty makes it dirty. -/
theorem dirty_iff_changed_sample : ∃ later,
    @upsertAssetSync_compareAndUpsert precomposedText plainText (sampleModel "01.0" "10.5" "3" false) true sampleAssets =
      some later ∧
    later.find? (sampleModel "01.0" "10.5" "3" false).key = some { sampleRow with
      trxBalance := some "01.0".toList
      usdtBalance := some "10.5".toList
      usdBalance := some "3".toList
      updated := some 1 } := by
  have whole (s : Text) (hne : s ≠ []) (hdigits : IsDigits s) : PlainBalance s :=
    .inr ⟨s, [], .inl ⟨rfl, rfl⟩, hne, hdigits, nofun⟩
  have broken (integer fraction : Text) (hne : integer ≠ [] ∧ fraction ≠ [])
      (hdigits : IsDigits (integer ++ fraction)) : PlainBalance (integer ++ '.' :: fraction) :=
    .inr ⟨integer, fraction, .inr ⟨rfl, hne.2⟩, hne.1, (isDigits_append.mp hdigits).1, (isDigits_append.mp hdigits).2⟩
  have digits {s : Text} (h : s.all Char.isDigit = true) : IsDigits s := List.all_eq_true.mp h
  have hrow : PlainRow sampleRow := {
    trx := whole "1".toList (by decide) (digits rfl)
    usdt := broken "10".toList "50".toList (by decide) (digits rfl)
    usd := .inl rfl }
  have hmodel : PlainModel (sampleModel "01.0" "10.5" "3" false) "01.0".toList "10.5".toList "3".toList := {
    trx := ⟨rfl, broken "01".toList "0".toList (by decide) (digits rfl)⟩
    usdt := ⟨rfl, broken "10".toList "5".toList (by decide) (digits rfl)⟩
    usd := ⟨rfl, whole "3".toList (by decide) (digits rfl)⟩ }
  have hchanged : Changed sampleRow (sampleModel "01.0" "10.5" "3" false) := by
    have hthree : decimalNumber "3".toList = 3 := by
      have hvalue : decimalValue "3".toList = 3 := rfl
      rw [decimalNumber_of_writes ⟨.inl ⟨rfl, rfl⟩, by decide, digits rfl, nofun⟩, denoted, hvalue]
      norm_num [decimalValue]
    right
    right
    change decimalNumber [] ≠ decimalNumber "3".toList
    rw [decimalNumber_nil, hthree]
    norm_num
  obtain ⟨later, hlater, hstored, _⟩ :=
    (@dirty_iff_changed plainText precomposedText exactAscii_precomposed sampleAssets _ sampleRow _ _ _ rfl hrow hmodel).1
      hchanged
  exact ⟨later, hlater, hstored⟩

end TronlinkCore.Metrics

import TronlinkCore.Wallet.Base58Spec
import TronlinkCore.Wallet.Signing

namespace TronlinkCore.Wallet

open Exceptions Text Keystore Throwing

theorem newSignature_eq_ok {result : Except Failure (List UInt8)} {data : List UInt8}
    (h : newSignature result = .ok data) : ∃ signature, result = .ok signature ∧ data = withoutOffset signature := by
  cases result with
  | error failure => cases h
  | ok signature =>
    rw [newSignature] at h
    split at h
    · cases h
      exact ⟨signature, rfl, rfl⟩
    · cases h

section

variable [Secp256k1] [Crypto] [Graphemes]

variable {hash signer : List UInt8}

theorem note_duplicateIndexes (value : List UInt8) (index : ℕ) (inspection : Inspection) (values : List Object) :
    (inspection.note signer value index).duplicateIndexes ++
        repeats (signerOf hash) ((inspection.note signer value index).seenSigners.image some) (index + 1) values =
      inspection.duplicateIndexes ++
        if some value ∈ inspection.seenSigners.image some then
          index :: repeats (signerOf hash) (inspection.seenSigners.image some) (index + 1) values
        else repeats (signerOf hash) (insert (some value) (inspection.seenSigners.image some)) (index + 1) values := by
  have hmem : some value ∈ inspection.seenSigners.image some ↔ value ∈ inspection.seenSigners := by simp
  by_cases hseen : value ∈ inspection.seenSigners
  · rw [if_pos (hmem.mpr hseen)]
    simp only [Inspection.note, if_pos hseen, Finset.insert_eq_of_mem hseen, List.append_assoc, List.singleton_append]
  · rw [if_neg (fun h => hseen (hmem.mp h))]
    simp only [Inspection.note, if_neg hseen, Finset.image_insert]

theorem inspect_eq (signer : List UInt8) {values : List Object} (hvalid : ∀ value ∈ values, (signerOf hash value).isSome)
    (inspection : Inspection) (index : ℕ) : ∃ found, inspect hash signer inspection index values = some found ∧
      found.duplicateIndexes =
        inspection.duplicateIndexes ++ repeats (signerOf hash) (inspection.seenSigners.image some) index values ∧
      (found.alreadySigned = true ↔ inspection.alreadySigned = true ∨ some signer ∈ values.map (signerOf hash)) := by
  induction values generalizing inspection index with
  | nil => exact ⟨inspection, rfl, (List.append_nil _).symm, by simp⟩
  | cons value values ih =>
    obtain ⟨recovered, hrecovered⟩ := Option.isSome_iff_exists.mp (hvalid value List.mem_cons_self)
    obtain ⟨found, hfound, hduplicates, hsigned⟩ := ih (fun v hv => hvalid v (List.mem_cons_of_mem value hv))
      (inspection.note signer recovered index) (index + 1)
    refine ⟨found, ?_, ?_, ?_⟩
    · rw [inspect, hrecovered]
      exact hfound
    · rw [hduplicates, note_duplicateIndexes, repeats, hrecovered]
    · rw [hsigned, List.map_cons, List.mem_cons, hrecovered, Option.some.injEq]
      change (inspection.alreadySigned || decide (recovered = signer)) = true ∨ _ ↔ _
      rw [Bool.or_eq_true, decide_eq_true_eq, or_assoc, eq_comm (a := recovered)]

theorem valid_of_inspect {values : List Object} {inspection found : Inspection} {index : ℕ}
    (h : inspect hash signer inspection index values = some found) : ∀ value ∈ values, (signerOf hash value).isSome := by
  induction values generalizing inspection index with
  | nil => exact fun _ hv => absurd hv List.not_mem_nil
  | cons value values ih =>
    rw [inspect, Option.bind_eq_bind, Option.bind_eq_some_iff] at h
    obtain ⟨recovered, hrecovered, h⟩ := h
    intro v hv
    rcases List.mem_cons.mp hv with rfl | hv
    · rw [hrecovered]
      rfl
    · exact ih h v hv

structure Signed (hash signer : List UInt8) (before after : List Object) : Prop where
  count : after.length ≤ 5
  valid : ∀ value ∈ after, (signerOf hash value).isSome
  distinct : (after.map (signerOf hash)).Nodup
  once : (after.map (signerOf hash)).count (some signer) = 1
  kept : ∃ added, after = firsts (signerOf hash) ∅ before ++ added ∧ ∀ value ∈ added, value ∉ before

theorem Signed.of_firsts {before : List Object} (hcount : before.length ≤ 5)
    (hvalid : ∀ value ∈ before, (signerOf hash value).isSome) (hsigned : some signer ∈ before.map (signerOf hash)) :
    Signed hash signer before (firsts (signerOf hash) ∅ before) := by
  have hsub := firsts_sublist (signerOf hash) ∅ before
  have hnodup := nodup_map_firsts (signerOf hash) ∅ before
  have hmem : some signer ∈ (firsts (signerOf hash) ∅ before).map (signerOf hash) :=
    (mem_map_firsts _ _ _ _).mpr ⟨hsigned, Finset.notMem_empty _⟩
  refine ⟨?_, fun value hv => hvalid value (hsub.subset hv), hnodup, List.count_eq_one_of_mem hnodup hmem, [], ?_, ?_⟩
  · exact hsub.length_le.trans hcount
  · rw [List.append_nil]
  · exact fun value hv => absurd hv List.not_mem_nil

theorem Signed.of_new {before : List Object} {value : Object}
    (hvalid : ∀ value ∈ before, (signerOf hash value).isSome) (hcount : (firsts (signerOf hash) ∅ before).length < 5)
    (hunsigned : some signer ∉ before.map (signerOf hash)) (hvalue : signerOf hash value = some signer) :
    Signed hash signer before (firsts (signerOf hash) ∅ before ++ [value]) := by
  have hsub := firsts_sublist (signerOf hash) ∅ before
  have hn : some signer ∉ (firsts (signerOf hash) ∅ before).map (signerOf hash) :=
    fun h => hunsigned ((mem_map_firsts _ _ _ _).mp h).1
  have hnodup : ((firsts (signerOf hash) ∅ before ++ [value]).map (signerOf hash)).Nodup := by
    rw [List.map_append, List.map_singleton, hvalue, List.nodup_append_comm, List.singleton_append, List.nodup_cons]
    exact ⟨hn, nodup_map_firsts _ _ _⟩
  refine ⟨?_, ?_, hnodup, ?_, [value], rfl, ?_⟩
  · rw [List.length_append, List.length_singleton]
    exact hcount
  · intro v hv
    rcases List.mem_append.mp hv with hv | hv
    · exact hvalid v (hsub.subset hv)
    · rw [List.mem_singleton.mp hv, hvalue]
      rfl
  · apply List.count_eq_one_of_mem hnodup
    rw [List.map_append, List.map_singleton, hvalue]
    exact List.mem_append_right _ (List.mem_singleton.mpr rfl)
  · intro v hv hbefore
    rw [List.mem_singleton.mp hv] at hbefore
    exact hunsigned (hvalue ▸ List.mem_map_of_mem hbefore)

section

variable [Digest] {transaction : TronTransaction} {address dappChainId : Text} {account : Account}
  {accounts : List Account}

theorem prepare_eq_ok {found : Inspection} :
    prepare accounts transaction address dappChainId = .ok (account, hash, found) ↔
      transaction.signatureArray.length ≤ 5 ∧
        accounts.find? (fun account => addressString account.address.data = address) = some account ∧
        signingHash transaction.rawData dappChainId = .ok hash ∧
        inspect hash (accountSigner account) .empty 0 transaction.signatureArray = some found := by
  unfold prepare
  split
  · rename_i hlong
    constructor
    · exact fun h => absurd h (by simp)
    · exact fun h => absurd h.1 (Nat.not_le.mpr hlong)
  · rename_i hlong
    simp only [except_bind_eq_ok, unlessNone_eq_ok, Except.ok.injEq, Prod.mk.injEq]
    constructor
    · rintro ⟨_, haccount, _, hhash, _, hinspect, rfl, rfl, rfl⟩
      exact ⟨Nat.not_lt.mp hlong, haccount, hhash, hinspect⟩
    · rintro ⟨_, haccount, hhash, hinspect⟩
      exact ⟨account, haccount, hash, hhash, found, hinspect, rfl, rfl, rfl⟩

theorem prepare_signed {before : List Object} (haccount : accounts.find? (fun account =>
    addressString account.address.data = address) = some account)
    (hhash : signingHash transaction.rawData dappChainId = .ok hash)
    (h : Signed hash (accountSigner account) before transaction.signatureArray) :
    ∃ found, prepare accounts transaction address dappChainId = .ok (account, hash, found) ∧
      found.alreadySigned = true ∧ found.duplicateIndexes = [] := by
  obtain ⟨found, hfound, hduplicates, hsigned⟩ := inspect_eq (accountSigner account) h.valid .empty 0
  refine ⟨found, prepare_eq_ok.mpr ⟨h.count, haccount, hhash, hfound⟩, ?_, ?_⟩
  · apply hsigned.mpr
    right
    rw [← List.count_pos_iff, h.once]
    exact Nat.one_pos
  · have hlength := length_firsts_add_repeats (signerOf hash) ∅ 0 transaction.signatureArray
    rw [firsts_of_nodup _ h.distinct fun _ _ => Finset.notMem_empty _] at hlength
    rw [hduplicates]
    exact List.eq_nil_of_length_eq_zero (by simpa [Inspection.empty] using hlength)

end

variable [Digest] {Document : Type} [JsonCoder Document]

structure SignCall (Document : Type) where
  keyStore : Session Document
  password : Text
  address : Text
  dappChainId : Text

namespace SignCall

def perform (call : SignCall Document) (transaction : TronTransaction) :
    Outcome (Except KeystoreError Unit × TronTransaction) :=
  signTranscation call.keyStore transaction call.password call.address call.dappChainId

def Signs (call : SignCall Document) : Prop := ∀ account ∈ listedAccounts call.keyStore, ∀ hash signature,
  (signHash hash account call.password (retried call.keyStore)).1 = .ok signature →
    ∃ address, Web3Utils.hashECRecover hash signature = some address ∧ address.addressData = accountSigner account

end SignCall

inductive SignRun (Document : Type) [JsonCoder Document] (transaction : TronTransaction) : TronTransaction → Prop where
  | start : SignRun Document transaction transaction
  | call {t u : TronTransaction} (call : SignCall Document) {result : Except KeystoreError Unit} :
    SignRun Document transaction t → call.Signs → call.perform t = .ok (result, u) → SignRun Document transaction u

theorem perform_signs {call : SignCall Document} (hsigns : call.Signs) (t : TronTransaction) :
    ∃ result after, call.perform t = .ok (result, after) ∧ after.rawData = t.rawData ∧
      (∀ error, result = .error error → after = t) ∧
      (result = .ok () → ∃ account ∈ listedAccounts call.keyStore, ∃ hash,
        addressString account.address.data = call.address ∧ signingHash t.rawData call.dappChainId = .ok hash ∧
        Signed hash (accountSigner account) t.signatureArray after.signatureArray ∧
        call.perform after = .ok (.ok (), after)) := by
  rw [SignCall.perform, signTranscation]
  cases hprepare : prepare (listedAccounts call.keyStore) t call.address call.dappChainId with
  | error error => exact ⟨_, t, rfl, rfl, fun _ _ => rfl, fun h => absurd h (by simp)⟩
  | ok prepared =>
    obtain ⟨account, hash, found⟩ := prepared
    obtain ⟨hcount, haccount, hhash, hinspect⟩ := prepare_eq_ok.mp hprepare
    have hvalid := valid_of_inspect hinspect
    have hmem := List.mem_of_find?_eq_some haccount
    have haddress : addressString account.address.data = call.address := by
      simpa using List.find?_some haccount
    obtain ⟨found', hfound, hduplicates, hsigned⟩ := inspect_eq (accountSigner account) hvalid .empty 0
    rw [hinspect, Option.some.injEq] at hfound
    subst hfound
    have hremove : removeEach found.duplicateIndexes t.signatureArray =
        .ok (firsts (signerOf hash) ∅ t.signatureArray) := by
      rw [hduplicates]
      exact removeEach_repeats (signerOf hash) ∅ [] t.signatureArray
    have hlength : (firsts (signerOf hash) ∅ t.signatureArray).length =
        t.signatureArray.length - found.duplicateIndexes.length := by
      have hall := length_firsts_add_repeats (signerOf hash) ∅ 0 t.signatureArray
      rw [hduplicates, ← hall]
      exact (Nat.add_sub_cancel _ _).symm
    -- Whatever the signatures are now, the same call leaves them as they are.
    have hagain : ∀ after : TronTransaction, after.rawData = t.rawData →
        Signed hash (accountSigner account) t.signatureArray after.signatureArray →
        call.perform after = .ok (.ok (), after) := by
      intro after hraw h
      obtain ⟨_, hprepared, halready, hnone⟩ := prepare_signed haccount (hraw ▸ hhash) h
      rw [SignCall.perform, signTranscation, hprepared]
      dsimp only
      rw [if_pos halready, hnone]
      rfl
    dsimp only
    split
    · rename_i halready
      have hfirsts := Signed.of_firsts hcount hvalid (hsigned.mp halready |>.resolve_left Bool.false_ne_true)
      rw [hremove]
      refine ⟨_, _, rfl, rfl, fun _ h => absurd h (by simp), fun _ => ?_⟩
      exact ⟨account, hmem, hash, haddress, hhash, hfirsts, hagain _ rfl hfirsts⟩
    · rename_i halready
      split
      · rename_i hfew
        cases hnew : newSignature (signHash hash account call.password (retried call.keyStore)).1 with
        | error error => exact ⟨_, t, rfl, rfl, fun _ _ => rfl, fun h => absurd h (by simp)⟩
        | ok data =>
          obtain ⟨signature, hsignature, rfl⟩ := newSignature_eq_ok hnew
          obtain ⟨recovered, hrecovered, hdata⟩ := hsigns account hmem hash signature hsignature
          have hvalue : signerOf hash (.data (withoutOffset signature)) = some (accountSigner account) := by
            change (Web3Utils.hashECRecover hash (withoutOffset signature) >>= fun address => some address.addressData) = _
            rw [hashECRecover_withoutOffset hrecovered]
            exact congrArg some hdata
          have hadded := Signed.of_new hvalid (hlength ▸ hfew) (fun h => halready (hsigned.mpr (.inr h))) hvalue
          dsimp only
          rw [hremove]
          refine ⟨_, _, rfl, rfl, fun _ h => absurd h (by simp), fun _ => ?_⟩
          exact ⟨account, hmem, hash, haddress, hhash, hadded, hagain _ rfl hadded⟩
      · exact ⟨_, t, rfl, rfl, fun _ _ => rfl, fun h => absurd h (by simp)⟩

theorem SignRun.rawData {transaction t : TronTransaction} (h : SignRun Document transaction t) :
    t.rawData = transaction.rawData := by
  induction h with
  | start => rfl
  | call call _ hsigns hperform ih =>
    obtain ⟨_, _, hperform', hraw, _⟩ := perform_signs hsigns _
    rw [hperform, Outcome.ok.injEq, Prod.mk.injEq] at hperform'
    rw [hperform'.2, hraw, ih]

theorem signers_distinct {transaction t : TronTransaction} (hrun : SignRun Document transaction t)
    {call : SignCall Document} (hsigns : call.Signs) :
    ∃ result after, call.perform t = .ok (result, after) ∧ after.rawData = transaction.rawData ∧
      (∀ error, result = .error error → after = t) ∧
      (result = .ok () → ∃ account ∈ listedAccounts call.keyStore, ∃ hash,
        addressString account.address.data = call.address ∧ signingHash t.rawData call.dappChainId = .ok hash ∧
        Signed hash (accountSigner account) t.signatureArray after.signatureArray ∧
        call.perform after = .ok (.ok (), after)) := by
  obtain ⟨result, after, hperform, hraw, hrest⟩ := perform_signs hsigns t
  exact ⟨result, after, hperform, hraw.trans hrun.rawData, hrest⟩

end

section

def sampleHash : List UInt8 := BigEndian.toBytes 32 0x89389ee14c6495d62c5c4d1ab627f415099e5101e21cc66af492011f88adf1c4

def sampleSignature : List UInt8 :=
  BigEndian.toBytes 64 0x75e70e2b6153e8040e7b58ad3d3bc7546e1232ca7319b27c59a65188abd4746d1d7f633007a75d29dadd3ed4a5f039aeebd2d2e96c59de2263f9e95960ea68b6

@[reducible]
def knownSignature : Secp256k1 where
  signDigest privateKey hash :=
    if BigEndian.ofBytes privateKey = 1 ∧ hash = sampleHash then some (sampleSignature, 0) else none
  recoverPubFromSig signature hash recoveryID :=
    if signature = sampleSignature ∧ hash = sampleHash ∧ recoveryID = 0 then
      some (4 :: BigEndian.toBytes 64 KnownAnswers.generator)
    else none
  uncompressPubkey _ := none

attribute [local instance] knownAnswers plainFiles plainText knownSignature knownDigests

def sampleTransaction : TronTransaction := ⟨⟨some [0x5a, 0], some 1⟩, []⟩

def sampleCall : SignCall (Option Json) where
  keyStore := KeyStore.opened "keystore".toList sampleDisk []
  password := "p".toList
  address := addressString sampleKey.address.data
  dappChainId := []

theorem sampleCall_signs : sampleCall.Signs := by
  have hlisted : listedAccounts sampleCall.keyStore = [sampleAccount] := by decide +kernel
  intro account haccount hash signature h
  rw [hlisted, List.mem_singleton] at haccount
  subst haccount
  by_cases hhash : hash = sampleHash
  · subst hhash
    have hsignature : (signHash sampleHash sampleAccount sampleCall.password (retried sampleCall.keyStore)).1 =
        .ok (sampleSignature ++ [0]) := by decide +kernel
    rw [hsignature, Except.ok.injEq] at h
    subst h
    exact ⟨_, rfl, by decide +kernel⟩
  · obtain ⟨_, privateKey, _, _, hsign, hlength⟩ := signHash_eq_ok h
    have hnone : Secp256k1.signDigest privateKey hash = none := if_neg fun hc => hhash hc.2
    rw [← hsign, EthereumCrypto.sign, hnone] at hlength
    split at hlength
    · cases hlength
    · cases hlength

theorem signers_distinct_sample : ∃ after, sampleCall.perform sampleTransaction = .ok (.ok (), after) ∧
    sampleCall.perform after = .ok (.ok (), after) := by
  obtain ⟨result, after, hperform, _, _, hok⟩ := signers_distinct
    (.start : SignRun (Option Json) sampleTransaction sampleTransaction) sampleCall_signs
  have hdone : (sampleCall.perform sampleTransaction).toOption.any (fun r => r.1.toBool) = true := by decide +kernel
  have hresult : result = .ok () := by
    rw [hperform] at hdone
    cases result with
    | ok u => rfl
    | error error => cases hdone
  obtain ⟨_, _, _, _, _, _, hagain⟩ := hok hresult
  exact ⟨after, hresult ▸ hperform, hagain⟩

end

end TronlinkCore.Wallet

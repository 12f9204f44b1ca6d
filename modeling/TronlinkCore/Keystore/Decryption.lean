import TronlinkCore.Keystore.KeystoreKey
import TronlinkCore.Keystore.ScryptSpec

/-!
`decrypt` of a key that comes from outside, with each operation that can stop
the program. None of them does.
-/

namespace TronlinkCore.Keystore

open Exceptions Outcome MachineInt Text

def Ends {α : Type} (x : Fallible α) : Prop := ∃ result : Except Failure α, x = ExceptT.mk (ok result)

namespace CipherParams

/-- The counter in the last eight bytes of the vector does not overflow: the first block uses it as it is,
and each further block adds one. -/
def CounterFits (iv : List UInt8) (byteCount : ℕ) : Prop :=
  iv.length = 16 ∧ BigEndian.ofBytes (iv.drop 8) + ((byteCount + 15) / 16 - 1) ≤ 2 ^ 64 - 1

def counter (iv : List UInt8) : UInt64 := (iv.drop (iv.length - 8)).foldl (fun c b => (c <<< 8) ||| b.toUInt64) 0

/-- `validateCTRCapacity` with each operation on integers as the processor runs it -/
def validatingCTRCapacity (params : CipherParams) (byteCount : ℕ) : Fallible Unit :=
  if params.iv.length ≠ blockSize then throw .invalidInitializationVector
  else if ¬ 0 < byteCount then pure ()
  else do
    let last ← subInt byteCount 1
    check (last / blockSize < uint64Size)
    let room ← subInt (uint64Size - 1) (counter params.iv).toNat
    if last / blockSize ≤ room then pure () else throw .invalidInitializationVector

end CipherParams

/-- `AES(key:blockMode:padding:).decrypt` without padding -/
class CipherHost where
  decryptCTR : List UInt8 → List UInt8 → List UInt8 → Fallible (List UInt8)
  decryptCBC : List UInt8 → List UInt8 → List UInt8 → Fallible (List UInt8)
  decryptCTR_ends : ∀ key iv bytes : List UInt8, key.length = 16 → CipherParams.CounterFits iv bytes.length →
    Ends (decryptCTR key iv bytes)
  decryptCBC_ends : ∀ key iv bytes : List UInt8, key.length = 16 → Ends (decryptCBC key iv bytes)

/-- What an address can reach, which a `Data` does not exceed -/
def addressSpace : ℕ := 2 ^ 48

structure ReceivedKey where
  key : KeystoreKey
  cipherText_length : key.crypto.cipherText.length ≤ addressSpace

namespace ReceivedKey

def slice (data : List UInt8) (lower upper : ℕ) : Outcome (List UInt8) :=
  if lower ≤ upper ∧ upper ≤ data.length then ok (Windows.window data lower (upper - lower)) else trap

/-- The comparison of the hashes, through the base addresses that an empty `Data` lacks -/
def macMatches (mac expected : List UInt8) : Outcome Bool :=
  if mac.length ≠ expected.length then ok false
  else do
    check (mac ≠ [] ∧ expected ≠ [])
    ok (mac = expected)

section

variable [Crypto]

def computeMAC (macPrefix cipherText : List UInt8) : Outcome (List UInt8) := do
  let _ ← addInt macPrefix.length cipherText.length
  ok (Crypto.keccak256 (macPrefix ++ cipherText))

variable [ScryptHost] [CipherHost]

def decipher (received : ReceivedKey) (decryptionKey : List UInt8) : Fallible (List UInt8) :=
  let crypto := received.key.crypto
  if crypto.cipher = "aes-128-ctr".toList then do
    crypto.cipherParams.validatingCTRCapacity crypto.cipherText.length
    CipherHost.decryptCTR decryptionKey crypto.cipherParams.iv crypto.cipherText
  else if crypto.cipher = "aes-128-cbc".toList then
    CipherHost.decryptCBC decryptionKey crypto.cipherParams.iv crypto.cipherText
  else throw (.decrypt .unsupportedCipher)

def decrypt (received : ReceivedKey) (password : Text) : Fallible (List UInt8) := do
  let crypto := received.key.crypto
  let derivedKey ←
    if crypto.kdf = "scrypt".toList then Scrypt.calculate crypto.kdfParams password
    else throw (.decrypt .unsupportedKDF)
  let lower ← subInt derivedKey.length 16
  let macPrefix ← slice derivedKey lower derivedKey.length
  let mac ← computeMAC macPrefix crypto.cipherText
  let isMatch ← macMatches mac crypto.mac
  if isMatch = false then throw (.decrypt .invalidPassword)
  else do
    let decryptionKey ← slice derivedKey 0 16
    received.decipher decryptionKey

end

end ReceivedKey

section

variable {α β : Type} {x : Fallible α} {f : α → Fallible β}

theorem Ends.pure (a : α) : Ends (Pure.pure a : Fallible α) := ⟨.ok a, rfl⟩

theorem Ends.throw (failure : Failure) : Ends (throw failure : Fallible α) := ⟨.error failure, rfl⟩

theorem Ends.bind (hx : Ends x) (hf : ∀ a, x = Pure.pure a → Ends (f a)) : Ends (x >>= f) := by
  obtain ⟨result, rfl⟩ := hx
  cases result with
  | error failure => exact ⟨.error failure, rfl⟩
  | ok a => exact hf a rfl

end

namespace CipherParams

theorem toNat_fold (bs : List UInt8) (h : bs.length ≤ 8) :
    (bs.foldl (fun (c : UInt64) b => (c <<< 8) ||| b.toUInt64) 0).toNat = BigEndian.ofBytes bs := by
  induction bs using List.reverseRecOn with
  | nil => rfl
  | append_singleton bs b ih =>
    rw [List.length_append, List.length_singleton] at h
    have hlt : BigEndian.ofBytes bs < 256 ^ 7 :=
      (BigEndian.ofBytes_lt bs).trans_le (Nat.pow_le_pow_right (by decide) (by omega))
    have hb : b.toNat < 2 ^ 8 := b.toNat_lt
    have hshift : BigEndian.ofBytes bs <<< 8 < 2 ^ 64 := by
      rw [Nat.shiftLeft_eq]
      omega
    rw [List.foldl_append, List.foldl_cons, List.foldl_nil, UInt64.toNat_or, UInt64.toNat_shiftLeft, ih (by omega),
      BigEndian.ofBytes_append, BigEndian.ofBytes_singleton]
    change (BigEndian.ofBytes bs <<< 8) % 2 ^ 64 ||| b.toNat = _
    rw [Nat.mod_eq_of_lt hshift, ← Nat.shiftLeft_add_eq_or_of_lt hb, Nat.shiftLeft_eq, List.length_singleton, pow_one]

variable {params : CipherParams} {byteCount : ℕ}

theorem toNat_counter (h : params.iv.length = blockSize) :
    (counter params.iv).toNat = BigEndian.ofBytes (params.iv.drop 8) := by
  have hdrop : params.iv.length - 8 = 8 := by rw [h]; rfl
  rw [counter, hdrop, toNat_fold]
  rw [List.length_drop, h]
  decide

theorem validatingCTRCapacity_eq (h : byteCount ≤ addressSpace) :
    params.validatingCTRCapacity byteCount = ExceptT.mk (ok (params.validateCTRCapacity byteCount)) := by
  have hspace : addressSpace = 2 ^ 48 := rfl
  have huint : uint64Size = 2 ^ 64 := rfl
  by_cases hiv : params.iv.length = blockSize
  · rw [validatingCTRCapacity, if_neg (not_not.mpr hiv)]
    by_cases hpos : 0 < byteCount
    · have hlast : (byteCount - 1) / blockSize < uint64Size := by
        rw [blockSize]
        omega
      have hcounter := UInt64.toNat_lt (counter params.iv)
      rw [if_neg (not_not.mpr hpos), Scrypt.liftM_ok_bind (subInt_of_le hpos), Scrypt.liftM_ok_bind (check_true hlast),
        Scrypt.liftM_ok_bind (subInt_of_le (by omega)), toNat_counter hiv, validateCTRCapacity, guardThat]
      by_cases hfits : (byteCount - 1) / blockSize ≤ uint64Size - 1 - BigEndian.ofBytes (params.iv.drop 8)
      · rw [if_pos hfits, if_pos ⟨hiv, fun _ => hfits⟩]
        rfl
      · rw [if_neg hfits, if_neg fun hc => hfits (hc.2 hpos)]
        rfl
    · rw [if_pos hpos, validateCTRCapacity, guardThat, if_pos ⟨hiv, fun hc => absurd hc hpos⟩]
      rfl
  · rw [validatingCTRCapacity, if_pos hiv, validateCTRCapacity, guardThat, if_neg fun hc => hiv hc.1]
    rfl

theorem counterFits_of_capacity (h : params.validateCTRCapacity byteCount = .ok ()) :
    CounterFits params.iv byteCount := by
  have hcapacity : params.HasCTRCapacity byteCount := guardThat_eq_ok.mp h
  have hlt := BigEndian.ofBytes_lt (params.iv.drop 8)
  rw [List.length_drop, hcapacity.1] at hlt
  refine ⟨hcapacity.1, ?_⟩
  rcases Nat.eq_zero_or_pos byteCount with rfl | hpos
  · have hlast : BigEndian.ofBytes (params.iv.drop 8) < 2 ^ 64 := hlt
    omega
  · have hroom := hcapacity.2 hpos
    rw [blockSize] at hroom hlt
    have hlast : BigEndian.ofBytes (params.iv.drop 8) < 2 ^ 64 := hlt
    omega

end CipherParams

namespace ReceivedKey

theorem slice_first {data : List UInt8} {count : ℕ} (h : count ≤ data.length) : slice data 0 count = ok (data.take count) := by
  rw [slice, if_pos ⟨Nat.zero_le _, h⟩]
  rfl

theorem slice_last {data : List UInt8} {lower : ℕ} (h : lower ≤ data.length) :
    slice data lower data.length = ok (data.drop lower) := by
  rw [slice, if_pos ⟨h, le_rfl⟩, Windows.window, List.take_of_length_le (List.length_drop ▸ le_rfl)]

theorem macMatches_eq {mac expected : List UInt8} (h : mac ≠ []) : macMatches mac expected = ok (decide (mac = expected)) := by
  by_cases hlen : mac.length = expected.length
  · have hne : expected ≠ [] := by
      rintro rfl
      exact h (List.length_eq_zero_iff.mp hlen)
    rw [macMatches, if_neg (not_not.mpr hlen), check_true ⟨h, hne⟩]
    rfl
  · have hdiffer : mac ≠ expected := fun heq => hlen (congrArg List.length heq)
    rw [macMatches, if_pos hlen, decide_eq_false hdiffer]

theorem decipher_ends [CipherHost] (received : ReceivedKey) {decryptionKey : List UInt8} (hkey : decryptionKey.length = 16) :
    Ends (received.decipher decryptionKey) := by
  rw [decipher]
  split
  · rw [CipherParams.validatingCTRCapacity_eq received.cipherText_length]
    apply Ends.bind ⟨_, rfl⟩
    intro _ hcapacity
    apply CipherHost.decryptCTR_ends _ _ _ hkey
    apply CipherParams.counterFits_of_capacity
    injection hcapacity
  · split
    · exact CipherHost.decryptCBC_ends _ _ _ hkey
    · exact Ends.throw _

section

variable [Crypto]

theorem computeMAC_eq {macPrefix cipherText : List UInt8} (h : macPrefix.length + cipherText.length ≤ intMax) :
    computeMAC macPrefix cipherText = ok (Crypto.keccak256 (macPrefix ++ cipherText)) := by
  rw [computeMAC, addInt_of_le h, ok_bind]

theorem keccak256_ne_nil (bytes : List UInt8) : Crypto.keccak256 bytes ≠ [] := by
  intro hnil
  have hlen := Crypto.keccak256_length bytes
  rw [hnil] at hlen
  cases hlen

variable [ScryptHost] [CipherHost] (received : ReceivedKey) (password : Text)

theorem decrypt_of_derived {derivedKey : List UInt8} (hkdf : received.key.crypto.kdf = "scrypt".toList)
    (hderived : Scrypt.calculate received.key.crypto.kdfParams password = pure derivedKey) (hlen : 32 ≤ derivedKey.length) :
    received.decrypt password =
      if Keystore.computeMAC derivedKey received.key.crypto.cipherText = received.key.crypto.mac then
        received.decipher (derivedKey.take 16)
      else throw (.decrypt .invalidPassword) := by
  have hspace := received.cipherText_length
  have hspaceEq : addressSpace = 2 ^ 48 := rfl
  have hmax : intMax = 9223372036854775807 := rfl
  have hcount : (derivedKey.drop (derivedKey.length - 16)).length + received.key.crypto.cipherText.length ≤ intMax := by
    rw [List.length_drop]
    omega
  rw [decrypt, if_pos hkdf, hderived, Scrypt.pure_bind]
  dsimp only
  rw [Scrypt.liftM_ok_bind (subInt_of_le (by omega)), Scrypt.liftM_ok_bind (slice_last (Nat.sub_le _ _)), Scrypt.liftM_ok_bind (computeMAC_eq hcount),
    Scrypt.liftM_ok_bind (macMatches_eq (keccak256_ne_nil _))]
  rw [Keystore.computeMAC]
  split
  · rename_i hmac
    rw [if_neg (of_decide_eq_false hmac)]
  · rename_i hmac
    rw [Bool.not_eq_false] at hmac
    rw [if_pos (of_decide_eq_true hmac), Scrypt.liftM_ok_bind (slice_first (by omega))]

theorem decrypt_of_error {error : ValidationError} (hkdf : received.key.crypto.kdf = "scrypt".toList)
    (herror : Scrypt.calculate received.key.crypto.kdfParams password = throw (.scrypt error)) :
    received.decrypt password = throw (.scrypt error) := by
  rw [decrypt, if_pos hkdf, herror]
  rfl

theorem decrypt_of_kdf (hkdf : received.key.crypto.kdf ≠ "scrypt".toList) :
    received.decrypt password = throw (.decrypt .unsupportedKDF) := by
  rw [decrypt, if_neg hkdf]
  rfl

theorem decrypt_ends : Ends (received.decrypt password) := by
  by_cases hkdf : received.key.crypto.kdf = "scrypt".toList
  · rcases Scrypt.calculate_cases received.key.crypto.kdfParams password with ⟨error, -, herror⟩ | ⟨derivedKey, -, hderived, hlen⟩
    · rw [decrypt_of_error _ _ hkdf herror]
      exact Ends.throw _
    · rw [decrypt_of_derived _ _ hkdf hderived hlen]
      split
      · apply decipher_ends
        rw [List.length_take]
        omega
      · exact Ends.throw _
  · rw [decrypt_of_kdf _ _ hkdf]
    exact Ends.throw _

/-- A key that comes from outside makes `decrypt` throw or return. The table of `scrypt` stays within its bound,
the key of the cipher and the prefix of the hash are different bytes, and a counter never overflows. -/
theorem decrypt_never_traps :
    Ends (received.decrypt password) ∧
      (received.key.crypto.kdfParams.validate = none →
        128 * received.key.crypto.kdfParams.r.toInt * received.key.crypto.kdfParams.n.toInt ≤ 512 * 1024 * 1024) ∧
      (∀ derivedKey, Scrypt.calculate received.key.crypto.kdfParams password = pure derivedKey →
        16 ≤ derivedKey.length - 16) ∧
      (received.key.crypto.cipherParams.validatingCTRCapacity received.key.crypto.cipherText.length = pure () →
        CipherParams.CounterFits received.key.crypto.cipherParams.iv received.key.crypto.cipherText.length) := by
  refine ⟨decrypt_ends received password, ?_, ?_, ?_⟩
  · intro h
    have haccepted := ScryptParams.accepted h
    have hr : 0 ≤ received.key.crypto.kdfParams.r.toInt := by
      have hpos := haccepted.r_pos
      omega
    have hn : 0 ≤ received.key.crypto.kdfParams.n.toInt := by
      have hpos := haccepted.n_pos
      omega
    rw [← Int.toNat_of_nonneg hr, ← Int.toNat_of_nonneg hn]
    exact_mod_cast haccepted.memory_le
  · intro derivedKey hderived
    rcases Scrypt.calculate_cases received.key.crypto.kdfParams password with ⟨error, -, herror⟩ | ⟨key, -, hkey, hlen⟩
    · rw [herror] at hderived
      cases hderived
    · rw [hkey] at hderived
      cases hderived
      omega
  · intro hcapacity
    rw [CipherParams.validatingCTRCapacity_eq received.cipherText_length] at hcapacity
    apply CipherParams.counterFits_of_capacity
    injection hcapacity

end

def knownMac : ℕ := 0xdaa5ee81887088bb100a6686f083d42621f0f525b4ce57aaf0210b9f624202ae

def sampleReceived : ReceivedKey where
  key :=
    { sampleKey with
      crypto :=
        { sampleKey.crypto with
          cipherText := BigEndian.toBytes 32 0xe32f1a7a1f684275e5139c9f26c148480ac92371a5cf74e721c7105bed8c156b
          kdfParams := Scrypt.sampleParams
          mac := BigEndian.toBytes 32 knownMac } }
  cipherText_length := by decide

@[reducible]
def smallAnswers : Crypto :=
  { knownAnswers with
    keccak256 := answer
      [(0x430047b8220eb6b40cccbe7f7e1aad9de32f1a7a1f684275e5139c9f26c148480ac92371a5cf74e721c7105bed8c156b, knownMac)]
    keccak256_length := fun _ => BigEndian.toBytes_length _ _ }

@[reducible]
def knownCiphers : CipherHost where
  decryptCTR _ _ bytes :=
    pure (masked (BigEndian.toBytes 32 0xe32f1a7a1f684275e5139c9f26c148480ac92371a5cf74e721c7105bed8c156a) bytes)
  decryptCBC _ _ _ := throw .aes
  decryptCTR_ends _ _ _ _ _ := Ends.pure _
  decryptCBC_ends _ _ _ _ := Ends.throw _

theorem decipher_sampleReceived :
    let _ := knownCiphers
    sampleReceived.decipher ((BigEndian.toBytes 32 Scrypt.KnownAnswers.key).take 16) = pure (BigEndian.toBytes 32 1) := by
  intro ciphers
  have hcapacity : sampleReceived.key.crypto.cipherParams.validateCTRCapacity sampleReceived.key.crypto.cipherText.length =
      .ok () := guardThat_of (by decide)
  have hplain : masked (BigEndian.toBytes 32 0xe32f1a7a1f684275e5139c9f26c148480ac92371a5cf74e721c7105bed8c156a)
      sampleReceived.key.crypto.cipherText = BigEndian.toBytes 32 1 := by decide +kernel
  have hcipher : sampleReceived.key.crypto.cipher = "aes-128-ctr".toList := rfl
  rw [decipher, if_pos hcipher, CipherParams.validatingCTRCapacity_eq sampleReceived.cipherText_length, hcapacity]
  rw [← hplain]
  rfl

theorem decrypt_never_traps_sample :
    let _ := smallAnswers
    let _ := Scrypt.knownHost
    let _ := knownCiphers
    Ends (sampleReceived.decrypt "p".toList) ∧
      sampleReceived.decrypt "p".toList = pure (BigEndian.toBytes 32 1) := by
  intro crypto host ciphers
  have hderived : Scrypt.calculate Scrypt.sampleParams "p".toList = pure (BigEndian.toBytes 32 Scrypt.KnownAnswers.key) := by
    rw [Scrypt.calculate_of_validate Scrypt.validate_sampleParams, Scrypt.scrypt_eq Scrypt.validate_sampleParams]
    exact congrArg pure Scrypt.scrypt_sampleParams
  have hmac : Keystore.computeMAC (BigEndian.toBytes 32 Scrypt.KnownAnswers.key) sampleReceived.key.crypto.cipherText =
      sampleReceived.key.crypto.mac := by decide +kernel
  have hlen : 32 ≤ (BigEndian.toBytes 32 Scrypt.KnownAnswers.key).length := (BigEndian.toBytes_length _ _).ge
  refine ⟨(decrypt_never_traps sampleReceived "p".toList).1, ?_⟩
  rw [decrypt_of_derived sampleReceived "p".toList rfl hderived hlen, if_pos hmac]
  exact decipher_sampleReceived

section

variable [Crypto] [ScryptHost] [CipherHost]

structure Agrees [Crypto] [ScryptHost] [CipherHost] : Prop where
  scrypt : ∀ (password : List UInt8) (params : ScryptParams), params.validate = none →
    Crypto.scrypt password params = Rfc7914.scrypt params.r.toInt.toNat params.n.toInt.toNat ScryptHost.derived password
      params.salt params.p.toInt.toNat params.desiredKeyLength.toInt.toNat
  ctr : ∀ key iv bytes : List UInt8, key.length = 16 → CipherParams.CounterFits iv bytes.length →
    CipherHost.decryptCTR key iv bytes = pure (Crypto.decryptCTR key iv bytes)
  cbc : ∀ key iv bytes : List UInt8, key.length = 16 →
    CipherHost.decryptCBC key iv bytes = ExceptT.mk (ok (unlessNone .aes (Crypto.decryptCBC key iv bytes)))

theorem calculate_refines (h : Agrees) (params : ScryptParams) (password : Text) :
    Scrypt.calculate params password = ExceptT.mk (ok (calculate params password)) := by
  rw [calculate]
  cases hvalid : params.validate with
  | some error =>
    rw [Scrypt.calculate_of_error hvalid]
    rfl
  | none =>
    rw [Scrypt.calculate_of_validate hvalid, Scrypt.scrypt_eq hvalid, h.scrypt _ _ hvalid]
    rfl

theorem decipher_refines (h : Agrees) (received : ReceivedKey) {decryptionKey : List UInt8} (hkey : decryptionKey.length = 16) :
    received.decipher decryptionKey = ExceptT.mk (ok (received.key.decipher decryptionKey)) := by
  rw [decipher, KeystoreKey.decipher]
  split
  · rw [CipherParams.validatingCTRCapacity_eq received.cipherText_length]
    cases hcapacity : received.key.crypto.cipherParams.validateCTRCapacity received.key.crypto.cipherText.length with
    | error failure => rfl
    | ok u =>
      have hfits := CipherParams.counterFits_of_capacity hcapacity
      exact h.ctr _ _ _ hkey hfits
  · split
    · exact h.cbc _ _ _ hkey
    · rfl

theorem decrypt_refines (h : Agrees) (received : ReceivedKey) (password : Text) :
    received.decrypt password = ExceptT.mk (ok (received.key.decrypt password)) := by
  have hcalculate := calculate_refines h received.key.crypto.kdfParams password
  rw [KeystoreKey.decrypt, KeystoreKey.derivedKey]
  by_cases hkdf : received.key.crypto.kdf = "scrypt".toList
  · rw [if_pos hkdf]
    rcases Scrypt.calculate_cases received.key.crypto.kdfParams password with ⟨error, -, herror⟩ | ⟨derivedKey, -, hderived, hlen⟩
    · have habstract : calculate received.key.crypto.kdfParams password = .error (.scrypt error) := by
        rw [herror] at hcalculate
        injection hcalculate with hcalculate
        exact hcalculate.symm
      rw [decrypt_of_error _ _ hkdf herror, habstract]
      rfl
    · have habstract : calculate received.key.crypto.kdfParams password = .ok derivedKey := by
        rw [hderived] at hcalculate
        injection hcalculate with hcalculate
        exact hcalculate.symm
      rw [decrypt_of_derived _ _ hkdf hderived hlen, habstract, except_ok_bind, guardThat]
      split
      · apply decipher_refines h
        rw [List.length_take]
        omega
      · rfl
  · rw [if_neg hkdf, decrypt_of_kdf _ _ hkdf]
    rfl

end

end ReceivedKey

end TronlinkCore.Keystore

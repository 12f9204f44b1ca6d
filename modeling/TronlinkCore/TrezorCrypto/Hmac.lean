import TronlinkCore.TrezorCrypto.Sha2
import TronlinkCore.Library.Rfc8018

/-!
`hmac.c` and `pbkdf2.c`. A derivation of keys keeps the states that the hash
functions have after the two pads of the password, and it works on words.
-/

namespace TronlinkCore.TrezorCrypto

open Windows
open Fips180 (Registers)

/-- What the functions of one length of words use beyond the hash function -/
structure MacFamily (w : ℕ) (γ : Type) extends Family w γ where
  opad : BitVec w
  ipad : BitVec w
  /-- `g[8]` -/
  mark : BitVec w
  /-- The bit count after one block -/
  blockBits : γ

structure HmacContext (w : ℕ) (γ : Type) where
  oKeyPad : List UInt8
  ctx : Context w γ

structure Pbkdf2Context (w : ℕ) where
  odig : Registers (BitVec w)
  idig : Registers (BitVec w)
  f : Registers (BitVec w)
  g : List (BitVec w)
  first : ℕ
  deriving DecidableEq

namespace Family

variable {w : ℕ} {γ : Type} (F : Family w γ)

def digestLength (_ : Family w γ) : ℕ := 8 * (w / 8)

def raw (data : List UInt8) : List UInt8 := F.final (F.update F.init data)

def keyPad (key : List UInt8) : List UInt8 :=
  overwrite (List.replicate F.blockLength 0) 0 (if F.blockLength < key.length then F.raw key else key)

def hmacInit (key : List UInt8) : HmacContext w γ where
  oKeyPad := (F.keyPad key).map (· ^^^ 0x5c)
  ctx := F.update F.init ((F.keyPad key).map (· ^^^ 0x36))

def hmacUpdate (hctx : HmacContext w γ) (msg : List UInt8) : HmacContext w γ := { hctx with ctx := F.update hctx.ctx msg }

def hmacFinal (hctx : HmacContext w γ) : List UInt8 :=
  F.final (F.update (F.update F.init hctx.oKeyPad) (F.final hctx.ctx))

def hmac (key msg : List UInt8) : List UInt8 := F.hmacFinal (F.hmacUpdate (F.hmacInit key) msg)

end Family

namespace MacFamily

variable {w : ℕ} {γ : Type} (F : MacFamily w γ)

def prepare (key : List UInt8) : Registers (BitVec w) × Registers (BitVec w) :=
  let oWord (i : ℕ) := F.REVERSE (loadWord w (F.keyPad key) i) ^^^ F.opad
  let iWord (i : ℕ) := oWord i ^^^ F.opad ^^^ F.ipad
  (F.transform F.initialHashValue oWord, F.transform F.initialHashValue iWord)

/-- `transform(state, g, g)`, which writes the first eight words -/
def transformG (state : Registers (BitVec w)) (g : List (BitVec w)) : List (BitVec w) :=
  (F.transform state fun t => g.getD t 0).toList ++ g.drop 8

/-- The buffer of the context is what the stack holds. -/
def pbkdf2Init (stack : ℕ → UInt8) (pass salt : List UInt8) (blocknr : UInt32) : Pbkdf2Context w :=
  let digests := F.prepare pass
  let g := ((List.replicate 16 0).set 8 F.mark).set 15 (BitVec.ofNat w ((F.blockLength + F.digestLength) * 8))
  let ctx : Context w γ := ⟨digests.2, F.blockBits, (List.range F.blockLength).map stack⟩
  let ctx := F.update (F.update ctx salt) (LittleEndian.toBytes 4 (REVERSE32 blocknr.toBitVec).toNat)
  let digest := F.final ctx
  let g := ((List.range 8).map fun k => F.REVERSE (loadWord w digest k)) ++ g.drop 8
  let g := F.transformG digests.1 g
  { odig := digests.1, idig := digests.2, f := .ofFn fun k => g.getD k 0, g := g, first := 1 }

def pbkdf2Round (pctx : Pbkdf2Context w) : Pbkdf2Context w :=
  let g := F.transformG pctx.odig (F.transformG pctx.idig pctx.g)
  { pctx with g := g, f := pctx.f.zipWith (· ^^^ ·) (.ofFn fun k => g.getD k 0) }

def pbkdf2Update (pctx : Pbkdf2Context w) (iterations : ℕ) : Pbkdf2Context w :=
  { (List.range (iterations - pctx.first)).foldl (fun pctx _ => F.pbkdf2Round pctx) pctx with first := 0 }

def pbkdf2Final (pctx : Pbkdf2Context w) : List UInt8 :=
  (pctx.f.map F.REVERSE).toList.flatMap fun word => LittleEndian.toBytes (w / 8) word.toNat

/-- The bytes of the key are written over those of the buffer `key`. -/
def pbkdf2 (stack : ℕ → UInt8) (pass salt : List UInt8) (iterations : ℕ) (key : List UInt8) : List UInt8 :=
  let rest := key.length % F.digestLength
  let blocksCount := if rest ≠ 0 then key.length / F.digestLength + 1 else key.length / F.digestLength
  let lastBlockSize := if rest ≠ 0 then rest else F.digestLength
  (List.range blocksCount).foldl (fun key i =>
    let digest := F.pbkdf2Final (F.pbkdf2Update (F.pbkdf2Init stack pass salt (UInt32.ofNat (i + 1))) iterations)
    overwrite key (i * F.digestLength) (if i + 1 < blocksCount then digest else digest.take lastBlockSize)) key

end MacFamily

def sha256MacFamily : MacFamily 32 UInt64 where
  toFamily := sha256Family
  opad := 0x5c5c5c5c
  ipad := 0x36363636
  mark := 0x80000000
  blockBits := 512

def sha512MacFamily : MacFamily 64 (UInt64 × UInt64) where
  toFamily := sha512Family
  opad := 0x5c5c5c5c5c5c5c5c
  ipad := 0x3636363636363636
  mark := 0x8000000000000000
  blockBits := (1024, 0)

abbrev HMAC_SHA256_CTX := HmacContext 32 UInt64

abbrev HMAC_SHA512_CTX := HmacContext 64 (UInt64 × UInt64)

abbrev PBKDF2_HMAC_SHA256_CTX := Pbkdf2Context 32

abbrev PBKDF2_HMAC_SHA512_CTX := Pbkdf2Context 64

def hmacSha256Init (key : List UInt8) : HMAC_SHA256_CTX := sha256Family.hmacInit key
def hmacSha256Update (hctx : HMAC_SHA256_CTX) (msg : List UInt8) : HMAC_SHA256_CTX := sha256Family.hmacUpdate hctx msg
def hmacSha256Final (hctx : HMAC_SHA256_CTX) : List UInt8 := sha256Family.hmacFinal hctx
def hmacSha256 (key msg : List UInt8) : List UInt8 := sha256Family.hmac key msg
def hmacSha256Prepare (key : List UInt8) : Registers (BitVec 32) × Registers (BitVec 32) := sha256MacFamily.prepare key

def hmacSha512Init (key : List UInt8) : HMAC_SHA512_CTX := sha512Family.hmacInit key
def hmacSha512Update (hctx : HMAC_SHA512_CTX) (msg : List UInt8) : HMAC_SHA512_CTX := sha512Family.hmacUpdate hctx msg
def hmacSha512Final (hctx : HMAC_SHA512_CTX) : List UInt8 := sha512Family.hmacFinal hctx
def hmacSha512 (key msg : List UInt8) : List UInt8 := sha512Family.hmac key msg
def hmacSha512Prepare (key : List UInt8) : Registers (BitVec 64) × Registers (BitVec 64) := sha512MacFamily.prepare key

def pbkdf2HmacSha256Init := sha256MacFamily.pbkdf2Init
def pbkdf2HmacSha256Update (pctx : PBKDF2_HMAC_SHA256_CTX) (iterations : ℕ) := sha256MacFamily.pbkdf2Update pctx iterations
def pbkdf2HmacSha256Final (pctx : PBKDF2_HMAC_SHA256_CTX) : List UInt8 := sha256MacFamily.pbkdf2Final pctx
def pbkdf2HmacSha256 := sha256MacFamily.pbkdf2

def pbkdf2HmacSha512Init := sha512MacFamily.pbkdf2Init
def pbkdf2HmacSha512Update (pctx : PBKDF2_HMAC_SHA512_CTX) (iterations : ℕ) := sha512MacFamily.pbkdf2Update pctx iterations
def pbkdf2HmacSha512Final (pctx : PBKDF2_HMAC_SHA512_CTX) : List UInt8 := sha512MacFamily.pbkdf2Final pctx
def pbkdf2HmacSha512 := sha512MacFamily.pbkdf2

end TronlinkCore.TrezorCrypto

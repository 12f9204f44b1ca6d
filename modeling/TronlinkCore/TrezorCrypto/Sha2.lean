import TronlinkCore.Library.Fips180
import TronlinkCore.Library.LittleEndian

/-!
`sha2.c`: SHA-256 and SHA-512 over a context that takes the message in pieces,
on a machine whose words are little-endian. The clearing of a context at the
end is left out, since nothing reads it after that.
-/

namespace TronlinkCore.TrezorCrypto

open Windows
open Fips180 (Registers)

section

variable {w : ℕ}

/-- `ROTR32(b, x)` and `ROTR64(b, x)` -/
def ROTR (b : ℕ) (x : BitVec w) : BitVec w := (x >>> b) ||| (x <<< (w - b))

def SHR (b : ℕ) (x : BitVec w) : BitVec w := x >>> b

def Ch (x y z : BitVec w) : BitVec w := (x &&& y) ^^^ (~~~x &&& z)

def Maj (x y z : BitVec w) : BitVec w := (x &&& y) ^^^ (x &&& z) ^^^ (y &&& z)

end

def REVERSE32 (x : BitVec 32) : BitVec 32 :=
  let tmp := (x >>> 16) ||| (x <<< 16)
  ((tmp &&& 0xff00ff00) >>> 8) ||| ((tmp &&& 0x00ff00ff) <<< 8)

def REVERSE64 (x : BitVec 64) : BitVec 64 :=
  let tmp := (x >>> 32) ||| (x <<< 32)
  let tmp := ((tmp &&& 0xff00ff00ff00ff00) >>> 8) ||| ((tmp &&& 0x00ff00ff00ff00ff) <<< 8)
  ((tmp &&& 0xffff0000ffff0000) >>> 16) ||| ((tmp &&& 0x0000ffff0000ffff) <<< 16)

/-- `(w)[0] += n`, and one more in `(w)[1]` where that wraps around -/
def ADDINC128 (count : UInt64 × UInt64) (n : UInt64) : UInt64 × UInt64 :=
  let low := count.1 + n
  (low, if low < n then count.2 + 1 else count.2)

def K256 : List (BitVec 32) :=
  [0x428a2f98, 0x71374491, 0xb5c0fbcf, 0xe9b5dba5, 0x3956c25b, 0x59f111f1, 0x923f82a4, 0xab1c5ed5,
    0xd807aa98, 0x12835b01, 0x243185be, 0x550c7dc3, 0x72be5d74, 0x80deb1fe, 0x9bdc06a7, 0xc19bf174,
    0xe49b69c1, 0xefbe4786, 0x0fc19dc6, 0x240ca1cc, 0x2de92c6f, 0x4a7484aa, 0x5cb0a9dc, 0x76f988da,
    0x983e5152, 0xa831c66d, 0xb00327c8, 0xbf597fc7, 0xc6e00bf3, 0xd5a79147, 0x06ca6351, 0x14292967,
    0x27b70a85, 0x2e1b2138, 0x4d2c6dfc, 0x53380d13, 0x650a7354, 0x766a0abb, 0x81c2c92e, 0x92722c85,
    0xa2bfe8a1, 0xa81a664b, 0xc24b8b70, 0xc76c51a3, 0xd192e819, 0xd6990624, 0xf40e3585, 0x106aa070,
    0x19a4c116, 0x1e376c08, 0x2748774c, 0x34b0bcb5, 0x391c0cb3, 0x4ed8aa4a, 0x5b9cca4f, 0x682e6ff3,
    0x748f82ee, 0x78a5636f, 0x84c87814, 0x8cc70208, 0x90befffa, 0xa4506ceb, 0xbef9a3f7, 0xc67178f2]

def K512 : List (BitVec 64) :=
  [0x428a2f98d728ae22, 0x7137449123ef65cd, 0xb5c0fbcfec4d3b2f, 0xe9b5dba58189dbbc, 0x3956c25bf348b538,
    0x59f111f1b605d019, 0x923f82a4af194f9b, 0xab1c5ed5da6d8118, 0xd807aa98a3030242, 0x12835b0145706fbe,
    0x243185be4ee4b28c, 0x550c7dc3d5ffb4e2, 0x72be5d74f27b896f, 0x80deb1fe3b1696b1, 0x9bdc06a725c71235,
    0xc19bf174cf692694, 0xe49b69c19ef14ad2, 0xefbe4786384f25e3, 0x0fc19dc68b8cd5b5, 0x240ca1cc77ac9c65,
    0x2de92c6f592b0275, 0x4a7484aa6ea6e483, 0x5cb0a9dcbd41fbd4, 0x76f988da831153b5, 0x983e5152ee66dfab,
    0xa831c66d2db43210, 0xb00327c898fb213f, 0xbf597fc7beef0ee4, 0xc6e00bf33da88fc2, 0xd5a79147930aa725,
    0x06ca6351e003826f, 0x142929670a0e6e70, 0x27b70a8546d22ffc, 0x2e1b21385c26c926, 0x4d2c6dfc5ac42aed,
    0x53380d139d95b3df, 0x650a73548baf63de, 0x766a0abb3c77b2a8, 0x81c2c92e47edaee6, 0x92722c851482353b,
    0xa2bfe8a14cf10364, 0xa81a664bbc423001, 0xc24b8b70d0f89791, 0xc76c51a30654be30, 0xd192e819d6ef5218,
    0xd69906245565a910, 0xf40e35855771202a, 0x106aa07032bbd1b8, 0x19a4c116b8d2d0c8, 0x1e376c085141ab53,
    0x2748774cdf8eeb99, 0x34b0bcb5e19b48a8, 0x391c0cb3c5c95a63, 0x4ed8aa4ae3418acb, 0x5b9cca4f7763e373,
    0x682e6ff3d6b2b8a3, 0x748f82ee5defb2fc, 0x78a5636f43172f60, 0x84c87814a1f0ab72, 0x8cc702081a6439ec,
    0x90befffa23631e28, 0xa4506cebde82bde9, 0xbef9a3f7b2c67915, 0xc67178f2e372532b, 0xca273eceea26619c,
    0xd186b8c721c0c207, 0xeada7dd6cde0eb1e, 0xf57d4f7fee6ed178, 0x06f067aa72176fba, 0x0a637dc5a2c898a6,
    0x113f9804bef90dae, 0x1b710b35131c471b, 0x28db77f523047d84, 0x32caab7b40c72493, 0x3c9ebe0a15c9bebc,
    0x431d67c49c100d4c, 0x4cc5d4becb3e42b6, 0x597f299cfc657e2a, 0x5fcb6fab3ad6faec, 0x6c44198c4a475817]

def sha256InitialHashValue : Registers (BitVec 32) :=
  ⟨0x6a09e667, 0xbb67ae85, 0x3c6ef372, 0xa54ff53a,
    0x510e527f, 0x9b05688c, 0x1f83d9ab, 0x5be0cd19⟩

def sha512InitialHashValue : Registers (BitVec 64) :=
  ⟨0x6a09e667f3bcc908, 0xbb67ae8584caa73b,
    0x3c6ef372fe94f82b, 0xa54ff53a5f1d36f1,
    0x510e527fade682d1, 0x9b05688c2b3e6c1f,
    0x1f83d9abfb41bd6b, 0x5be0cd19137e2179⟩

structure Family (w : ℕ) (γ : Type) where
  K : List (BitVec w)
  initialHashValue : Registers (BitVec w)
  Sigma0 : BitVec w → BitVec w
  Sigma1 : BitVec w → BitVec w
  sigma0 : BitVec w → BitVec w
  sigma1 : BitVec w → BitVec w
  REVERSE : BitVec w → BitVec w
  rounds : ℕ
  noBits : γ
  increment : γ → UInt64 → γ
  /-- The bits that the place in the buffer is taken from -/
  lowBits : γ → UInt64
  /-- The words of the bit count that end the last block -/
  countWords : γ → BitVec w × BitVec w

structure Context (w : ℕ) (γ : Type) where
  state : Registers (BitVec w)
  bitcount : γ
  buffer : List UInt8
  deriving DecidableEq

namespace Context

variable {w : ℕ} {γ : Type}

/-- `MEMCPY_BCOPY` into the bytes of the buffer -/
def copy (context : Context w γ) (start : ℕ) (data : List UInt8) : Context w γ :=
  { context with buffer := overwrite context.buffer start data }

/-- `memzero` of the bytes of the buffer from `start` up to `length` -/
def clear (context : Context w γ) (start length : ℕ) : Context w γ := context.copy start (List.replicate (length - start) 0)

end Context

section

variable (w : ℕ)

def loadWord (buffer : List UInt8) (j : ℕ) : BitVec w :=
  BitVec.ofNat w (LittleEndian.ofBytes (window buffer (w / 8 * j) (w / 8)))

def storeWord (buffer : List UInt8) (j : ℕ) (word : BitVec w) : List UInt8 :=
  overwrite buffer (w / 8 * j) (LittleEndian.toBytes (w / 8) word.toNat)

end

namespace Family

variable {w : ℕ} {γ : Type} (F : Family w γ)

structure Rounds (w : ℕ) where
  registers : Registers (BitVec w)
  W : List (BitVec w)

def step (x : Registers (BitVec w)) (j : ℕ) (word : BitVec w) : Registers (BitVec w) :=
  let T1 := x.h + F.Sigma1 x.e + Ch x.e x.f x.g + F.K.getD j 0 + word
  let T2 := F.Sigma0 x.a + Maj x.a x.b x.c
  ⟨T1 + T2, x.a, x.b, x.c, x.d + T1, x.e, x.f, x.g⟩

def copyRound (data : ℕ → BitVec w) (x : Rounds w) (j : ℕ) : Rounds w where
  registers := F.step x.registers j (data j)
  W := x.W.set j (data j)

def expandRound (x : Rounds w) (j : ℕ) : Rounds w :=
  let s0 := F.sigma0 (x.W.getD ((j + 1) &&& 0x0f) 0)
  let s1 := F.sigma1 (x.W.getD ((j + 14) &&& 0x0f) 0)
  let word := x.W.getD (j &&& 0x0f) 0 + (s1 + x.W.getD ((j + 9) &&& 0x0f) 0 + s0)
  ⟨F.step x.registers j word, x.W.set (j &&& 0x0f) word⟩

/-- Every word of `W` is written before it is read. -/
def transform (state : Registers (BitVec w)) (data : ℕ → BitVec w) : Registers (BitVec w) :=
  let copied := (List.range 16).foldl (F.copyRound data) ⟨state, List.replicate 16 0⟩
  let expanded := (List.range' 16 (F.rounds - 16)).foldl F.expandRound copied
  state.zipWith (· + ·) expanded.registers

def blockLength (_ : Family w γ) : ℕ := Fips180.blockLength w

def shortBlockLength : ℕ := F.blockLength - 2 * (w / 8)

def reverseWords (count : ℕ) (buffer : List UInt8) : List UInt8 :=
  (List.range count).foldl (fun buffer j => storeWord w buffer j (F.REVERSE (loadWord w buffer j))) buffer

def process (context : Context w γ) : Context w γ :=
  let buffer := F.reverseWords 16 context.buffer
  { context with buffer := buffer, state := F.transform context.state (loadWord w buffer) }

def init : Context w γ where
  state := F.initialHashValue
  bitcount := F.noBits
  buffer := List.replicate F.blockLength 0

def usedspace (context : Context w γ) : ℕ := (F.lowBits context.bitcount >>> 3).toNat % F.blockLength

def count (context : Context w γ) (bytes : ℕ) : Context w γ :=
  { context with bitcount := F.increment context.bitcount (UInt64.ofNat bytes <<< 3) }

def updateBlocks (context : Context w γ) (data : List UInt8) : Context w γ :=
  let full := data.length / F.blockLength
  let context := (List.range full).foldl (fun context i =>
    F.count (F.process (context.copy 0 (window data (F.blockLength * i) F.blockLength))) F.blockLength) context
  let data := data.drop (F.blockLength * full)
  if 0 < data.length then F.count (context.copy 0 data) data.length else context

def update (context : Context w γ) (data : List UInt8) : Context w γ :=
  if data.length = 0 then context
  else
    let usedspace := F.usedspace context
    if 0 < usedspace then
      let freespace := F.blockLength - usedspace
      if freespace ≤ data.length then
        let filled := F.count (context.copy usedspace (data.take freespace)) freespace
        F.updateBlocks (F.process filled) (data.drop freespace)
      else F.count (context.copy usedspace data) data.length
    else F.updateBlocks context data

/-- The buffer of the last transform up to the bit count, after the second-to-last transform where that is needed -/
def pad (context : Context w γ) : Context w γ :=
  let usedspace := F.usedspace context + 1
  let marked := context.copy (F.usedspace context) [0x80]
  if F.shortBlockLength < usedspace then (F.process (marked.clear usedspace F.blockLength)).clear 0 F.shortBlockLength
  else marked.clear usedspace F.shortBlockLength

/-- The words of the bit count are stored in host byte order. -/
def last (context : Context w γ) : Registers (BitVec w) :=
  let context := F.pad context
  let buffer := F.reverseWords 14 context.buffer
  let buffer := storeWord w buffer 14 (F.countWords context.bitcount).1
  let buffer := storeWord w buffer 15 (F.countWords context.bitcount).2
  F.transform context.state (loadWord w buffer)

def final (context : Context w γ) : List UInt8 :=
  ((F.last context).map F.REVERSE).toList.flatMap fun word => LittleEndian.toBytes (w / 8) word.toNat

end Family

def Sigma0_256 (x : BitVec 32) : BitVec 32 := ROTR 2 x ^^^ ROTR 13 x ^^^ ROTR 22 x
def Sigma1_256 (x : BitVec 32) : BitVec 32 := ROTR 6 x ^^^ ROTR 11 x ^^^ ROTR 25 x
def sigma0_256 (x : BitVec 32) : BitVec 32 := ROTR 7 x ^^^ ROTR 18 x ^^^ SHR 3 x
def sigma1_256 (x : BitVec 32) : BitVec 32 := ROTR 17 x ^^^ ROTR 19 x ^^^ SHR 10 x

def Sigma0_512 (x : BitVec 64) : BitVec 64 := ROTR 28 x ^^^ ROTR 34 x ^^^ ROTR 39 x
def Sigma1_512 (x : BitVec 64) : BitVec 64 := ROTR 14 x ^^^ ROTR 18 x ^^^ ROTR 41 x
def sigma0_512 (x : BitVec 64) : BitVec 64 := ROTR 1 x ^^^ ROTR 8 x ^^^ SHR 7 x
def sigma1_512 (x : BitVec 64) : BitVec 64 := ROTR 19 x ^^^ ROTR 61 x ^^^ SHR 6 x

def sha256Family : Family 32 UInt64 where
  K := K256
  initialHashValue := sha256InitialHashValue
  Sigma0 := Sigma0_256
  Sigma1 := Sigma1_256
  sigma0 := sigma0_256
  sigma1 := sigma1_256
  REVERSE := REVERSE32
  rounds := 64
  noBits := 0
  increment bitcount n := bitcount + n
  lowBits bitcount := bitcount
  countWords bitcount := ((bitcount >>> 32).toBitVec.setWidth 32, (bitcount &&& 0xffffffff).toBitVec.setWidth 32)

def sha512Family : Family 64 (UInt64 × UInt64) where
  K := K512
  initialHashValue := sha512InitialHashValue
  Sigma0 := Sigma0_512
  Sigma1 := Sigma1_512
  sigma0 := sigma0_512
  sigma1 := sigma1_512
  REVERSE := REVERSE64
  rounds := 80
  noBits := (0, 0)
  increment := ADDINC128
  lowBits bitcount := bitcount.1
  countWords bitcount := (bitcount.2.toBitVec, bitcount.1.toBitVec)

abbrev SHA256_CTX := Context 32 UInt64

abbrev SHA512_CTX := Context 64 (UInt64 × UInt64)

def sha256Init : SHA256_CTX := sha256Family.init
def sha256Transform := sha256Family.transform
def sha256Update (context : SHA256_CTX) (data : List UInt8) : SHA256_CTX := sha256Family.update context data
def sha256Final (context : SHA256_CTX) : List UInt8 := sha256Family.final context
def sha256Raw (data : List UInt8) : List UInt8 := sha256Final (sha256Update sha256Init data)

def sha512Init : SHA512_CTX := sha512Family.init
def sha512Transform := sha512Family.transform
def sha512Update (context : SHA512_CTX) (data : List UInt8) : SHA512_CTX := sha512Family.update context data
def sha512Last (context : SHA512_CTX) : Registers (BitVec 64) := sha512Family.last context
def sha512Final (context : SHA512_CTX) : List UInt8 := sha512Family.final context
def sha512Raw (data : List UInt8) : List UInt8 := sha512Final (sha512Update sha512Init data)

end TronlinkCore.TrezorCrypto

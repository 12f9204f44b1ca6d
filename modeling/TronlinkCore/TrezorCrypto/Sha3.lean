import TronlinkCore.Library.LittleEndian
import TronlinkCore.Library.Windows
import Mathlib

/-!
`sha3.c`, without the macro of the full family. The words of the state and of
the blocks are in host byte order, which is little-endian. Lengths of messages
fit into a machine word.
-/

namespace TronlinkCore.TrezorCrypto

open Windows

abbrev Lanes := Vector (BitVec 64) 25

namespace Lanes

def put (A : Lanes) (i : Fin 25) (word : BitVec 64) : Lanes := A.set i word

end Lanes

def ROTL64 (qword : BitVec 64) (n : ℕ) : BitVec 64 := (qword <<< n) ^^^ (qword >>> (64 - n))

def keccakRoundConstants : List (BitVec 64) :=
  [0x0000000000000001, 0x0000000000008082, 0x800000000000808A, 0x8000000080008000,
    0x000000000000808B, 0x0000000080000001, 0x8000000080008081, 0x8000000000008009,
    0x000000000000008A, 0x0000000000000088, 0x0000000080008009, 0x000000008000000A,
    0x000000008000808B, 0x800000000000008B, 0x8000000000008089, 0x8000000000008003,
    0x8000000000008002, 0x8000000000000080, 0x000000000000800A, 0x800000008000000A,
    0x8000000080008081, 0x8000000000008080, 0x0000000080000001, 0x8000000080008008]

def place (x y : ℕ) : Fin 25 := Fin.ofNat 25 (x + 5 * y)

def column (A : Lanes) (x : Fin 5) : BitVec 64 :=
  A.get (place x 0) ^^^ A.get (place x 1) ^^^ A.get (place x 2) ^^^ A.get (place x 3) ^^^ A.get (place x 4)

def keccakTheta (A : Lanes) : Lanes :=
  let C : Vector (BitVec 64) 5 := .ofFn (column A)
  let D : Vector (BitVec 64) 5 :=
    #v[ROTL64 C[1] 1 ^^^ C[4], ROTL64 C[2] 1 ^^^ C[0], ROTL64 C[3] 1 ^^^ C[1], ROTL64 C[4] 1 ^^^ C[2], ROTL64 C[0] 1 ^^^ C[3]]
  .ofFn fun i => A.get i ^^^ D[i.val % 5]

/-- The lane at zero is not turned. -/
def rotations : Vector ℕ 25 :=
  #v[0, 1, 62, 28, 27, 36, 44, 6, 55, 20, 3, 10, 43, 25, 39, 41, 45, 15, 21, 8, 18, 2, 61, 56, 14]

def keccakRho (A : Lanes) : Lanes := .ofFn fun i => if i = 0 then A.get i else ROTL64 (A.get i) (rotations.get i)

/-- Each lane is overwritten by the one at the second place. -/
def moves : List (Fin 25 × Fin 25) :=
  [(1, 6), (6, 9), (9, 22), (22, 14), (14, 20), (20, 2), (2, 12), (12, 13), (13, 19), (19, 23), (23, 15), (15, 4), (4, 24), (24, 21),
    (21, 8), (8, 16), (16, 5), (5, 3), (3, 18), (18, 17), (17, 11), (11, 7), (7, 10)]

def keccakPi (A : Lanes) : Lanes :=
  let A1 := A.get 1
  (moves.foldl (fun A move => A.put move.1 (A.get move.2)) A).put 10 A1

/-- The row at `i`, changed in place from the left -/
def chiRow (A : Lanes) (i : Fin 5) : Lanes :=
  let A0 := A.get (place 0 i)
  let A1 := A.get (place 1 i)
  let A := A.put (place 0 i) (A.get (place 0 i) ^^^ (~~~ A1 &&& A.get (place 2 i)))
  let A := A.put (place 1 i) (A.get (place 1 i) ^^^ (~~~ A.get (place 2 i) &&& A.get (place 3 i)))
  let A := A.put (place 2 i) (A.get (place 2 i) ^^^ (~~~ A.get (place 3 i) &&& A.get (place 4 i)))
  let A := A.put (place 3 i) (A.get (place 3 i) ^^^ (~~~ A.get (place 4 i) &&& A0))
  A.put (place 4 i) (A.get (place 4 i) ^^^ (~~~ A0 &&& A1))

def keccakChi (A : Lanes) : Lanes := (List.finRange 5).foldl chiRow A

def sha3Permutation (state : Lanes) : Lanes :=
  (List.range 24).foldl (fun state round =>
    let state := keccakChi (keccakPi (keccakRho (keccakTheta state)))
    state.put 0 (state.get 0 ^^^ keccakRoundConstants.getD round 0)) state

def blockWords (blockSize : ℕ) : ℕ :=
  if 72 < blockSize then if 104 < blockSize then if 136 < blockSize then 18 else 17 else 13 else 9

def sha3ProcessBlock (hash : Lanes) (block : List UInt8) (blockSize : ℕ) : Lanes :=
  sha3Permutation (.ofFn fun i =>
    if i < blockWords blockSize then hash.get i ^^^ BitVec.ofNat 64 (LittleEndian.ofBytes (window block (8 * i) 8)) else hash.get i)

def SHA3_FINALIZED : ℕ := 0x80000000

structure SHA3_CTX where
  hash : Lanes
  message : List UInt8
  rest : ℕ
  blockSize : ℕ

def keccakInit (bits : ℕ) : SHA3_CTX where
  hash := .replicate 25 0
  message := List.replicate 192 0
  rest := 0
  blockSize := (1600 - bits * 2) / 8

def sha3Init224 : SHA3_CTX := keccakInit 224
def sha3Init256 : SHA3_CTX := keccakInit 256
def sha3Init384 : SHA3_CTX := keccakInit 384
def sha3Init512 : SHA3_CTX := keccakInit 512

/-- A block is read where it lies if its address is a multiple of eight, and from the buffer otherwise. -/
def sha3Block (address : ℕ) (ctx : SHA3_CTX) (block : List UInt8) : SHA3_CTX :=
  if address % 8 = 0 then { ctx with hash := sha3ProcessBlock ctx.hash block ctx.blockSize }
  else
    let message := overwrite ctx.message 0 block
    { ctx with message := message, hash := sha3ProcessBlock ctx.hash message ctx.blockSize }

def sha3Blocks (address : ℕ) (ctx : SHA3_CTX) (msg : List UInt8) : SHA3_CTX :=
  let full := msg.length / ctx.blockSize
  let blockSize := ctx.blockSize
  let ctx := (List.range full).foldl (fun ctx i =>
    sha3Block (address + blockSize * i) ctx (window msg (blockSize * i) blockSize)) ctx
  if 0 < msg.length - blockSize * full then { ctx with message := overwrite ctx.message 0 (msg.drop (blockSize * full)) } else ctx

def sha3Fill (idx : ℕ) (ctx : SHA3_CTX) (address : ℕ) (msg : List UInt8) : SHA3_CTX :=
  let left := ctx.blockSize - idx
  let message := overwrite ctx.message idx (msg.take left)
  if msg.length < left then { ctx with message := message }
  else
    sha3Blocks (address + left) { ctx with message := message, hash := sha3ProcessBlock ctx.hash message ctx.blockSize } (msg.drop left)

def sha3Update (ctx : SHA3_CTX) (address : ℕ) (msg : List UInt8) : SHA3_CTX :=
  if ctx.rest &&& SHA3_FINALIZED ≠ 0 then ctx
  else
    let counted := { ctx with rest := (ctx.rest + msg.length) % ctx.blockSize }
    if ctx.rest ≠ 0 then sha3Fill ctx.rest counted address msg else sha3Blocks address counted msg

/-- `sha3_Final` and `keccak_Final`, which put different marks after the message -/
def finalWith (mark : UInt8) (ctx : SHA3_CTX) : List UInt8 :=
  let hash :=
    if ctx.rest &&& SHA3_FINALIZED = 0 then
      let message := overwrite ctx.message ctx.rest (List.replicate (ctx.blockSize - ctx.rest) 0)
      let message := message.set ctx.rest (message.getD ctx.rest 0 ||| mark)
      let message := message.set (ctx.blockSize - 1) (message.getD (ctx.blockSize - 1) 0 ||| 0x80)
      sha3ProcessBlock ctx.hash message ctx.blockSize
    else ctx.hash
  (hash.toList.flatMap fun word => LittleEndian.toBytes 8 word.toNat).take (100 - ctx.blockSize / 2)

def sha3Final (ctx : SHA3_CTX) : List UInt8 := finalWith 0x06 ctx
def keccakFinal (ctx : SHA3_CTX) : List UInt8 := finalWith 0x01 ctx

def keccak256 (address : ℕ) (data : List UInt8) : List UInt8 := keccakFinal (sha3Update sha3Init256 address data)
def keccak512 (address : ℕ) (data : List UInt8) : List UInt8 := keccakFinal (sha3Update sha3Init512 address data)
def sha3Hash256 (address : ℕ) (data : List UInt8) : List UInt8 := sha3Final (sha3Update sha3Init256 address data)
def sha3Hash512 (address : ℕ) (data : List UInt8) : List UInt8 := sha3Final (sha3Update sha3Init512 address data)

end TronlinkCore.TrezorCrypto

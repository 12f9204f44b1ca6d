import TronlinkCore.Library.Salsa

/-!
The scrypt function of RFC 7914 over a key derivation function with one
iteration. A block is a string of bytes; `r` is its size in units of 128 bytes.
-/

namespace TronlinkCore.Rfc7914

open Windows LittleEndian Salsa

variable (r : ℕ)

def subBlock (B : List UInt8) (i : ℕ) : List UInt8 := window B (64 * i) 64

def chain (B : List UInt8) : ℕ → List UInt8
  | 0 => subBlock B (2 * r - 1)
  | i + 1 => salsa20_8 (xorBytes (chain B i) (subBlock B i))

/-- `scryptBlockMix`: the results of the even steps before those of the odd ones -/
def blockMix (B : List UInt8) : List UInt8 :=
  ((List.range r).flatMap fun i => chain r B (2 * i + 1)) ++ (List.range r).flatMap fun i => chain r B (2 * i + 2)

def integerify (B : List UInt8) : ℕ := LittleEndian.ofBytes (subBlock B (2 * r - 1))

variable (N : ℕ)

def romixStep (B X : List UInt8) : List UInt8 :=
  blockMix r (xorBytes X ((blockMix r)^[integerify r X % N] B))

/-- `scryptROMix`, where the entry `i` of its table is the block after `i` mixes -/
def romix (B : List UInt8) : List UInt8 := (romixStep r N B)^[N] ((blockMix r)^[N] B)

/-- `scrypt` with the key derivation function `pbkdf2` of password, salt and length -/
def scrypt (pbkdf2 : List UInt8 → List UInt8 → ℕ → List UInt8) (password salt : List UInt8) (p dkLen : ℕ) :
    List UInt8 :=
  let B := pbkdf2 password salt (p * 128 * r)
  pbkdf2 password ((List.range p).flatMap fun i => romix r N (window B (128 * r * i) (128 * r))) dkLen

theorem chain_succ_length (B : List UInt8) (i : ℕ) : (chain r B (i + 1)).length = 64 := salsa20_8_length _

theorem blockMix_length (B : List UInt8) : (blockMix r B).length = 128 * r := by
  have hsum (f : ℕ → List UInt8) (hf : ∀ i, (f i).length = 64) : ((List.range r).flatMap f).length = 64 * r := by
    rw [List.length_flatMap]
    simp [hf, Nat.mul_comm]
  rw [blockMix, List.length_append, hsum _ (fun i => chain_succ_length r B _), hsum _ (fun i => chain_succ_length r B _)]
  omega

theorem romix_length {N : ℕ} (hN : 0 < N) (B : List UInt8) : (romix r N B).length = 128 * r := by
  cases N with
  | zero => exact absurd hN (Nat.lt_irrefl 0)
  | succ N =>
    rw [romix, Function.iterate_succ_apply']
    exact blockMix_length r _

end TronlinkCore.Rfc7914

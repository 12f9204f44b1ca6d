import TronlinkCore.Library.Blocks
import Mathlib

/-!
The step mappings of FIPS 202 over the bits of a state array, the rounds, and
the sponge over them.
-/

namespace TronlinkCore.Fips202

open Blocks

/-- `A[x, y, z]`, in lanes of `2 ^ l` bits -/
abbrev State (l : ℕ) := Fin 5 → Fin 5 → Fin (2 ^ l) → Bool

section

variable {l : ℕ} (A : State l)

def parity (x : Fin 5) (z : Fin (2 ^ l)) : Bool := A x 0 z ^^ A x 1 z ^^ A x 2 z ^^ A x 3 z ^^ A x 4 z

def theta : State l := fun x y z => A x y z ^^ (parity A (x - 1) z ^^ parity A (x + 1) (z - 1))

def walk : ℕ → Fin 5 × Fin 5
  | 0 => (1, 0)
  | t + 1 => ((walk t).2, 2 * (walk t).1 + 3 * (walk t).2)

def offset (x y : Fin 5) : ℕ :=
  match (List.range 24).find? (walk · = (x, y)) with
  | some t => (t + 1) * (t + 2) / 2
  | none => 0

def rho : State l := fun x y z => A x y (z - Fin.ofNat (2 ^ l) (offset x y))

def pi : State l := fun x y z => A (x + 3 * y) x z

def chi : State l := fun x y z => A x y z ^^ (!A (x + 1) y z && A (x + 2) y z)

def shift (R : List Bool) : List Bool :=
  let bit (i : ℕ) := R.getD i false
  [bit 7, bit 0, bit 1, bit 2, bit 3 ^^ bit 7, bit 4 ^^ bit 7, bit 5 ^^ bit 7, bit 6]

def rc (t : ℕ) : Bool := (shift^[t % 255] [true, false, false, false, false, false, false, false]).getD 0 false

def roundConstant (l i : ℕ) (z : Fin (2 ^ l)) : Bool := (List.range (l + 1)).any fun j => z = 2 ^ j - 1 ∧ rc (j + 7 * i)

def iota (i : ℕ) : State l := fun x y z => if x = 0 ∧ y = 0 then A x y z ^^ roundConstant l i z else A x y z

def round (i : ℕ) : State l := iota (chi (pi (rho (theta A)))) i

def keccakF : State l := (List.range (12 + 2 * l)).foldl round A

def string : List Bool :=
  (List.range (25 * 2 ^ l)).map fun i => A (Fin.ofNat 5 (i / 2 ^ l)) (Fin.ofNat 5 (i / 2 ^ l / 5)) (Fin.ofNat (2 ^ l) i)

end

section

variable {l : ℕ} (f : State l → State l)

/-- The bits after those of the block are zeros. -/
def absorb (A : State l) (block : List Bool) : State l :=
  f fun x y z => A x y z ^^ block.getD (2 ^ l * (5 * y + x) + z) false

/-- `pad10*1` -/
def pad (r m : ℕ) : List Bool := true :: List.replicate ((r - (m + 2) % r) % r) false ++ [true]

def squeeze (r d : ℕ) (A : State l) : List Bool :=
  ((List.range (d / r + 1)).flatMap fun i => (string (f^[i] A)).take r).take d

def sponge (r : ℕ) (N : List Bool) (d : ℕ) : List Bool :=
  squeeze f r d (absorbAll (absorb f) r (fun _ _ _ => false) (N ++ pad r N.length))

end

/-- `KECCAK[c]` -/
def keccak (c : ℕ) (N : List Bool) (d : ℕ) : List Bool := sponge (keccakF : State 6 → State 6) (1600 - c) N d

def bits (bs : List UInt8) : List Bool := bs.flatMap fun b => (List.range 8).map b.toNat.testBit

def sha3 (d : ℕ) (M : List Bool) : List Bool := keccak (2 * d) (M ++ [false, true]) d

end TronlinkCore.Fips202

import TronlinkCore.Library.LittleEndian
import TronlinkCore.Library.Windows
import Mathlib.Logic.Function.Iterate

/-!
The Salsa20/8 core: four double rounds over four by four words, each a round
over the columns and a round over the rows, and the sum with the input.
-/

namespace TronlinkCore.Salsa

open Windows

structure Quad (α : Type) where
  a : α
  b : α
  c : α
  d : α
  deriving DecidableEq

namespace Quad

variable {α β γ : Type}

def ofFn (f : ℕ → α) : Quad α := ⟨f 0, f 1, f 2, f 3⟩

def toList (x : Quad α) : List α := [x.a, x.b, x.c, x.d]

def zipWith (f : α → β → γ) (x : Quad α) (y : Quad β) : Quad γ := ⟨f x.a y.a, f x.b y.b, f x.c y.c, f x.d y.d⟩

def rotate (x : Quad α) : Quad α := ⟨x.b, x.c, x.d, x.a⟩

def startingAt (k : ℕ) (f : Quad α → Quad α) (x : Quad α) : Quad α := rotate^[4 - k] (f (rotate^[k] x))

def transpose (x : Quad (Quad α)) : Quad (Quad α) where
  a := ⟨x.a.a, x.b.a, x.c.a, x.d.a⟩
  b := ⟨x.a.b, x.b.b, x.c.b, x.d.b⟩
  c := ⟨x.a.c, x.b.c, x.c.c, x.d.c⟩
  d := ⟨x.a.d, x.b.d, x.c.d, x.d.d⟩

end Quad

open Quad

abbrev Words := Quad (Quad UInt32)

def rotateLeft (a b : UInt32) : UInt32 := (a <<< b) ||| (a >>> (32 - b))

def quarterRound (y : Quad UInt32) : Quad UInt32 :=
  let b := y.b ^^^ rotateLeft (y.a + y.d) 7
  let c := y.c ^^^ rotateLeft (b + y.a) 9
  let d := y.d ^^^ rotateLeft (c + b) 13
  let a := y.a ^^^ rotateLeft (d + c) 18
  ⟨a, b, c, d⟩

def rowRound (x : Words) : Words where
  a := startingAt 0 quarterRound x.a
  b := startingAt 1 quarterRound x.b
  c := startingAt 2 quarterRound x.c
  d := startingAt 3 quarterRound x.d

def columnRound (x : Words) : Words := transpose (rowRound (transpose x))

def doubleRound (x : Words) : Words := rowRound (columnRound x)

def core (x : Words) : Words := zipWith (zipWith (· + ·)) x (doubleRound^[4] x)

def wordsOf (bs : List UInt8) : Words :=
  ofFn fun i => ofFn fun j => UInt32.ofNat (LittleEndian.ofBytes (window bs (4 * (4 * i + j)) 4))

def words (x : Words) : List UInt32 := x.toList.flatMap toList

def salsa20_8 (bs : List UInt8) : List UInt8 :=
  (words (core (wordsOf bs))).flatMap fun word => LittleEndian.toBytes 4 word.toNat

@[simp] theorem salsa20_8_length (bs : List UInt8) : (salsa20_8 bs).length = 64 := by
  simp [salsa20_8, words, toList]

end TronlinkCore.Salsa

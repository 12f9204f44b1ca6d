import TronlinkCore.TrezorCrypto.Bignum

namespace TronlinkCore.TrezorCrypto

open Outcome

structure CurvePoint where
  x : Bignum256
  y : Bignum256
  deriving DecidableEq

structure JacobianCurvePoint where
  x : Bignum256
  y : Bignum256
  z : Bignum256
  deriving DecidableEq

structure EcdsaCurve where
  prime : Bignum256
  a : ℤ

/-- The coefficient with the other sign, as the eight bits that `bn_mult_k` reads -/
def EcdsaCurve.negA (curve : EcdsaCurve) : BitVec 8 := BitVec.ofInt 8 (-curve.a)

def pointJacobianDouble (p : JacobianCurvePoint) (curve : EcdsaCurve) : Outcome JacobianCurvePoint := do
  let prime := curve.prime
  check (-3 ≤ curve.a ∧ curve.a ≤ 0)
  -- m = (3 * x ^ 2 + a * z ^ 4) / 2
  let m ← bnMultiply p.x p.x prime
  let m := bnMultK m 3 prime
  let az4 ← bnMultiply p.z p.z prime
  let az4 ← bnMultiply az4 az4 prime
  let az4 := bnMultK az4 curve.negA prime
  let m := bnSubtractmod m az4 prime
  let m := bnMultHalf m prime
  let msq ← bnMultiply m m prime
  let ysq ← bnMultiply p.y p.y prime
  let xysq ← bnMultiply ysq p.x prime
  let z ← bnMultiply p.y p.z prime
  -- x3 = m ^ 2 - 2 * x * y ^ 2
  let x := bnFastMod (bnLshift xysq) prime
  let x := bnFastMod (bnSubtractmod msq x prime) prime
  -- y3 = m * (x * y ^ 2 - x3) - y ^ 4
  let y := bnSubtractmod xysq x prime
  let y ← bnMultiply m y prime
  let ysq ← bnMultiply ysq ysq prime
  let y := bnFastMod (bnSubtractmod y ysq prime) prime
  return ⟨x, y, z⟩

def pointJacobianAdd (p1 : CurvePoint) (p2 : JacobianCurvePoint) (curve : EcdsaCurve) : Outcome JacobianCurvePoint := do
  let prime := curve.prime
  check (-3 ≤ curve.a ∧ curve.a ≤ 0)
  let xz ← bnMultiply p2.z p2.z prime
  let yz ← bnMultiply xz p2.z prime
  let az ← (if curve.a ≠ 0 then do
      let az ← bnMultiply xz xz prime
      return bnMultK az curve.negA prime
    else return bnZero)
  let xz ← bnMultiply p1.x xz prime
  -- h = x1' - x2
  let h := bnFastMod (bnSubtractmod xz p2.x prime) prime
  let xz := bnAdd xz p2.x
  let is_doubling := bnIsEqual h prime
  let yz ← bnMultiply p1.y yz prime
  let r := bnSubtractmod yz p2.y prime
  let yz := bnAdd yz p2.y
  let r2 ← bnMultiply p2.x p2.x prime
  let r2 := bnMultK r2 3 prime
  let r2 := if curve.a ≠ 0 then bnSubtractmod r2 az prime else r2
  let r := bnCmov is_doubling r2 r
  let h := bnCmov is_doubling yz h
  let hsqx ← bnMultiply h h prime
  let hcby ← bnMultiply hsqx h prime
  let hsqx ← bnMultiply xz hsqx prime
  let hcby ← bnMultiply yz hcby prime
  let z ← bnMultiply h p2.z prime
  -- x3 = r ^ 2 - h ^ 2 * (x1 + x2)
  let x ← bnMultiply r r prime
  let x := bnFastMod (bnSubtractmod x hsqx prime) prime
  -- y3 = (r * (h ^ 2 * (x1 + x2) - 2 * x3) - h ^ 3 * (y1 + y2)) / 2
  let y := bnSubtractmod hsqx x prime
  let y := bnSubtractmod y x prime
  let y ← bnMultiply r y prime
  let y := bnSubtractmod y hcby prime
  let y := bnMultHalf y prime
  return ⟨x, bnFastMod y prime, z⟩

end TronlinkCore.TrezorCrypto

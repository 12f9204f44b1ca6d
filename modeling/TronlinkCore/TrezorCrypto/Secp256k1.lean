import Mathlib.Tactic.ReduceModChar
import Mathlib.Tactic.NormNum.Prime
import TronlinkCore.Library.Lucas
import TronlinkCore.TrezorCrypto.BignumSpec
import TronlinkCore.TrezorCrypto.Ecdsa

/-!
The numbers of `secp256k1.c`: the modulus is a prime of the form `4 * n + 3`,
and the generator is on the curve.
-/

namespace TronlinkCore.TrezorCrypto

def secp256k1Prime : Bignum256 :=
  ⟨[0x3ffffc2f, 0x3ffffffb, 0x3fffffff, 0x3fffffff, 0x3fffffff, 0x3fffffff, 0x3fffffff, 0x3fffffff, 0xffff], rfl⟩

def secp256k1 : EcdsaCurve := ⟨secp256k1Prime, 0⟩

def secp256k1G : CurvePoint where
  x := ⟨[0x16f81798, 0x27ca056c, 0x1ce28d95, 0x26ff36cb, 0x70b0702, 0x18a573a, 0xbbac55a, 0x199fbe77, 0x79be], rfl⟩
  y := ⟨[0x3b10d4b8, 0x311f423f, 0x28554199, 0x5ed1229, 0x1108a8fd, 0x13eff038, 0x3c4655da, 0x369dc9a8, 0x483a], rfl⟩

theorem secp256k1Prime_value : secp256k1Prime.value = 2 ^ 256 - 2 ^ 32 - 977 := by
  simp [Bignum256.value, secp256k1Prime]

theorem secp256k1Prime_modulus : Modulus secp256k1Prime where
  normalized := by simp [Bignum256.Normalized, secp256k1Prime, Limbs.Normalized.nil]
  lower := by
    rw [secp256k1Prime_value]
    norm_num
  upper := by
    rw [secp256k1Prime_value]
    norm_num

theorem secp256k1Prime_mod_four : secp256k1Prime.value % 4 = 3 := by
  rw [secp256k1Prime_value]
  norm_num

theorem prime_173378833005251801 : Nat.Prime 173378833005251801 := by
  apply Lucas.prime_of_powers 6 [2, 2, 2, 5, 5, 2621, 24809, 13331831]
  · norm_num
  · simp only [List.forall_mem_cons]
    norm_num
  · norm_num only
    reduce_mod_char
  · simp only [List.forall_mem_cons]
    norm_num only
    reduce_mod_char
    decide +kernel

theorem prime_22149492674086928081353 : Nat.Prime 22149492674086928081353 := by
  apply Lucas.prime_of_powers 5 [2, 2, 2, 3, 5323, 173378833005251801]
  · norm_num
  · simp only [List.forall_mem_cons, prime_173378833005251801]
    norm_num
  · norm_num only
    reduce_mod_char
  · simp only [List.forall_mem_cons]
    norm_num only
    reduce_mod_char
    decide +kernel

theorem prime_132896956044521568488119 : Nat.Prime 132896956044521568488119 := by
  apply Lucas.prime_of_powers 6 [2, 3, 22149492674086928081353]
  · norm_num
  · simp only [List.forall_mem_cons, prime_22149492674086928081353]
    norm_num
  · norm_num only
    reduce_mod_char
  · simp only [List.forall_mem_cons]
    norm_num only
    reduce_mod_char
    decide +kernel

theorem prime_255515944373312847190720520512484175977 : Nat.Prime 255515944373312847190720520512484175977 := by
  apply Lucas.prime_of_powers 3 [2, 2, 2, 7, 7, 11, 1627, 2657, 4423, 41201, 96557, 7240687, 107590001]
  · norm_num
  · simp only [List.forall_mem_cons]
    norm_num
  · norm_num only
    reduce_mod_char
  · simp only [List.forall_mem_cons]
    norm_num only
    reduce_mod_char
    decide +kernel

theorem prime_cofactor : Nat.Prime 205115282021455665897114700593932402728804164701536103180137503955397371 := by
  apply Lucas.prime_of_powers 10 [2, 3, 5, 29, 29, 31, 7723, 132896956044521568488119, 255515944373312847190720520512484175977]
  · norm_num
  · simp only [List.forall_mem_cons, prime_132896956044521568488119, prime_255515944373312847190720520512484175977]
    norm_num
  · norm_num only
    reduce_mod_char
  · simp only [List.forall_mem_cons]
    norm_num only
    reduce_mod_char
    decide +kernel

theorem secp256k1Prime_prime : secp256k1Prime.value.Prime := by
  have hvalue : secp256k1Prime.value = 115792089237316195423570985008687907853269984665640564039457584007908834671663 :=
    secp256k1Prime_value
  rw [hvalue]
  apply Lucas.prime_of_powers 3 [2, 3, 7, 13441, 205115282021455665897114700593932402728804164701536103180137503955397371]
  · norm_num
  · simp only [List.forall_mem_cons, prime_cofactor]
    norm_num
  · norm_num only
    reduce_mod_char
  · simp only [List.forall_mem_cons]
    norm_num only
    reduce_mod_char
    decide +kernel

instance : Fact secp256k1.prime.value.Prime := ⟨secp256k1Prime_prime⟩

theorem secp256k1G_x_value : secp256k1G.x.value = 0x79be667ef9dcbbac55a06295ce870b07029bfcdb2dce28d959f2815b16f81798 := by
  simp [Bignum256.value, secp256k1G]

theorem secp256k1G_y_value : secp256k1G.y.value = 0x483ada7726a3c4655da4fbfc0e1108a8fd17b448a68554199c47d08ffb10d4b8 := by
  simp [Bignum256.value, secp256k1G]

theorem secp256k1G_normalized : secp256k1G.x.Normalized ∧ secp256k1G.y.Normalized := by
  simp [Bignum256.Normalized, secp256k1G, Limbs.Normalized.nil]

theorem secp256k1G_lt : secp256k1G.x.value < secp256k1Prime.value ∧ secp256k1G.y.value < secp256k1Prime.value := by
  rw [secp256k1G_x_value, secp256k1G_y_value, secp256k1Prime_value]
  norm_num

theorem secp256k1G_equation : secp256k1G.y.value ^ 2 ≡ secp256k1G.x.value ^ 3 + 7 [MOD secp256k1Prime.value] := by
  rw [secp256k1G_x_value, secp256k1G_y_value, secp256k1Prime_value]
  decide +kernel

end TronlinkCore.TrezorCrypto

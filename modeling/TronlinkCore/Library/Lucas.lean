import Mathlib.NumberTheory.LucasPrimality

/-!
Lucas' test for a number whose predecessor is given by its prime factors.
-/

namespace TronlinkCore.Lucas

theorem prime_of_powers {p : ℕ} (a : ZMod p) (factors : List ℕ) (hprod : factors.prod = p - 1) (hfactors : ∀ q ∈ factors, q.Prime)
    (hone : a ^ (p - 1) = 1) (hne : ∀ q ∈ factors, a ^ ((p - 1) / q) ≠ 1) : p.Prime := by
  apply lucas_primality p a hone
  intro q hq hdvd
  rw [← hprod] at hdvd
  obtain ⟨r, hr, hqr⟩ := (Prime.dvd_prod_iff hq.prime).mp hdvd
  rw [(Nat.prime_dvd_prime_iff_eq hq (hfactors r hr)).mp hqr]
  exact hne r hr

end TronlinkCore.Lucas

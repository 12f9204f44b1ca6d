import TronlinkCore.Library.LittleEndian
import TronlinkCore.Library.Windows
import TronlinkCore.Library.Yields
import Mathlib.Logic.Function.Basic

/-!
Byte-addressed memory of allocations whose sizes are fixed. An access outside
its allocation stops the program, and so does a word that is not aligned.
-/

namespace TronlinkCore

open Outcome Windows LittleEndian

structure Memory {ρ : Type} (size : ρ → ℕ) where
  bytes : ρ → List UInt8
  bytes_length : ∀ a, (bytes a).length = size a

structure Pointer (ρ : Type) where
  allocation : ρ
  offset : ℕ

namespace Pointer

variable {ρ : Type}

/-- `pointer + count` of a raw pointer -/
def bytes (p : Pointer ρ) (count : ℕ) : Pointer ρ := ⟨p.allocation, p.offset + count⟩

/-- `pointer + count` of a pointer to `UInt32` -/
def words (p : Pointer ρ) (count : ℕ) : Pointer ρ := p.bytes (4 * count)

/-- `pointer + count` of a pointer to `UInt` -/
def longs (p : Pointer ρ) (count : ℕ) : Pointer ρ := p.bytes (8 * count)

@[simp] theorem bytes_allocation (p : Pointer ρ) (count : ℕ) : (p.bytes count).allocation = p.allocation := rfl
@[simp] theorem bytes_offset (p : Pointer ρ) (count : ℕ) : (p.bytes count).offset = p.offset + count := rfl
@[simp] theorem words_allocation (p : Pointer ρ) (count : ℕ) : (p.words count).allocation = p.allocation := rfl
@[simp] theorem words_offset (p : Pointer ρ) (count : ℕ) : (p.words count).offset = p.offset + 4 * count := rfl
@[simp] theorem longs_allocation (p : Pointer ρ) (count : ℕ) : (p.longs count).allocation = p.allocation := rfl
@[simp] theorem longs_offset (p : Pointer ρ) (count : ℕ) : (p.longs count).offset = p.offset + 8 * count := rfl

def Apart (p : Pointer ρ) (m : ℕ) (q : Pointer ρ) (n : ℕ) : Prop :=
  p.allocation = q.allocation → p.offset + m ≤ q.offset ∨ q.offset + n ≤ p.offset

theorem apart_of_ne {p q : Pointer ρ} {m n : ℕ} (h : p.allocation ≠ q.allocation) : p.Apart m q n :=
  fun heq => absurd heq h

theorem Apart.symm {p q : Pointer ρ} {m n : ℕ} (h : p.Apart m q n) : q.Apart n p m :=
  fun heq => (h heq.symm).symm

theorem Apart.left {p q : Pointer ρ} {m n i k : ℕ} (h : p.Apart m q n) (hk : i + k ≤ m) : (p.bytes i).Apart k q n := by
  intro heq
  have hpq := h heq
  rw [bytes_offset]
  omega

theorem Apart.right {p q : Pointer ρ} {m n i k : ℕ} (h : p.Apart m q n) (hk : i + k ≤ n) : p.Apart m (q.bytes i) k :=
  (h.symm.left hk).symm

theorem apart_bytes {p : Pointer ρ} {i j m n : ℕ} (h : i + m ≤ j ∨ j + n ≤ i) : (p.bytes i).Apart m (p.bytes j) n := by
  intro _
  rw [bytes_offset, bytes_offset]
  omega

theorem bytes_zero (p : Pointer ρ) : p.bytes 0 = p := rfl

theorem bytes_bytes (p : Pointer ρ) (i j : ℕ) : (p.bytes i).bytes j = p.bytes (i + j) := by
  rw [bytes, bytes, bytes, Nat.add_assoc]

theorem words_eq_bytes {p : Pointer ρ} {i j : ℕ} (h : 4 * i = j) : p.words i = p.bytes j := by
  subst h
  rfl

end Pointer

namespace Memory

variable {ρ : Type} {size : ρ → ℕ} {m : Memory size} {p q : Pointer ρ} {n k : ℕ} {bs cs : List UInt8}

def Fits (size : ρ → ℕ) (p : Pointer ρ) (n : ℕ) : Prop := p.offset + n ≤ size p.allocation

instance (p : Pointer ρ) (n : ℕ) : Decidable (Fits size p n) := inferInstanceAs (Decidable (_ ≤ _))

theorem Fits.bytes {i : ℕ} (h : Fits size p n) (hk : i + k ≤ n) : Fits size (p.bytes i) k := by
  simp only [Fits, Pointer.bytes_offset, Pointer.bytes_allocation] at h ⊢
  omega

def read (m : Memory size) (p : Pointer ρ) (n : ℕ) : List UInt8 := window (m.bytes p.allocation) p.offset n

theorem ext_bytes {m m' : Memory size} (h : ∀ a, m.bytes a = m'.bytes a) : m = m' := by
  obtain ⟨bytes, _⟩ := m
  obtain ⟨bytes', _⟩ := m'
  obtain rfl : bytes = bytes' := funext h
  rfl

theorem read_length (h : Fits size p n) : (m.read p n).length = n := by
  apply window_length
  rw [m.bytes_length]
  exact h

@[simp] theorem read_zero : m.read p 0 = [] := window_zero _ _

theorem read_add (n k : ℕ) : m.read p (n + k) = m.read p n ++ m.read (p.bytes n) k := window_add _ _ _ _

theorem window_read {i : ℕ} (h : i + k ≤ n) : window (m.read p n) i k = m.read (p.bytes i) k := window_window h

theorem flatMap_read (w n : ℕ) : ((List.range n).flatMap fun i => m.read (p.bytes (w * i)) w) = m.read p (w * n) := by
  induction n with
  | zero => simp
  | succ n ih => rw [List.range_succ, List.flatMap_append, ih, List.flatMap_singleton, Nat.mul_succ, read_add]

abbrev Program (size : ρ → ℕ) (α : Type) := StateT (Memory size) Outcome α

def load (p : Pointer ρ) (n : ℕ) : Program size (List UInt8) := fun m =>
  if Fits size p n then ok (m.read p n, m) else trap

def loadUInt32 (p : Pointer ρ) : Program size UInt32 := do
  check (p.offset % 4 = 0)
  let bs ← load p 4
  return UInt32.ofNat (ofBytes bs)

def loadUInt64 (p : Pointer ρ) : Program size UInt64 := do
  check (p.offset % 8 = 0)
  let bs ← load p 8
  return UInt64.ofNat (ofBytes bs)

theorem yields_load (h : Fits size p n) : Yields (load p n) m fun bs t => bs = m.read p n ∧ t = m :=
  ⟨m.read p n, m, if_pos h, rfl, rfl⟩

theorem yields_loadUInt32 (ha : p.offset % 4 = 0) (h : Fits size p 4) :
    Yields (loadUInt32 p) m fun value t => value = UInt32.ofNat (ofBytes (m.read p 4)) ∧ t = m := by
  apply Yields.lift_bind (check_true ha)
  apply (yields_load h).bind
  rintro bs t ⟨rfl, rfl⟩
  exact Yields.pure ⟨rfl, rfl⟩

theorem yields_loadUInt64 (ha : p.offset % 8 = 0) (h : Fits size p 8) :
    Yields (loadUInt64 p) m fun value t => value = UInt64.ofNat (ofBytes (m.read p 8)) ∧ t = m := by
  apply Yields.lift_bind (check_true ha)
  apply (yields_load h).bind
  rintro bs t ⟨rfl, rfl⟩
  exact Yields.pure ⟨rfl, rfl⟩

variable [DecidableEq ρ]

def write (m : Memory size) (p : Pointer ρ) (bs : List UInt8) : Memory size where
  bytes := Function.update m.bytes p.allocation (overwrite (m.bytes p.allocation) p.offset bs)
  bytes_length a := by
    by_cases ha : a = p.allocation
    · subst ha
      rw [Function.update_self, overwrite_length, m.bytes_length]
    · rw [Function.update_of_ne ha, m.bytes_length]

theorem write_bytes (a : ρ) :
    (m.write p bs).bytes a = if a = p.allocation then overwrite (m.bytes a) p.offset bs else m.bytes a := by
  by_cases ha : a = p.allocation
  · subst ha
    rw [if_pos rfl]
    exact Function.update_self _ _ _
  · rw [if_neg ha]
    exact Function.update_of_ne ha _ _

theorem read_write_self (h : Fits size p bs.length) : (m.write p bs).read p bs.length = bs := by
  rw [read, write_bytes, if_pos rfl]
  apply window_overwrite_self
  rw [m.bytes_length]
  exact h

theorem read_write_of_length (h : Fits size p n) (hn : bs.length = n) : (m.write p bs).read p n = bs := by
  subst hn
  exact read_write_self h

theorem read_write_of_apart (h : Fits size p bs.length) (ha : q.Apart n p bs.length) :
    (m.write p bs).read q n = m.read q n := by
  rw [read, read, write_bytes]
  by_cases heq : q.allocation = p.allocation
  · rw [if_pos heq, heq]
    apply window_overwrite_of_apart _ (ha heq)
    rw [m.bytes_length]
    exact h
  · rw [if_neg heq]

@[simp] theorem write_nil : m.write p [] = m := by
  apply ext_bytes
  intro a
  rw [write_bytes, overwrite_nil, ite_self]

theorem write_append (h : Fits size p (bs ++ cs).length) :
    (m.write p bs).write (p.bytes bs.length) cs = m.write p (bs ++ cs) := by
  rw [Fits, List.length_append] at h
  apply ext_bytes
  intro a
  rw [write_bytes, write_bytes, write_bytes, Pointer.bytes_allocation, Pointer.bytes_offset]
  by_cases ha : a = p.allocation
  · subst ha
    rw [if_pos rfl, if_pos rfl, if_pos rfl]
    apply overwrite_append
    rw [m.bytes_length]
    omega
  · rw [if_neg ha, if_neg ha, if_neg ha]

def store (p : Pointer ρ) (bs : List UInt8) : Program size Unit := fun m =>
  if Fits size p bs.length then ok ((), m.write p bs) else trap

def copyMemory (dest src : Pointer ρ) (byteCount : ℕ) : Program size Unit := do
  let bs ← load src byteCount
  store dest bs

def storeUInt32 (p : Pointer ρ) (value : UInt32) : Program size Unit := do
  check (p.offset % 4 = 0)
  store p (toBytes 4 value.toNat)

def storeUInt64 (p : Pointer ρ) (value : UInt64) : Program size Unit := do
  check (p.offset % 8 = 0)
  store p (toBytes 8 value.toNat)

theorem yields_store (h : Fits size p bs.length) : Yields (store p bs) m fun _ t => t = m.write p bs :=
  ⟨(), m.write p bs, if_pos h, rfl⟩

theorem yields_copyMemory (hsrc : Fits size q n) (hdest : Fits size p n) :
    Yields (copyMemory p q n) m fun _ t => t = m.write p (m.read q n) := by
  apply (yields_load hsrc).bind
  rintro bs t ⟨rfl, rfl⟩
  exact yields_store (by rwa [read_length hsrc])

theorem yields_storeUInt32 {value : UInt32} (ha : p.offset % 4 = 0) (h : Fits size p 4) :
    Yields (storeUInt32 p value) m fun _ t => t = m.write p (toBytes 4 value.toNat) := by
  apply Yields.lift_bind (check_true ha)
  exact yields_store (by rwa [toBytes_length])

theorem yields_copyUInt32 (ha : p.offset % 4 = 0) (h : Fits size p 4) (ha' : q.offset % 4 = 0) (h' : Fits size q 4) :
    Yields (do let word ← loadUInt32 q; storeUInt32 p word) m fun _ t => t = m.write p (m.read q 4) := by
  apply (yields_loadUInt32 ha' h').bind
  rintro word t ⟨rfl, ht⟩
  rw [ht]
  apply (yields_storeUInt32 ha h).mono
  rintro _ u rfl
  rw [toBytes_uint32 (read_length h')]

theorem yields_storeUInt64 {value : UInt64} (ha : p.offset % 8 = 0) (h : Fits size p 8) :
    Yields (storeUInt64 p value) m fun _ t => t = m.write p (toBytes 8 value.toNat) := by
  apply Yields.lift_bind (check_true ha)
  exact yields_store (by rwa [toBytes_length])

def Keeps (places : Pointer ρ → ℕ → Prop) (m t : Memory size) : Prop := ∀ q k, places q k → t.read q k = m.read q k

theorem yields_fill {w : ℕ} {g : ℕ → List UInt8} {body : ℕ → Program size Unit} (hg : ∀ i, i < n → (g i).length = w)
    (h : Fits size p (w * n))
    (hbody : ∀ i t, i < n → Keeps (fun q k => q.Apart k p (w * i)) m t →
      Yields (body i) t fun _ u => u = t.write (p.bytes (w * i)) (g i)) :
    Yields ((List.range n).forM body) m fun _ t => t = m.write p ((List.range n).flatMap g) := by
  have hlen (i : ℕ) (hi : i ≤ n) : ((List.range i).flatMap g).length = w * i := by
    induction i with
    | zero => rfl
    | succ i ih =>
      rw [List.range_succ, List.flatMap_append, List.flatMap_singleton, List.length_append, ih (by omega), hg i hi, Nat.mul_succ]
  have hfits (i : ℕ) (hi : i ≤ n) : Fits size p ((List.range i).flatMap g).length := by
    rw [hlen i hi]
    exact Nat.le_trans (Nat.add_le_add_left (Nat.mul_le_mul_left w hi) _) h
  apply Yields.range (fun i t => t = m.write p ((List.range i).flatMap g))
  · rintro i t hi rfl
    apply (hbody i _ hi _).mono
    · rintro _ u rfl
      have happend := hfits (i + 1) hi
      rw [List.range_succ, List.flatMap_append, List.flatMap_singleton] at happend ⊢
      rw [← write_append happend, hlen i hi.le]
    · intro q k hq
      apply read_write_of_apart (hfits i hi.le)
      rwa [hlen i hi.le]
  · exact write_nil.symm

end Memory

end TronlinkCore

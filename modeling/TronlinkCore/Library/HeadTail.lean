import TronlinkCore.Library.BigEndian
import Mathlib.Data.Nat.Basic

/-!
Trees of 32-byte words and byte strings laid out as heads and tails: a static
component stands in its head slot, a dynamic one leaves the offset of its tail
there. Offsets count from the first byte of the sequence.
-/

namespace TronlinkCore.HeadTail

open BigEndian

inductive Ty where
  | word
  | payload
  /-- `none` is an array whose element count is part of the encoding. -/
  | array (element : Ty) (count : Option ℕ)
  | tuple (members : List Ty)

inductive WordTree where
  | word (bytes : List UInt8)
  | payload (bytes : List UInt8)
  | node (children : List WordTree)

@[elab_as_elim]
theorem Ty.induct {P : Ty → Prop} (word : P .word) (payload : P .payload)
    (array : ∀ t c, P t → P (.array t c)) (tuple : ∀ ts, (∀ t ∈ ts, P t) → P (.tuple ts)) (t : Ty) : P t :=
  @Ty.rec P (fun ts => ∀ t ∈ ts, P t) word payload array tuple
    (by simp) (fun _ _ ht hts => by simp [ht]; exact hts) t

def wordOf (n : ℕ) : List UInt8 := toBytes 32 n

@[simp] theorem wordOf_length (n : ℕ) : (wordOf n).length = 32 := toBytes_length 32 n

def FitsWord (n : ℕ) : Prop := n < 256 ^ 32

instance (n : ℕ) : Decidable (FitsWord n) := inferInstanceAs (Decidable (n < 256 ^ 32))

theorem ofBytes_wordOf {n : ℕ} (h : FitsWord n) : ofBytes (wordOf n) = n := ofBytes_toBytes_of_lt h

theorem wordOf_ofBytes {w : List UInt8} (h : w.length = 32) : wordOf (ofBytes w) = w := toBytes_of_length h

theorem fitsWord_ofBytes {w : List UInt8} (h : w.length = 32) : FitsWord (ofBytes w) := by
  have hlt := ofBytes_lt w
  rwa [h] at hlt

def padding (n : ℕ) : ℕ := (32 - n % 32) % 32

def padded (bs : List UInt8) : List UInt8 := bs ++ List.replicate (padding bs.length) 0

@[simp] theorem padded_length (bs : List UInt8) : (padded bs).length = bs.length + padding bs.length := by
  simp [padded]

theorem padding_lt (n : ℕ) : padding n < 32 := by unfold padding; omega

theorem dvd_add_padding (n : ℕ) : 32 ∣ n + padding n := by unfold padding; omega

mutual
def isStatic : Ty → Bool
  | .word => true
  | .payload => false
  | .array _ none => false
  | .array t (some _) => isStatic t
  | .tuple ts => allStatic ts

def allStatic : List Ty → Bool
  | [] => true
  | t :: ts => isStatic t && allStatic ts
end

mutual
def headSize : Ty → ℕ
  | .word => 32
  | .payload => 32
  | .array _ none => 32
  | .array t (some n) => if isStatic t then headSize t * n else 32
  | .tuple ts => if allStatic ts then headSizes ts else 32

def headSizes : List Ty → ℕ
  | [] => 0
  | t :: ts => headSize t + headSizes ts
end

theorem headSize_of_dynamic {t : Ty} (h : isStatic t = false) : headSize t = 32 := by
  cases t with
  | word => rfl
  | payload => rfl
  | array t c =>
    cases c with
    | none => rfl
    | some n => rw [isStatic] at h; simp [headSize, h]
  | tuple ts => rw [isStatic] at h; simp [headSize, h]

theorem headSizes_replicate (t : Ty) (n : ℕ) : headSizes (List.replicate n t) = n * headSize t := by
  induction n with
  | zero => simp [headSizes]
  | succ n ih => rw [List.replicate_succ, headSizes, ih, Nat.succ_mul, Nat.add_comm]

def headLength : List (Bool × List UInt8) → ℕ
  | [] => 0
  | (static, bs) :: ps => (if static then bs.length else 32) + headLength ps

def heads (offset : ℕ) : List (Bool × List UInt8) → List UInt8
  | [] => []
  | (static, bs) :: ps =>
    if static then bs ++ heads offset ps else wordOf offset ++ heads (offset + bs.length) ps

def tails : List (Bool × List UInt8) → List UInt8
  | [] => []
  | (static, bs) :: ps => if static then tails ps else bs ++ tails ps

def assemble (ps : List (Bool × List UInt8)) : List UInt8 := heads (headLength ps) ps ++ tails ps

@[simp] theorem heads_length (offset : ℕ) (ps : List (Bool × List UInt8)) :
    (heads offset ps).length = headLength ps := by
  induction ps generalizing offset with
  | nil => rfl
  | cons p ps ih =>
    obtain ⟨static, bs⟩ := p
    cases static <;> simp [heads, headLength, ih]

theorem assemble_length (ps : List (Bool × List UInt8)) :
    (assemble ps).length = headLength ps + (tails ps).length := by
  simp [assemble]

theorem headLength_append (ps qs : List (Bool × List UInt8)) :
    headLength (ps ++ qs) = headLength ps + headLength qs := by
  induction ps with
  | nil => rw [List.nil_append, headLength, Nat.zero_add]
  | cons p ps ih => rw [List.cons_append, headLength, headLength, ih, Nat.add_assoc]

theorem tails_append (ps qs : List (Bool × List UInt8)) : tails (ps ++ qs) = tails ps ++ tails qs := by
  induction ps with
  | nil => rfl
  | cons p ps ih =>
    obtain ⟨static, bs⟩ := p
    rw [List.cons_append, tails, tails, ih]
    cases static with
    | true => rfl
    | false => exact (List.append_assoc bs _ _).symm

theorem heads_append (offset : ℕ) (ps qs : List (Bool × List UInt8)) :
    heads offset (ps ++ qs) = heads offset ps ++ heads (offset + (tails ps).length) qs := by
  induction ps generalizing offset with
  | nil => rfl
  | cons p ps ih =>
    obtain ⟨static, bs⟩ := p
    rw [List.cons_append, heads, heads, tails, ih, ih]
    cases static with
    | true => exact (List.append_assoc bs _ _).symm
    | false =>
      simp only [Bool.false_eq_true, if_false, List.length_append]
      rw [List.append_assoc, Nat.add_assoc]

theorem assemble_dynamic (ps qs : List (Bool × List UInt8)) (bs : List UInt8) :
    ∃ front back, front.length = headLength ps ∧ back.length = headLength qs ∧
      assemble (ps ++ (false, bs) :: qs) =
        front ++ wordOf (headLength ps + 32 + headLength qs + (tails ps).length) ++ back ++ tails ps ++ bs ++ tails qs := by
  have hlength : headLength (ps ++ (false, bs) :: qs) = headLength ps + 32 + headLength qs := by
    rw [headLength_append, headLength, if_neg (by decide), Nat.add_assoc]
  let start := headLength ps + 32 + headLength qs
  refine ⟨heads start ps, heads (start + (tails ps).length + bs.length) qs, heads_length _ ps, heads_length _ qs, ?_⟩
  rw [assemble, hlength, heads_append, tails_append, heads, tails, if_neg (by decide), if_neg (by decide)]
  simp only [List.append_assoc]
  rfl

theorem dvd_assemble_length {ps : List (Bool × List UInt8)} (h : ∀ p ∈ ps, 32 ∣ p.2.length) :
    32 ∣ headLength ps ∧ 32 ∣ (tails ps).length := by
  induction ps with
  | nil => simp [headLength, tails]
  | cons q ps ih =>
    obtain ⟨static, bs⟩ := q
    have hq : 32 ∣ bs.length := h (static, bs) (by simp)
    obtain ⟨hh, ht⟩ := ih (fun p hp => h p (List.mem_cons_of_mem _ hp))
    cases static <;> simp [headLength, tails] <;> omega

mutual
def wire : Ty → WordTree → List UInt8
  | .word, .word bs => bs
  | .payload, .payload bs => wordOf bs.length ++ padded bs
  | .array t none, .node xs => wordOf xs.length ++ assemble (xs.map fun x => (isStatic t, wire t x))
  | .array t (some _), .node xs => assemble (xs.map fun x => (isStatic t, wire t x))
  | .tuple ts, .node xs => assemble (components ts xs)
  | _, _ => []

def components : List Ty → List WordTree → List (Bool × List UInt8)
  | t :: ts, x :: xs => (isStatic t, wire t x) :: components ts xs
  | _, _ => []
end

mutual
def Fits : Ty → WordTree → Prop
  | .word, .word bs => bs.length = 32
  | .payload, .payload _ => True
  | .array t none, .node xs => FitsWord xs.length ∧ ∀ x ∈ xs, Fits t x
  | .array t (some n), .node xs => xs.length = n ∧ ∀ x ∈ xs, Fits t x
  | .tuple ts, .node xs => FitsAll ts xs
  | _, _ => False

def FitsAll : List Ty → List WordTree → Prop
  | [], [] => True
  | t :: ts, x :: xs => Fits t x ∧ FitsAll ts xs
  | _, _ => False
end

theorem FitsAll.length_eq {ts : List Ty} {xs : List WordTree} (h : FitsAll ts xs) : ts.length = xs.length := by
  induction ts generalizing xs with
  | nil =>
    cases xs with
    | nil => rfl
    | cons x xs => simp [FitsAll] at h
  | cons t ts ih =>
    cases xs with
    | nil => simp [FitsAll] at h
    | cons x xs => simp [ih (by simpa [FitsAll] using h.2)]

theorem components_replicate (t : Ty) (xs : List WordTree) :
    components (List.replicate xs.length t) xs = xs.map fun x => (isStatic t, wire t x) := by
  induction xs with
  | nil => simp [components]
  | cons x xs ih => simp [List.replicate_succ, components, ih]

theorem fitsAll_replicate {t : Ty} {xs : List WordTree} :
    FitsAll (List.replicate xs.length t) xs ↔ ∀ x ∈ xs, Fits t x := by
  induction xs with
  | nil => simp [FitsAll]
  | cons x xs ih => simp [List.replicate_succ, FitsAll, ih]

theorem allStatic_replicate {t : Ty} (n : ℕ) (h : isStatic t = true) :
    allStatic (List.replicate n t) = true := by
  induction n with
  | zero => rfl
  | succ n ih => simp [List.replicate_succ, allStatic, h, ih]

def Aligned (t : Ty) (x : WordTree) : Prop :=
  32 ∣ (wire t x).length ∧ (isStatic t = true → (wire t x).length = headSize t)

theorem aligned_components {ts : List Ty} {xs : List WordTree} (h : FitsAll ts xs)
    (ha : ∀ t ∈ ts, ∀ x, Fits t x → Aligned t x) :
    (∀ p ∈ components ts xs, 32 ∣ p.2.length) ∧ headLength (components ts xs) = headSizes ts ∧
      (allStatic ts = true → tails (components ts xs) = []) := by
  induction ts generalizing xs with
  | nil =>
    cases xs with
    | nil => simp [components, headLength, headSizes, tails]
    | cons x xs => simp [FitsAll] at h
  | cons t ts ih =>
    cases xs with
    | nil => simp [FitsAll] at h
    | cons x xs =>
      obtain ⟨hx, hxs⟩ : Fits t x ∧ FitsAll ts xs := by simpa [FitsAll] using h
      obtain ⟨hd, hs⟩ := ha t (by simp) x hx
      obtain ⟨hp, hh, ht⟩ := ih hxs (fun t ht => ha t (List.mem_cons_of_mem _ ht))
      refine ⟨?_, ?_, ?_⟩
      · intro p hp'
        rcases List.mem_cons.mp (by simpa [components] using hp') with rfl | hp'
        · exact hd
        · exact hp p hp'
      · cases hst : isStatic t with
        | true => simp [components, headLength, headSizes, hst, hs hst, hh]
        | false => simp [components, headLength, headSizes, hst, headSize_of_dynamic hst, hh]
      · intro hall
        obtain ⟨hst, hall⟩ : isStatic t = true ∧ allStatic ts = true := by simpa [allStatic] using hall
        simp [components, tails, hst, ht hall]

theorem aligned_assemble {ts : List Ty} {xs : List WordTree} (h : FitsAll ts xs)
    (ha : ∀ t ∈ ts, ∀ x, Fits t x → Aligned t x) :
    32 ∣ (assemble (components ts xs)).length ∧
      (allStatic ts = true → (assemble (components ts xs)).length = headSizes ts) := by
  obtain ⟨hp, hh, ht⟩ := aligned_components h ha
  obtain ⟨hhd, htd⟩ := dvd_assemble_length hp
  rw [assemble_length]
  refine ⟨by omega, fun hall => ?_⟩
  rw [ht hall, hh]
  simp

theorem aligned (t : Ty) (x : WordTree) (h : Fits t x) : Aligned t x := by
  induction t using Ty.induct generalizing x with
  | word =>
    cases x with
    | word bs =>
      have hb : bs.length = 32 := by simpa [Fits] using h
      simp [Aligned, wire, headSize, hb]
    | payload bs => simp [Fits] at h
    | node xs => simp [Fits] at h
  | payload =>
    cases x with
    | payload bs =>
      have := dvd_add_padding bs.length
      simp only [Aligned, wire, List.length_append, wordOf_length, padded_length, isStatic]
      exact ⟨by omega, by simp⟩
    | word bs => simp [Fits] at h
    | node xs => simp [Fits] at h
  | array t c ih =>
    cases x with
    | node xs =>
      have hall : ∀ x ∈ xs, Fits t x := by
        cases c with
        | none => exact (by simpa [Fits] using h : FitsWord xs.length ∧ ∀ x ∈ xs, Fits t x).2
        | some n => exact (by simpa [Fits] using h : xs.length = n ∧ ∀ x ∈ xs, Fits t x).2
      have hrep := aligned_assemble (fitsAll_replicate.mpr hall)
        (fun s hs x hx => (List.eq_of_mem_replicate hs) ▸ ih x ((List.eq_of_mem_replicate hs) ▸ hx))
      rw [components_replicate, headSizes_replicate] at hrep
      cases c with
      | none =>
        refine ⟨?_, by simp [isStatic]⟩
        simp only [wire, List.length_append, wordOf_length]
        omega
      | some n =>
        have hn : xs.length = n := (by simpa [Fits] using h : xs.length = n ∧ ∀ x ∈ xs, Fits t x).1
        refine ⟨by simpa only [wire] using hrep.1, fun hs => ?_⟩
        rw [isStatic] at hs
        rw [wire, hrep.2 (allStatic_replicate _ hs), headSize, if_pos hs, hn, Nat.mul_comm]
    | word bs => cases c <;> simp [Fits] at h
    | payload bs => cases c <;> simp [Fits] at h
  | tuple ts ih =>
    cases x with
    | node xs =>
      have hrep := aligned_assemble (by simpa [Fits] using h) ih
      refine ⟨by simpa only [wire] using hrep.1, fun hs => ?_⟩
      rw [isStatic] at hs
      rw [wire, hrep.2 hs, headSize, if_pos hs]
    | word bs => simp [Fits] at h
    | payload bs => simp [Fits] at h

theorem headLength_components {ts : List Ty} {xs : List WordTree} (h : FitsAll ts xs) :
    headLength (components ts xs) = headSizes ts :=
  (aligned_components h (fun t _ x => aligned t x)).2.1

end TronlinkCore.HeadTail

import TronlinkCore.Library.HeadTail

/-!
What it means that a buffer holds a tree at a position, for offsets that may
point anywhere behind the heads of their sequence, also twice to one tail.
-/

namespace TronlinkCore.HeadTail

open BigEndian

def At (data : List UInt8) (pos : ℕ) (bs : List UInt8) : Prop :=
  ∃ before after, data = before ++ bs ++ after ∧ before.length = pos

theorem At.le {data : List UInt8} {pos : ℕ} {bs : List UInt8} (h : At data pos bs) :
    pos + bs.length ≤ data.length := by
  obtain ⟨before, after, rfl, rfl⟩ := h
  simp

theorem At.slice {data : List UInt8} {pos : ℕ} {bs : List UInt8} (h : At data pos bs) :
    (data.drop pos).take bs.length = bs := by
  obtain ⟨before, after, rfl, rfl⟩ := h
  simp [List.append_assoc]

theorem at_slice {data : List UInt8} {pos len : ℕ} (h : pos + len ≤ data.length) :
    At data pos ((data.drop pos).take len) := by
  refine ⟨data.take pos, data.drop (pos + len), ?_, ?_⟩
  · rw [List.append_assoc, ← List.drop_drop, List.take_append_drop, List.take_append_drop]
  · rw [List.length_take]
    omega

theorem at_append {data : List UInt8} {pos : ℕ} {as bs : List UInt8} :
    At data pos (as ++ bs) ↔ At data pos as ∧ At data (pos + as.length) bs := by
  constructor
  · rintro ⟨before, after, rfl, rfl⟩
    exact ⟨⟨before, bs ++ after, by simp, rfl⟩, ⟨before ++ as, after, by simp, by simp⟩⟩
  · rintro ⟨ha, hb⟩
    have hla := ha.le
    have hlb := hb.le
    have hsplit : (data.drop pos).take (as.length + bs.length) = as ++ bs := by
      rw [List.take_add, ha.slice, List.drop_drop, hb.slice]
    rw [← hsplit]
    exact at_slice (by omega)

theorem at_nil {data : List UInt8} {pos : ℕ} (h : pos ≤ data.length) : At data pos [] :=
  ⟨data.take pos, data.drop pos, by simp, by simp [h]⟩

def Slot (data : List UInt8) (static : Bool) (body : ℕ → Prop) (base head floor : ℕ) : Prop :=
  if static then body head
  else ∃ offset, At data head (wordOf offset) ∧ floor ≤ offset ∧ 32 ∣ offset ∧
    base + offset ≤ data.length ∧ body (base + offset)

def InSlots (slot : ℕ → WordTree → Prop) (width : ℕ) : ℕ → List WordTree → Prop
  | _, [] => True
  | head, x :: xs => slot head x ∧ InSlots slot width (head + width) xs

mutual
def Body (data : List UInt8) : Ty → ℕ → WordTree → Prop
  | .word, start, .word bs => bs.length = 32 ∧ At data start bs
  | .payload, start, .payload bs => At data start (wordOf bs.length ++ padded bs)
  | .array t none, start, .node xs =>
    FitsWord xs.length ∧ At data start (wordOf xs.length) ∧ start + 32 + xs.length * headSize t ≤ data.length ∧
      InSlots (fun head x => Slot data (isStatic t) (fun s => Body data t s x)
        (start + 32) head (xs.length * headSize t)) (headSize t) (start + 32) xs
  | .array t (some n), start, .node xs =>
    xs.length = n ∧ start + xs.length * headSize t ≤ data.length ∧
      InSlots (fun head x => Slot data (isStatic t) (fun s => Body data t s x)
        start head (xs.length * headSize t)) (headSize t) start xs
  | .tuple ts, start, .node xs =>
    start + headSizes ts ≤ data.length ∧ Members data ts start (headSizes ts) start xs
  | _, _, _ => False

def Members (data : List UInt8) : List Ty → ℕ → ℕ → ℕ → List WordTree → Prop
  | [], _, _, _, [] => True
  | t :: ts, base, floor, head, x :: xs =>
    Slot data (isStatic t) (fun s => Body data t s x) base head floor ∧
      Members data ts base floor (head + headSize t) xs
  | _, _, _, _, _ => False
end

def Holds (data : List UInt8) (t : Ty) (base head floor : ℕ) (x : WordTree) : Prop :=
  Slot data (isStatic t) (fun start => Body data t start x) base head floor

theorem members_replicate {data : List UInt8} {t : Ty} {base floor head : ℕ} {xs : List WordTree} :
    Members data (List.replicate xs.length t) base floor head xs ↔
      InSlots (fun head x => Holds data t base head floor x) (headSize t) head xs := by
  induction xs generalizing head with
  | nil => simp [Members, InSlots]
  | cons x xs ih => rw [List.length_cons, List.replicate_succ, Members, InSlots, ih, Holds]

theorem Members.length_eq {data : List UInt8} {ts : List Ty} {xs : List WordTree} {base floor head : ℕ}
    (h : Members data ts base floor head xs) : ts.length = xs.length := by
  induction ts generalizing head xs with
  | nil =>
    cases xs with
    | nil => rfl
    | cons x xs => simp [Members] at h
  | cons t ts ih =>
    cases xs with
    | nil => simp [Members] at h
    | cons x xs =>
      rw [Members] at h
      rw [List.length_cons, List.length_cons, ih h.2]

theorem members_of_at {data : List UInt8} {ts : List Ty} {xs : List WordTree} (base pre tailPos : ℕ)
    (hf : FitsAll ts xs) (hpre : 32 ∣ pre) (htail : 32 ∣ tailPos)
    (ih : ∀ t ∈ ts, ∀ x start, Fits t x → At data start (wire t x) → Body data t start x)
    (hh : At data (base + pre) (heads tailPos (components ts xs)))
    (ht : At data (base + tailPos) (tails (components ts xs))) (floor : ℕ) (hfl : floor ≤ tailPos) :
    Members data ts base floor (base + pre) xs := by
  induction ts generalizing xs pre tailPos with
  | nil =>
    cases xs with
    | nil => simp [Members]
    | cons x xs => simp [FitsAll] at hf
  | cons t ts ihs =>
    cases xs with
    | nil => simp [FitsAll] at hf
    | cons x xs =>
      obtain ⟨hx, hxs⟩ : Fits t x ∧ FitsAll ts xs := by simpa [FitsAll] using hf
      obtain ⟨hd, hlen⟩ := aligned t x hx
      have ih' : ∀ t ∈ ts, ∀ x start, Fits t x → At data start (wire t x) → Body data t start x :=
        fun t ht => ih t (List.mem_cons_of_mem _ ht)
      rw [Members]
      cases hst : isStatic t with
      | true =>
        simp only [components, heads, tails, hst, if_true] at hh ht
        obtain ⟨hhead, hrest⟩ := at_append.mp hh
        rw [hlen hst, Nat.add_assoc] at hrest
        refine ⟨?_, ?_⟩
        · simpa only [Slot, if_true] using ih t (by simp) x _ hx hhead
        · rw [Nat.add_assoc]
          exact ihs (pre + headSize t) tailPos hxs (by have := hlen hst; omega) htail ih' hrest ht hfl
      | false =>
        simp only [components, heads, tails, hst, Bool.false_eq_true, if_false] at hh ht
        obtain ⟨hhead, hrest⟩ := at_append.mp hh
        obtain ⟨htail1, htails⟩ := at_append.mp ht
        have hle := htail1.le
        rw [wordOf_length, Nat.add_assoc] at hrest
        rw [Nat.add_assoc] at htails
        rw [headSize_of_dynamic hst, Nat.add_assoc]
        refine ⟨?_, ihs (pre + 32) _ hxs (by omega) (by omega) ih' hrest htails (by omega)⟩
        simp only [Slot, Bool.false_eq_true, if_false]
        exact ⟨tailPos, hhead, hfl, htail, by omega, ih t (by simp) x _ hx htail1⟩

theorem members_of_assemble {data : List UInt8} {ts : List Ty} {xs : List WordTree} {base : ℕ}
    (hf : FitsAll ts xs)
    (ih : ∀ t ∈ ts, ∀ x start, Fits t x → At data start (wire t x) → Body data t start x)
    (h : At data base (assemble (components ts xs))) :
    base + headSizes ts ≤ data.length ∧ Members data ts base (headSizes ts) base xs := by
  have hlen := headLength_components hf
  have hdvd := (dvd_assemble_length (aligned_components hf (fun t _ x => aligned t x)).1).1
  obtain ⟨hh, ht⟩ := at_append.mp h
  have hle := hh.le
  rw [heads_length, hlen] at ht hle
  rw [hlen] at hdvd hh
  exact ⟨hle, members_of_at base 0 _ hf ⟨0, rfl⟩ hdvd ih hh ht _ (le_refl _)⟩

theorem body_of_at {data : List UInt8} (t : Ty) (x : WordTree) (start : ℕ) (hf : Fits t x)
    (h : At data start (wire t x)) : Body data t start x := by
  induction t using Ty.induct generalizing x start with
  | word =>
    cases x with
    | word bs => exact ⟨by simpa [Fits] using hf, by simpa only [wire] using h⟩
    | payload bs => simp [Fits] at hf
    | node xs => simp [Fits] at hf
  | payload =>
    cases x with
    | payload bs => simpa only [Body, wire] using h
    | word bs => simp [Fits] at hf
    | node xs => simp [Fits] at hf
  | array t c ih =>
    have elements (xs : List WordTree) (base : ℕ) (hall : ∀ x ∈ xs, Fits t x)
        (ha : At data base (assemble (xs.map fun x => (isStatic t, wire t x)))) :
        base + xs.length * headSize t ≤ data.length ∧
          InSlots (fun head x => Holds data t base head (xs.length * headSize t) x) (headSize t) base xs := by
      rw [← components_replicate] at ha
      have hm := members_of_assemble (fitsAll_replicate.mpr hall)
        (fun s hs x start hx hat => by
          obtain rfl := List.eq_of_mem_replicate hs
          exact ih x start hx hat) ha
      rw [headSizes_replicate] at hm
      exact ⟨hm.1, members_replicate.mp hm.2⟩
    cases x with
    | node xs =>
      cases c with
      | none =>
        simp only [Fits] at hf
        simp only [wire] at h
        obtain ⟨hcount, hrest⟩ := at_append.mp h
        rw [wordOf_length] at hrest
        exact ⟨hf.1, hcount, elements xs (start + 32) hf.2 hrest⟩
      | some n =>
        simp only [Fits] at hf
        simp only [wire] at h
        exact ⟨hf.1, elements xs start hf.2 h⟩
    | word bs => cases c <;> simp [Fits] at hf
    | payload bs => cases c <;> simp [Fits] at hf
  | tuple ts ih =>
    cases x with
    | node xs =>
      simp only [Fits] at hf
      simp only [wire] at h
      exact members_of_assemble hf ih h
    | word bs => simp [Fits] at hf
    | payload bs => simp [Fits] at hf

theorem members_fits {data : List UInt8} {ts : List Ty} {xs : List WordTree} {base floor head : ℕ}
    (h : Members data ts base floor head xs)
    (ih : ∀ t ∈ ts, ∀ x start, Body data t start x →
      Fits t x ∧ (isStatic t = true → At data start (wire t x)))
    (hle : head + headSizes ts ≤ data.length) :
    FitsAll ts xs ∧
      (allStatic ts = true → ∀ off, At data head (heads off (components ts xs))) := by
  induction ts generalizing xs head with
  | nil =>
    cases xs with
    | nil =>
      refine ⟨by simp [FitsAll], fun _ off => ?_⟩
      exact at_nil (by simpa [headSizes] using hle)
    | cons x xs => simp [Members] at h
  | cons t ts ihs =>
    cases xs with
    | nil => simp [Members] at h
    | cons x xs =>
      rw [Members] at h
      rw [headSizes, ← Nat.add_assoc] at hle
      obtain ⟨hfs, hrest⟩ := ihs h.2 (fun t ht => ih t (List.mem_cons_of_mem _ ht)) hle
      cases hst : isStatic t with
      | true =>
        have hbody : Body data t head x := by simpa only [Slot, hst, if_true] using h.1
        obtain ⟨hf, hat⟩ := ih t (by simp) x head hbody
        refine ⟨⟨hf, hfs⟩, fun hall off => ?_⟩
        have hall' : allStatic ts = true := by simpa [allStatic, hst] using hall
        simp only [components, heads, hst, if_true]
        refine at_append.mpr ⟨hat hst, ?_⟩
        rw [(aligned t x hf).2 hst]
        exact hrest hall' off
      | false =>
        obtain ⟨offset, _, _, _, _, hbody⟩ : ∃ offset, At data head (wordOf offset) ∧ floor ≤ offset ∧
            32 ∣ offset ∧ base + offset ≤ data.length ∧ Body data t (base + offset) x := by
          simpa only [Slot, hst, Bool.false_eq_true, if_false] using h.1
        exact ⟨⟨(ih t (by simp) x _ hbody).1, hfs⟩, fun hall => by simp [allStatic, hst] at hall⟩

theorem body_fits {data : List UInt8} (t : Ty) (x : WordTree) (start : ℕ) (h : Body data t start x) :
    Fits t x ∧ (isStatic t = true → At data start (wire t x)) := by
  induction t using Ty.induct generalizing x start with
  | word =>
    cases x with
    | word bs => simpa [Body, Fits, wire, isStatic] using h
    | payload bs => simp [Body] at h
    | node xs => simp [Body] at h
  | payload =>
    cases x with
    | payload bs => simp [Fits, isStatic]
    | word bs => simp [Body] at h
    | node xs => simp [Body] at h
  | array t c ih =>
    have elements (xs : List WordTree) (base : ℕ) (hle : base + xs.length * headSize t ≤ data.length)
        (hs : InSlots (fun head x => Holds data t base head (xs.length * headSize t) x) (headSize t) base xs) :
        (∀ x ∈ xs, Fits t x) ∧ (isStatic t = true →
          At data base (assemble (xs.map fun x => (isStatic t, wire t x)))) := by
      have hm := members_fits (members_replicate.mpr hs)
        (fun s hs x start hb => by
          obtain rfl := List.eq_of_mem_replicate hs
          exact ih x start hb) (by rwa [headSizes_replicate])
      have hall := fitsAll_replicate.mp hm.1
      refine ⟨hall, fun hst => ?_⟩
      have htail := (aligned_components hm.1 (fun t _ x => aligned t x)).2.2 (allStatic_replicate _ hst)
      rw [← components_replicate, assemble, htail, List.append_nil]
      exact hm.2 (allStatic_replicate _ hst) _
    cases x with
    | node xs =>
      cases c with
      | none =>
        simp only [Body] at h
        exact ⟨⟨h.1, (elements xs _ h.2.2.1 h.2.2.2).1⟩, by simp [isStatic]⟩
      | some n =>
        simp only [Body] at h
        obtain ⟨hall, hat⟩ := elements xs _ h.2.1 h.2.2
        refine ⟨⟨h.1, hall⟩, fun hst => ?_⟩
        rw [isStatic] at hst
        rw [wire]
        exact hat hst
    | word bs => cases c <;> simp [Body] at h
    | payload bs => cases c <;> simp [Body] at h
  | tuple ts ih =>
    cases x with
    | node xs =>
      simp only [Body] at h
      obtain ⟨hf, hat⟩ := members_fits h.2 ih h.1
      refine ⟨hf, fun hst => ?_⟩
      rw [isStatic] at hst
      have htail := (aligned_components hf (fun t _ x => aligned t x)).2.2 hst
      rw [wire, assemble, htail, List.append_nil]
      exact hat hst _
    | word bs => simp [Body] at h
    | payload bs => simp [Body] at h

theorem Holds.fits {data : List UInt8} {t : Ty} {base head floor : ℕ} {x : WordTree}
    (h : Holds data t base head floor x) : Fits t x := by
  unfold Holds Slot at h
  split at h
  · exact (body_fits t x head h).1
  · obtain ⟨offset, _, _, _, _, hbody⟩ := h
    exact (body_fits t x _ hbody).1

end TronlinkCore.HeadTail

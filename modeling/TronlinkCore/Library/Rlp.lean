import TronlinkCore.Library.BigEndian

/-!
The recursive length prefix: trees of byte strings as bytes. No encoding begins
another one.
-/

namespace TronlinkCore.Rlp

open BigEndian

inductive Tree where
  | bytes (bs : List UInt8)
  | list (trees : List Tree)

def header (tag count : ℕ) : List UInt8 :=
  if count < 56 then [UInt8.ofNat (tag + count)]
  else UInt8.ofNat (tag + 55 + byteWidth count) :: serialize count

def encodeBytes (bs : List UInt8) : List UInt8 :=
  if bs.length = 1 ∧ bs.headD 0 ≤ 0x7f then bs else header 0x80 bs.length ++ bs

mutual

def encode : Tree → List UInt8
  | .bytes bs => encodeBytes bs
  | .list trees => header 0xc0 (concat trees).length ++ concat trees

def concat : List Tree → List UInt8
  | [] => []
  | tree :: trees => encode tree ++ concat trees

end

theorem serialize_append_inj {m n : ℕ} {as bs : List UInt8} (hw : byteWidth m = byteWidth n)
    (h : serialize m ++ as = serialize n ++ bs) : m = n ∧ as = bs := by
  obtain ⟨hs, hrest⟩ := List.append_inj h (by rw [serialize_length, serialize_length, hw])
  refine ⟨?_, hrest⟩
  rw [← ofBytes_serialize m, hs, ofBytes_serialize]

def code (count : ℕ) : ℕ := if count < 56 then count else 55 + byteWidth count

theorem code_lt {count : ℕ} (h : count < 2 ^ 64) : code count < 64 := by
  have hw : byteWidth count ≤ 8 := byteWidth_le_iff.mpr h
  unfold code
  split <;> omega

theorem header_eq (tag count : ℕ) :
    header tag count = UInt8.ofNat (tag + code count) :: if count < 56 then [] else serialize count := by
  unfold header code
  split
  · rfl
  · rw [Nat.add_assoc]

def IsTag (tag : ℕ) : Prop := tag = 0x80 ∨ tag = 0xc0

theorem toNat_tag {tag count : ℕ} (ht : IsTag tag) (h : count < 2 ^ 64) :
    (UInt8.ofNat (tag + code count)).toNat = tag + code count := by
  have hlt := code_lt h
  rw [UInt8.toNat_ofNat']
  rcases ht with rfl | rfl <;> omega

theorem header_append_inj {s t m n : ℕ} {as bs : List UInt8} (hs : IsTag s) (ht : IsTag t) (hm : m < 2 ^ 64)
    (hn : n < 2 ^ 64) (h : header s m ++ as = header t n ++ bs) : s = t ∧ m = n ∧ as = bs := by
  rw [header_eq, header_eq, List.cons_append, List.cons_append, List.cons.injEq] at h
  obtain ⟨hfirst, hrest⟩ := h
  have hcode : s + code m = t + code n := by
    rw [← toNat_tag hs hm, hfirst, toNat_tag ht hn]
  have hmlt := code_lt hm
  have hnlt := code_lt hn
  have htag : s = t := by
    rcases hs with rfl | rfl <;> rcases ht with rfl | rfl <;> omega
  refine ⟨htag, ?_⟩
  have hcodes : code m = code n := by omega
  unfold code at hcodes
  by_cases hm' : m < 56
  · rw [if_pos hm'] at hcodes hrest
    by_cases hn' : n < 56
    · rw [if_pos hn'] at hcodes hrest
      exact ⟨hcodes, hrest⟩
    · have hpos := byteWidth_pos (n := n) (by omega)
      rw [if_neg hn'] at hcodes
      omega
  · rw [if_neg hm'] at hcodes hrest
    by_cases hn' : n < 56
    · have hpos := byteWidth_pos (n := m) (by omega)
      rw [if_pos hn'] at hcodes
      omega
    · rw [if_neg hn'] at hcodes hrest
      exact serialize_append_inj (by omega) hrest

theorem header_length_pos (tag count : ℕ) : 0 < (header tag count).length := by
  rw [header_eq]
  exact Nat.zero_lt_succ _

inductive Form (bs : List UInt8) : Prop where
  | single (b : UInt8) (hb : b ≤ 0x7f) (hbs : bs = [b]) (henc : encodeBytes bs = [b])
  | long (henc : encodeBytes bs = header 0x80 bs.length ++ bs)

theorem form (bs : List UInt8) : Form bs := by
  by_cases h : bs.length = 1 ∧ bs.headD 0 ≤ 0x7f
  · obtain ⟨b, rfl⟩ := List.length_eq_one_iff.mp h.1
    exact .single b h.2 rfl (if_pos h)
  · exact .long (if_neg h)

theorem single_ne_header {b : UInt8} {tag count : ℕ} {as bs : List UInt8} (hb : b ≤ 0x7f) (ht : IsTag tag)
    (h : count < 2 ^ 64) : [b] ++ as ≠ header tag count ++ bs := by
  intro heq
  rw [header_eq, List.cons_append, List.cons_append, List.cons.injEq] at heq
  have hnat := toNat_tag ht h
  rw [← heq.1] at hnat
  have hle : b.toNat ≤ 127 := hb
  rcases ht with rfl | rfl <;> omega

theorem encodeBytes_length (bs : List UInt8) : bs.length ≤ (encodeBytes bs).length := by
  obtain ⟨b, _, rfl, henc⟩ | henc := form bs
  · rw [henc]
  · rw [henc, List.length_append]
    omega

theorem encodeBytes_append_inj {bs cs as ds : List UInt8} (hb : bs.length < 2 ^ 64) (hc : cs.length < 2 ^ 64)
    (h : encodeBytes bs ++ as = encodeBytes cs ++ ds) : bs = cs ∧ as = ds := by
  obtain ⟨b, hle, rfl, henc⟩ | henc := form bs
  · rw [henc] at h
    obtain ⟨c, _, rfl, henc'⟩ | henc' := form cs
    · rw [henc'] at h
      exact List.append_inj h rfl
    · rw [henc', List.append_assoc] at h
      exact absurd h (single_ne_header hle (.inl rfl) hc)
  · rw [henc, List.append_assoc] at h
    obtain ⟨c, hle, rfl, henc'⟩ | henc' := form cs
    · rw [henc'] at h
      exact absurd h.symm (single_ne_header hle (.inl rfl) hb)
    · rw [henc', List.append_assoc] at h
      obtain ⟨_, hlen, hrest⟩ := header_append_inj (.inl rfl) (.inl rfl) hb hc h
      exact List.append_inj hrest hlen

theorem bytes_ne_list {bs as ds : List UInt8} {count : ℕ} (hb : bs.length < 2 ^ 64) (hcount : count < 2 ^ 64) :
    encodeBytes bs ++ as ≠ header 0xc0 count ++ ds := by
  intro h
  obtain ⟨b, hle, rfl, henc⟩ | henc := form bs
  · rw [henc] at h
    exact single_ne_header hle (.inr rfl) hcount h
  · rw [henc, List.append_assoc] at h
    have htag := (header_append_inj (.inl rfl) (.inr rfl) hb hcount h).1
    cases htag

theorem encode_ne_nil (tree : Tree) : encode tree ≠ [] := by
  intro h
  cases tree with
  | bytes bs =>
    have hlen := encodeBytes_length bs
    rw [encode] at h
    rw [h, List.length_nil, Nat.le_zero, List.length_eq_zero_iff] at hlen
    subst hlen
    cases h
  | list trees =>
    rw [encode] at h
    have hpos := header_length_pos 0xc0 (concat trees).length
    rw [(List.append_eq_nil_iff.mp h).1] at hpos
    cases hpos

def Fits (tree : Tree) : Prop := (encode tree).length < 2 ^ 64

theorem Fits.bytes {bs : List UInt8} (h : Fits (.bytes bs)) : bs.length < 2 ^ 64 := by
  rw [Fits, encode] at h
  exact (encodeBytes_length bs).trans_lt h

theorem Fits.list {trees : List Tree} (h : Fits (.list trees)) : (concat trees).length < 2 ^ 64 := by
  rw [Fits, encode, List.length_append] at h
  omega

mutual

theorem encode_append_inj : ∀ {tree other : Tree} {as bs : List UInt8}, Fits tree → Fits other →
    encode tree ++ as = encode other ++ bs → tree = other ∧ as = bs
  | .bytes xs, .bytes ys, as, bs, hx, hy, h => by
    rw [encode, encode] at h
    obtain ⟨rfl, hrest⟩ := encodeBytes_append_inj hx.bytes hy.bytes h
    exact ⟨rfl, hrest⟩
  | .bytes xs, .list ts, as, bs, hx, ht, h => by
    rw [encode, encode, List.append_assoc] at h
    exact absurd h (bytes_ne_list hx.bytes ht.list)
  | .list ts, .bytes xs, as, bs, ht, hx, h => by
    rw [encode, encode, List.append_assoc] at h
    exact absurd h.symm (bytes_ne_list hx.bytes ht.list)
  | .list ts, .list us, as, bs, ht, hu, h => by
    rw [encode, encode, List.append_assoc, List.append_assoc] at h
    obtain ⟨_, hlen, hrest⟩ := header_append_inj (.inr rfl) (.inr rfl) ht.list hu.list h
    obtain ⟨hconcat, hrest⟩ := List.append_inj hrest hlen
    exact ⟨congrArg Tree.list (concat_inj ht.list hu.list hconcat), hrest⟩

theorem concat_inj : ∀ {trees others : List Tree}, (concat trees).length < 2 ^ 64 → (concat others).length < 2 ^ 64 →
    concat trees = concat others → trees = others
  | [], [], _, _, _ => rfl
  | [], u :: us, _, _, h => by
    rw [concat, concat] at h
    exact absurd (List.append_eq_nil_iff.mp h.symm).1 (encode_ne_nil u)
  | t :: ts, [], _, _, h => by
    rw [concat, concat] at h
    exact absurd (List.append_eq_nil_iff.mp h).1 (encode_ne_nil t)
  | t :: ts, u :: us, ht, hu, h => by
    rw [concat, List.length_append] at ht hu
    rw [concat, concat] at h
    have htree : Fits t := by
      rw [Fits]
      omega
    have hother : Fits u := by
      rw [Fits]
      omega
    obtain ⟨rfl, hrest⟩ := encode_append_inj htree hother h
    rw [concat_inj (by omega) (by omega) hrest]

end

theorem eq_of_prefix {tree other : Tree} (ht : Fits tree) (ho : Fits other) (h : encode tree <+: encode other) :
    tree = other := by
  obtain ⟨rest, hrest⟩ := h
  rw [← List.append_nil (encode other)] at hrest
  exact (encode_append_inj ht ho hrest).1

end TronlinkCore.Rlp

import TronlinkCore.Library.HeadTail

namespace TronlinkCore.Abi

open HeadTail (Ty WordTree Fits FitsWord)

inductive ParameterType where
  | uint (bits : UInt64)
  | int (bits : UInt64)
  | fixed (bits decimals : UInt64)
  | ufixed (bits decimals : UInt64)
  | address
  | function
  | bool
  | bytes (length : UInt64)
  /-- Length zero is the dynamic array `T[]`. -/
  | array (type : ParameterType) (length : UInt64)
  | fixedArray (type : ParameterType) (length : UInt64)
  | dynamicBytes
  | string
  | tuple (types : List ParameterType)

namespace ParameterType

@[elab_as_elim]
theorem induct {P : ParameterType → Prop} (uint : ∀ b, P (.uint b)) (int : ∀ b, P (.int b))
    (fixed : ∀ b d, P (.fixed b d)) (ufixed : ∀ b d, P (.ufixed b d)) (address : P .address)
    (function : P .function) (bool : P .bool) (bytes : ∀ n, P (.bytes n))
    (array : ∀ t n, P t → P (.array t n)) (fixedArray : ∀ t n, P t → P (.fixedArray t n))
    (dynamicBytes : P .dynamicBytes) (string : P .string)
    (tuple : ∀ ts, (∀ t ∈ ts, P t) → P (.tuple ts)) (t : ParameterType) : P t :=
  @ParameterType.rec P (fun ts => ∀ t ∈ ts, P t) uint int fixed ufixed address
    function bool bytes array fixedArray dynamicBytes string tuple (by simp)
    (fun _ _ ht hts => by simp [ht]; exact hts) t

def IsWord : ParameterType → Prop
  | .uint _ | .int _ | .fixed _ _ | .ufixed _ _ | .address | .function | .bool | .bytes _ => True
  | _ => False

def IsPayload : ParameterType → Prop
  | .dynamicBytes | .string => True
  | _ => False

theorem nesting {P : ParameterType → Prop} (word : ∀ t, t.IsWord → P t) (payload : ∀ t, t.IsPayload → P t)
    (array : ∀ t n, P t → P (.array t n)) (fixedArray : ∀ t n, P t → P (.fixedArray t n))
    (tuple : ∀ ts, (∀ t ∈ ts, P t) → P (.tuple ts)) (t : ParameterType) : P t := by
  induction t using induct with
  | array t n ih => exact array t n ih
  | fixedArray t n ih => exact fixedArray t n ih
  | tuple ts ih => exact tuple ts ih
  | dynamicBytes => exact payload _ trivial
  | string => exact payload _ trivial
  | uint | int | fixed | ufixed | address | function | bool | bytes => exact word _ trivial

mutual
def skeleton : ParameterType → Ty
  | .dynamicBytes => .payload
  | .string => .payload
  | .array t n => .array t.skeleton (if n = 0 then none else some n.toNat)
  | .fixedArray t n => .array t.skeleton (some n.toNat)
  | .tuple ts => .tuple (skeletons ts)
  | _ => .word

def skeletons : List ParameterType → List Ty
  | [] => []
  | t :: ts => t.skeleton :: skeletons ts
end

theorem skeleton_of_isWord {t : ParameterType} (h : t.IsWord) : t.skeleton = .word := by
  cases t <;> first | rfl | exact absurd h id

theorem skeleton_of_isPayload {t : ParameterType} (h : t.IsPayload) : t.skeleton = .payload := by
  cases t <;> first | rfl | exact absurd h id

theorem skeletons_eq_map (ts : List ParameterType) : skeletons ts = ts.map skeleton := by
  induction ts with
  | nil => rfl
  | cons t ts ih => rw [skeletons, ih, List.map_cons]

theorem fits_array {t : ParameterType} {n : UInt64} {x : WordTree} (h : Fits (ParameterType.array t n).skeleton x) :
    ∃ xs, x = .node xs ∧ (∀ y ∈ xs, Fits t.skeleton y) ∧ if n = 0 then FitsWord xs.length else xs.length = n.toNat := by
  rw [skeleton] at h
  by_cases h0 : n = 0
  · rw [if_pos h0] at h
    cases x with
    | node xs => exact ⟨xs, rfl, h.2, by rw [if_pos h0]; exact h.1⟩
    | word w => exact h.elim
    | payload bs => exact h.elim
  · rw [if_neg h0] at h
    cases x with
    | node xs => exact ⟨xs, rfl, h.2, by rw [if_neg h0]; exact h.1⟩
    | word w => exact h.elim
    | payload bs => exact h.elim

end ParameterType

end TronlinkCore.Abi

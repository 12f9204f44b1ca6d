import TronlinkCore.Library.BigEndian
import TronlinkCore.Library.LittleEndian

/-!
Keyed hashing and the derivation of keys: HMAC of RFC 2104 over a hash function
that takes in blocks of one length, and PBKDF2 of RFC 8018 over a pseudorandom
function of a password and a message.
-/

namespace TronlinkCore.Rfc8018

open LittleEndian

section

variable (hash : List UInt8 → List UInt8) (blockLength : ℕ)

/-- The key at the length of a block: hashed where it is longer, then zeros -/
def blockKey (key : List UInt8) : List UInt8 :=
  let short := if blockLength < key.length then hash key else key
  short ++ List.replicate (blockLength - short.length) 0

def hmac (key message : List UInt8) : List UInt8 :=
  let block := blockKey hash blockLength key
  hash (block.map (· ^^^ 0x5c) ++ hash (block.map (· ^^^ 0x36) ++ message))

variable {hash blockLength} in
theorem blockKey_length {n : ℕ} (h : ∀ message, (hash message).length = n) (hn : n ≤ blockLength) (key : List UInt8) :
    (blockKey hash blockLength key).length = blockLength := by
  have hshort : (if blockLength < key.length then hash key else key).length ≤ blockLength := by
    split
    · rwa [h]
    · omega
  rw [blockKey, List.length_append, List.length_replicate, Nat.add_sub_cancel' hshort]

end

variable (prf : List UInt8 → List UInt8 → List UInt8) (password salt : List UInt8)

def chain (i : ℕ) : ℕ → List UInt8
  | 0 => prf password (salt ++ BigEndian.toBytes 4 i)
  | j + 1 => prf password (chain i j)

def block (i : ℕ) : ℕ → List UInt8
  | 0 => chain prf password salt i 0
  | c + 1 => xorBytes (block i c) (chain prf password salt i (c + 1))

variable {prf password salt}

theorem chain_mod (i j : ℕ) : chain prf password salt (i % 2 ^ 32) j = chain prf password salt i j := by
  induction j with
  | zero =>
    have hbytes := BigEndian.toBytes_mod 4 i
    rw [chain, chain]
    exact congrArg (fun bs => prf password (salt ++ bs)) hbytes
  | succ j ih => rw [chain, ih, chain]

theorem block_mod (i c : ℕ) : block prf password salt (i % 2 ^ 32) c = block prf password salt i c := by
  induction c with
  | zero => exact chain_mod i 0
  | succ c ih => rw [block, ih, chain_mod, block]

theorem block_length {n : ℕ} (h : ∀ key message, (prf key message).length = n) (i c : ℕ) :
    (block prf password salt i c).length = n := by
  have hchain (j : ℕ) : (chain prf password salt i j).length = n := by
    cases j with
    | zero => exact h _ _
    | succ j => exact h _ _
  induction c with
  | zero => exact hchain 0
  | succ c ih => rw [block, xorBytes_length, ih, hchain, Nat.min_self]

variable (prf password salt)

def pbkdf2 (hLen count dkLen : ℕ) : List UInt8 :=
  ((List.range ((dkLen + hLen - 1) / hLen)).flatMap fun i => block prf password salt (i + 1) (count - 1)).take dkLen

end TronlinkCore.Rfc8018

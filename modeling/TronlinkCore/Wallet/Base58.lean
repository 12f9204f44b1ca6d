import TronlinkCore.Library.BigEndian
import TronlinkCore.Library.Text
import Mathlib.Data.Nat.Digits.Defs

namespace TronlinkCore.Wallet

open Text BigEndian

class Digest where
  sha256 : List UInt8 → List UInt8

namespace Base58String

def btcAlphabet : List UInt8 := utf8 "123456789ABCDEFGHJKLMNPQRSTUVWXYZabcdefghijkmnopqrstuvwxyz".toList

def isValidAlphabet (alphabet : List UInt8) : Bool :=
  alphabet.length = 58 && decide alphabet.Nodup && !alphabet.any (0x7f < ·)

end Base58String

/-- `String(base58Encoding:alphabet:)` -/
def base58Encoding (alphabet bytes : List UInt8) : Text :=
  let answer := (Nat.digits alphabet.length (ofBytes bytes)).map fun modulus => alphabet.getD modulus 0
  let zeros := (bytes.takeWhile (· = 0)).map fun _ => alphabet.getD 0 0
  ofAscii (answer ++ zeros).reverse

/-- `Data(base58Decoding:alphabet:)`, with the weight of the next digit beside the sum -/
def base58Decoding (alphabet : List UInt8) (string : Text) : Option (List UInt8) :=
  if Base58String.isValidAlphabet alphabet then do
    let byteString := utf8 string
    let (answer, _) ← byteString.reverse.foldlM (fun (answer, j) ch => do
      let index ← alphabet.idxOf? ch
      some (answer + j * index, j * alphabet.length)) (0, 1)
    let leadingZeroCount := (byteString.takeWhile (· = alphabet.getD 0 0)).length
    some (List.replicate leadingZeroCount 0 ++ serialize answer)
  else none

variable [Digest]

/-- `String(base58CheckEncoding:alphabet:)` -/
def base58CheckEncoding (alphabet bytes : List UInt8) : Text :=
  let hash := Digest.sha256 (Digest.sha256 bytes)
  base58Encoding alphabet (bytes ++ hash.take 4)

/-- `Data(base58CheckDecoding:alphabet:)` -/
def base58CheckDecoding (alphabet : List UInt8) (string : Text) : Option (List UInt8) := do
  let decodeCheck ← base58Decoding alphabet string
  if 4 ≤ decodeCheck.length then
    let decodeData := decodeCheck.take (decodeCheck.length - 4)
    let hash := Digest.sha256 (Digest.sha256 decodeData)
    if (List.range 4).all fun i => hash[i]? == decodeCheck[decodeData.length + i]? then some decodeData else none
  else none

def addressString (data : List UInt8) : Text := base58CheckEncoding Base58String.btcAlphabet data

end TronlinkCore.Wallet

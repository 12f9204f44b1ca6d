import TronlinkCore.Library.Outcome
import TronlinkCore.Library.Exceptions
import TronlinkCore.Library.MachineInt
import TronlinkCore.Library.BigEndian
import TronlinkCore.Library.HeadTail
import TronlinkCore.Library.HeadTailReading
import TronlinkCore.Abi.ParameterType
import TronlinkCore.Abi.Layout
import TronlinkCore.Abi.Values
import TronlinkCore.Abi.Budget
import TronlinkCore.Abi.Words
import TronlinkCore.Abi.Trees
import TronlinkCore.Abi.Encoding
import TronlinkCore.Abi.EncodingSpec
import TronlinkCore.Abi.Decoding
import TronlinkCore.Abi.DecodingSpec
import TronlinkCore.Abi.LegacyMetadata
import TronlinkCore.Abi.RoundTrip
import TronlinkCore.Abi.Logs
import TronlinkCore.Abi.Safety
import TronlinkCore.Abi.TypeParser
import TronlinkCore.Abi.NormalTypes
import TronlinkCore.Abi.TypeTexts
import TronlinkCore.Abi.TypeParserSpec
import TronlinkCore.Abi.TypeNaming
import TronlinkCore.Abi.JsonTypes
import TronlinkCore.Abi.JsonTexts
import TronlinkCore.Solidity.Values
import TronlinkCore.Solidity.Encoder
import TronlinkCore.Solidity.Words
import TronlinkCore.Solidity.Correspondence
import TronlinkCore.Solidity.Members
import TronlinkCore.Solidity.Lengths
import TronlinkCore.Solidity.Agreement
import TronlinkCore.Solidity.Writing
import TronlinkCore.Solidity.Arguments
import TronlinkCore.Solidity.Atomicity
import TronlinkCore.Library.Rlp
import TronlinkCore.Solidity.RLP
import TronlinkCore.Keystore.KeystoreKey
import TronlinkCore.Library.LittleEndian
import TronlinkCore.Library.Windows
import TronlinkCore.Library.Yields
import TronlinkCore.Library.Memory
import TronlinkCore.Library.Salsa
import TronlinkCore.Library.Rfc7914
import TronlinkCore.Keystore.Scrypt
import TronlinkCore.Keystore.ScryptBlocks
import TronlinkCore.Keystore.ScryptMixing
import TronlinkCore.Keystore.ScryptSpec
import TronlinkCore.Keystore.Decryption
import TronlinkCore.Library.Throwing
import TronlinkCore.Keystore.KeyFile
import TronlinkCore.Keystore.Rekeying
import TronlinkCore.Keystore.Disk
import TronlinkCore.Keystore.KeyStore
import TronlinkCore.Keystore.Atomicity
import TronlinkCore.Keystore.Calls
import TronlinkCore.Keystore.Durability
import TronlinkCore.Keystore.Runs
import TronlinkCore.Keystore.Codec
import TronlinkCore.Keystore.Loading
import TronlinkCore.Abi.Entries
import TronlinkCore.Abi.LogSpec
import TronlinkCore.Abi.Emitted
import TronlinkCore.Abi.Resources
import TronlinkCore.Abi.Elements
import TronlinkCore.Library.Table
import TronlinkCore.Metrics.Models
import TronlinkCore.Metrics.Database
import TronlinkCore.Metrics.Statistics
import TronlinkCore.Metrics.System
import TronlinkCore.Metrics.Ledger
import TronlinkCore.Metrics.Requests
import TronlinkCore.Metrics.Uploads
import TronlinkCore.Metrics.Upserts
import TronlinkCore.Metrics.Totals
import TronlinkCore.Metrics.Balances
import TronlinkCore.Metrics.AddressMap
import TronlinkCore.Metrics.AddressMapRuns
import TronlinkCore.Metrics.Migration
import TronlinkCore.Keystore.Listing
import TronlinkCore.Keystore.Imports
import TronlinkCore.Keystore.Passwords
import TronlinkCore.Library.Firsts
import TronlinkCore.Library.Positional
import TronlinkCore.Wallet.Base58
import TronlinkCore.Wallet.Base58Spec
import TronlinkCore.Library.Strings
import TronlinkCore.Library.Numerals
import TronlinkCore.Library.Radix
import TronlinkCore.Abi.IntegerTexts
import TronlinkCore.Library.DecimalTexts
import TronlinkCore.Library.ShortestDecimals
import TronlinkCore.Abi.FixedPoints
import TronlinkCore.Abi.Spellings
import TronlinkCore.Wallet.Eip712Addresses
import TronlinkCore.Web3.Amounts
import TronlinkCore.Web3.AmountsSpec
import TronlinkCore.Library.SignedBytes
import TronlinkCore.Library.BitFields
import TronlinkCore.Web3.TwosComplement
import TronlinkCore.Wallet.AddressString
import TronlinkCore.Wallet.HexAddress
import TronlinkCore.Wallet.AddressText
import TronlinkCore.Library.Counted
import TronlinkCore.Wallet.Messages
import TronlinkCore.Wallet.Recovery
import TronlinkCore.Wallet.Signing
import TronlinkCore.Wallet.Signers
import TronlinkCore.Solidity.RLPSpec
import TronlinkCore.Web3.Checksums
import TronlinkCore.Web3.Formatting
import TronlinkCore.Web3.FormattingSpec
import TronlinkCore.Web3.BitRanges
import TronlinkCore.Library.IntTexts
import TronlinkCore.Keystore.DerivationPath
import TronlinkCore.Keystore.DerivationPaths
import TronlinkCore.Metrics.Normalization
import TronlinkCore.Metrics.AssetChanges
import TronlinkCore.Library.Separated
import TronlinkCore.Library.Rounding
import TronlinkCore.Metrics.Reports
import TronlinkCore.Metrics.UploadTexts
import TronlinkCore.Metrics.ReportedBalances
import TronlinkCore.Library.Blocks
import TronlinkCore.Library.Fips180
import TronlinkCore.Library.ByteOrder
import TronlinkCore.TrezorCrypto.Sha2
import TronlinkCore.TrezorCrypto.Sha2Spec
import TronlinkCore.Library.Rfc8018
import TronlinkCore.TrezorCrypto.Hmac
import TronlinkCore.TrezorCrypto.HmacSpec
import TronlinkCore.Library.Bits
import TronlinkCore.Library.Bip39
import TronlinkCore.Library.Rings
import TronlinkCore.TrezorCrypto.SecRandom
import TronlinkCore.TrezorCrypto.Bip39English
import TronlinkCore.TrezorCrypto.Bip39
import TronlinkCore.TrezorCrypto.Bip39Spec
import TronlinkCore.Keystore.Mnemonics
import TronlinkCore.Library.Fips202
import TronlinkCore.TrezorCrypto.Sha3
import TronlinkCore.TrezorCrypto.Sha3Spec
import TronlinkCore.Library.Limbs
import TronlinkCore.TrezorCrypto.Bignum
import TronlinkCore.TrezorCrypto.BignumSpec
import TronlinkCore.Library.Lucas
import TronlinkCore.TrezorCrypto.Ecdsa
import TronlinkCore.TrezorCrypto.Secp256k1
import TronlinkCore.TrezorCrypto.BignumProducts
import TronlinkCore.TrezorCrypto.BignumPowers
import TronlinkCore.TrezorCrypto.BignumBytes
import TronlinkCore.TrezorCrypto.BignumResidues
import TronlinkCore.TrezorCrypto.EcdsaSpec

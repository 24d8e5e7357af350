import Lumenia.Theory.Positional
import Mathlib.Data.BitVec

/-!
# Addresses

The two address texts that `StrKey` writes for an account: `G…` for its key, and `M…` (SEP-23) for
its key with a number. An `M…` address belongs to the account of its key.
-/

namespace Lumenia.Stellar

/-- An ed25519 public key. -/
abbrev Key := BitVec 256

/-- The source of a transaction or an operation. -/
inductive MuxedAccount
  | ed25519 (key : Key)
  | med25519 (id : BitVec 64) (key : Key)
  deriving DecidableEq

/-- The account that has to sign. -/
def MuxedAccount.account : MuxedAccount → Key
  | .ed25519 key => key
  | .med25519 _ key => key

/-! ## Base 32 with a checksum -/

def base32Alphabet : List Char := "ABCDEFGHIJKLMNOPQRSTUVWXYZ234567".toList

def base32Char (d : ℕ) : Char := base32Alphabet.getD d 'A'

/-- One bit of CRC-16/XMODEM. -/
def crcBit (crc : ℕ) : ℕ :=
  if crc.testBit 15 then ((crc <<< 1) ^^^ 0x1021) % 0x10000 else (crc <<< 1) % 0x10000

def crc16 (bytes : List ℕ) : ℕ :=
  bytes.foldl (fun crc byte => (crcBit^[8]) (crc ^^^ (byte <<< 8))) 0

/-- The bytes with their checksum, as one number. -/
def checked (bytes : List ℕ) : ℕ :=
  let crc := crc16 bytes
  ofDigits 256 (bytes ++ [crc % 256, crc / 256 % 256])

def base32 (width n : ℕ) : String := .ofList ((fixedDigits 32 width n).map base32Char)

/-- A `G…` address: 35 bytes are 56 letters. -/
def addressBytes (key : Key) : List ℕ := 48 :: fixedDigits 256 32 key.toNat

def address (key : Key) : String := base32 56 (checked (addressBytes key))

/-- An `M…` address: 43 bytes and a bit are 69 letters. -/
def muxedAddress (id : BitVec 64) (key : Key) : String :=
  base32 69 (2 * checked (96 :: fixedDigits 256 32 key.toNat ++ fixedDigits 256 8 id.toNat))

/-- `encodeMuxedAccountToAddress` -/
def MuxedAccount.address : MuxedAccount → String
  | .ed25519 key => Stellar.address key
  | .med25519 id key => muxedAddress id key

/-- The number that 56 letters of the alphabet spell, without checksum and version. -/
def addressKey (s : String) : Key :=
  .ofNat 256 (ofDigits 32 (s.toList.map fun c => base32Alphabet.idxOf c) / 65536)

def isValidEd25519PublicKey (s : String) : Bool := address (addressKey s) = s

/-- The same of 69 letters. -/
def muxedPayload (s : String) : ℕ :=
  ofDigits 32 (s.toList.map fun c => base32Alphabet.idxOf c) / 2 / 65536

def isValidMed25519PublicKey (s : String) : Bool :=
  muxedAddress (.ofNat 64 (muxedPayload s)) (.ofNat 256 (muxedPayload s / 2 ^ 64)) = s

/-! ## An address is read in one way -/

theorem idxOf_base32Char {d : ℕ} (hd : d < 32) : base32Alphabet.idxOf (base32Char d) = d := by
  have hall : ∀ d < 32, base32Alphabet.idxOf (base32Char d) = d := by decide +kernel
  exact hall d hd

/-- The letters of a number, read back. -/
theorem ofDigits_base32 {width n : ℕ} (hn : n < 32 ^ width) :
    ofDigits 32 ((base32 width n).toList.map fun c => base32Alphabet.idxOf c) = n := by
  have hread : (fixedDigits 32 width n).map ((base32Alphabet.idxOf ·) ∘ base32Char) =
      fixedDigits 32 width n := by
    refine (List.map_congr_left fun d hd => ?_).trans (List.map_id _)
    exact idxOf_base32Char (lt_of_mem_fixedDigits (by decide) hd)
  rw [base32, String.toList_ofList, List.map_map, hread, ofDigits_fixedDigits, Nat.mod_eq_of_lt hn]

theorem lt_of_mem_checksum {n d : ℕ} (h : d ∈ [n % 256, n / 256 % 256]) : d < 256 := by
  rcases List.mem_pair.mp h with rfl | rfl
  · exact Nat.mod_lt _ (by decide)
  · exact Nat.mod_lt _ (by decide)

theorem checked_div {bytes : List ℕ} : checked bytes / 65536 = ofDigits 256 bytes := by
  have hlow : ofDigits 256 [crc16 bytes % 256, crc16 bytes / 256 % 256] < 256 ^ 2 :=
    ofDigits_lt fun d hd => lt_of_mem_checksum hd
  rw [checked, ofDigits_append, List.length_cons, List.length_singleton]
  omega

theorem checked_lt {bytes : List ℕ} (h : ∀ d ∈ bytes, d < 256) :
    checked bytes < 256 ^ (bytes.length + 2) := by
  have hlen : (bytes ++ [crc16 bytes % 256, crc16 bytes / 256 % 256]).length = bytes.length + 2 :=
    List.length_append
  rw [checked, ← hlen]
  refine ofDigits_lt fun d hd => ?_
  rcases List.mem_append.mp hd with hd | hd
  · exact h d hd
  · exact lt_of_mem_checksum hd

theorem lt_of_mem_addressBytes {key : Key} {d : ℕ} (h : d ∈ addressBytes key) : d < 256 := by
  rcases List.mem_cons.mp h with rfl | h
  · decide
  · exact lt_of_mem_fixedDigits (by decide) h

theorem addressKey_address {key : Key} : addressKey (address key) = key := by
  have hlen : (addressBytes key).length = 33 := by simp [addressBytes]
  have hlt : checked (addressBytes key) < 32 ^ 56 := by
    have hbytes : ∀ d ∈ addressBytes key, d < 256 := fun d => lt_of_mem_addressBytes
    have h := checked_lt hbytes
    rw [hlen] at h
    exact h
  have hkey : key.toNat < 2 ^ 256 := key.isLt
  rw [addressKey, address, ofDigits_base32 hlt, checked_div, addressBytes, ofDigits_cons,
    ofDigits_fixedDigits, length_fixedDigits]
  refine BitVec.eq_of_toNat_eq ?_
  rw [BitVec.toNat_ofNat]
  change (48 * 2 ^ 256 + key.toNat % 2 ^ 256) % 2 ^ 256 = key.toNat
  omega

theorem muxedPayload_muxedAddress {id : BitVec 64} {key : Key} :
    muxedPayload (muxedAddress id key) = (96 * 2 ^ 256 + key.toNat) * 2 ^ 64 + id.toNat := by
  have hbytes : ∀ d ∈ 96 :: fixedDigits 256 32 key.toNat ++ fixedDigits 256 8 id.toNat, d < 256 := by
    intro d hd
    rcases List.mem_append.mp hd with hd | hd
    · rcases List.mem_cons.mp hd with rfl | hd
      · decide
      · exact lt_of_mem_fixedDigits (by decide) hd
    · exact lt_of_mem_fixedDigits (by decide) hd
  have hlt : 2 * checked (96 :: fixedDigits 256 32 key.toNat ++ fixedDigits 256 8 id.toNat) < 32 ^ 69 := by
    have h := checked_lt hbytes
    rw [List.length_append, List.length_cons, length_fixedDigits, length_fixedDigits] at h
    omega
  have hkey : key.toNat < 2 ^ 256 := key.isLt
  have hid : id.toNat < 2 ^ 64 := id.isLt
  rw [muxedPayload, muxedAddress, ofDigits_base32 hlt, Nat.mul_div_cancel_left _ (by decide), checked_div,
    ofDigits_append, ofDigits_cons, ofDigits_fixedDigits, ofDigits_fixedDigits, length_fixedDigits,
    length_fixedDigits]
  omega

theorem address_inj {k k' : Key} (h : address k = address k') : k = k' := by
  calc k = addressKey (address k) := addressKey_address.symm
    _ = addressKey (address k') := by rw [h]
    _ = k' := addressKey_address

theorem length_base32 {width n : ℕ} : (base32 width n).length = width := by
  rw [base32, String.length_ofList, List.length_map, length_fixedDigits]

theorem address_ne_muxedAddress {k k' : Key} {id : BitVec 64} : address k ≠ muxedAddress id k' := by
  intro h
  have hlen := congrArg String.length h
  rw [address, muxedAddress, length_base32, length_base32] at hlen
  omega

theorem address_ne_empty {k : Key} : address k ≠ "" := by
  intro h
  have hlen := congrArg String.length h
  rw [address, length_base32] at hlen
  cases hlen

@[simp] theorem isValid_address {key : Key} : isValidEd25519PublicKey (address key) = true := by
  rw [isValidEd25519PublicKey, addressKey_address]
  exact decide_eq_true rfl

@[simp] theorem isValid_muxedAddress {id : BitVec 64} {key : Key} :
    isValidMed25519PublicKey (muxedAddress id key) = true := by
  have hid : BitVec.ofNat 64 (muxedPayload (muxedAddress id key)) = id := by
    have hlt := id.isLt
    rw [muxedPayload_muxedAddress]
    refine BitVec.eq_of_toNat_eq ?_
    rw [BitVec.toNat_ofNat]
    omega
  have hkey : BitVec.ofNat 256 (muxedPayload (muxedAddress id key) / 2 ^ 64) = key := by
    have hlt := key.isLt
    have hlow := id.isLt
    rw [muxedPayload_muxedAddress]
    refine BitVec.eq_of_toNat_eq ?_
    rw [BitVec.toNat_ofNat]
    omega
  rw [isValidMed25519PublicKey, hid, hkey]
  exact decide_eq_true rfl

/-- A text that is an address of a key belongs to that key only. -/
theorem MuxedAccount.address_eq {a : MuxedAccount} {k : Key} :
    a.address = Stellar.address k ↔ a = .ed25519 k := by
  constructor
  · intro h
    cases a with
    | ed25519 k' => rw [address_inj h]
    | med25519 id k' => exact absurd h.symm address_ne_muxedAddress
  · rintro rfl
    rfl

end Lumenia.Stellar

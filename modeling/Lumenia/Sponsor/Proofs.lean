import Lumenia.Sponsor.Recovery
import Lumenia.Theory.Codes

/-!
# Signed proofs

`handleProofMessage` and `verifyHandleProof` of `apps/sponsor/src/lib/handles.ts`: what an account
signs to authorize an action on a name, and the check that a route makes of it. All that is signed
can be read back from the message (`handleProofMessage_inj`).
-/

namespace Lumenia.Sponsor.Proofs

open Recovery (isNonce proofMemorySec proofSkewSec)
open Stellar

/-- What an account signature authorizes. -/
inductive ProofAction
  | claim
  | release
  | links
  | pilot
  deriving DecidableEq

def ProofAction.text : ProofAction → String
  | claim => "claim"
  | release => "release"
  | links => "links"
  | pilot => "pilot"

inductive NetworkId
  | testnet
  | mainnet
  deriving DecidableEq

def NetworkId.text : NetworkId → String
  | testnet => "testnet"
  | mainnet => "mainnet"

/-- A number of the platform, as `String(…)` writes it. -/
structure Number where
  text : String
  plain : ':' ∉ text.toList
  deriving DecidableEq

structure ProofInput where
  action : ProofAction
  name : String
  pubkey : String
  ts : Number
  nonce : String
  network : NetworkId
  proof : String
  deriving DecidableEq

/-- The exact text the account key signs. -/
def handleProofMessage (action : ProofAction) (name pubkey : String) (ts : Number) (nonce : String)
    (network : NetworkId) : String :=
  "lumenia-handle-" ++ action.text ++ ":v1:" ++ name ++ ":" ++ pubkey ++ ":" ++ ts.text ++ ":" ++
    nonce ++ ":" ++ network.text

def ProofInput.message (input : ProofInput) : String :=
  handleProofMessage input.action input.name input.pubkey input.ts input.nonce input.network

/-- What the platform brings. -/
structure ProofEnv where
  sha256Hex : String → String
  /-- The value of a number, missing where `Number.isFinite` says no. -/
  finite : Number → Option Rat
  /-- `Keypair.fromPublicKey(pubkey).verify(message, proof)`, false where it throws. -/
  verifies : (pubkey message proof : String) → Bool

/-! ## The check -/

/-- What the check asks for: `Date.now()`, and `kvSetNx` under `KEY_PROOF`. -/
structure ProofDeps {Q : Type} (A : Q → Type) (ε : Type) where
  now : Dialogue A ε ℕ
  kvSetNx : (hash : String) → (ttlSec : ℕ) → Dialogue A ε Bool

/-- The timestamp is within the skew of the second `sec`, on either side. -/
def ProofEnv.timely (env : ProofEnv) (sec : ℕ) (ts : Number) : Bool :=
  (env.finite ts).any fun t => ¬(proofSkewSec < sec - t ∨ proofSkewSec < t - sec)

section

variable {Q : Type} {A : Q → Type} {ε : Type} (deps : ProofDeps A ε) (env : ProofEnv)

/-- A refusal is returned, not thrown. -/
@[irreducible] def verifyHandleProof (input : ProofInput) : Dialogue A ε (Except String Unit) := do
  if isValidEd25519PublicKey input.pubkey = false then return .error "invalid account address"
  else do
    let now ← deps.now
    if env.timely (now / 1000) input.ts = false then
      return .error "this request expired — check your device clock and try again"
    else if isNonce input.nonce = false then return .error "malformed request"
    else if env.verifies input.pubkey input.message input.proof = false then
      return .error "that signature does not match this account"
    else do
      let fresh ← deps.kvSetNx (env.sha256Hex input.message) proofMemorySec
      return if fresh then .ok () else .error "this request was already used"

end

/-! ## Reading a message back -/

theorem colon_notMem_hexDigits {s : String} (h : isNonce s = true) : ':' ∉ s.toList := by
  intro hmem
  simp only [isNonce, Bool.and_eq_true, List.all_eq_true] at h
  exact absurd (h.2 ':' hmem) (by decide)

theorem colon_notMem_base32 {width n : ℕ} : ':' ∉ (base32 width n).toList := by
  intro hmem
  rw [base32, String.toList_ofList, List.mem_map] at hmem
  obtain ⟨d, hd, hcolon⟩ := hmem
  have hall : ∀ d < 32, base32Char d ≠ ':' := by decide +kernel
  exact hall d (lt_of_mem_fixedDigits (by decide) hd) hcolon

theorem colon_notMem_address {s : String} (h : isValidEd25519PublicKey s = true) :
    ':' ∉ s.toList := by
  rw [isValidEd25519PublicKey, decide_eq_true_eq] at h
  rw [← h]
  exact colon_notMem_base32

theorem colon_notMem_network {network : NetworkId} : ':' ∉ network.text.toList := by
  cases network <;> decide

theorem NetworkId.text_inj {n n' : NetworkId} (h : n.text = n'.text) : n = n' := by
  cases n <;> cases n' <;> first | rfl | exact absurd h (by decide)

theorem Number.text_inj {n n' : Number} (h : n.text = n'.text) : n = n' := by
  cases n
  cases n'
  cases h
  rfl

/-- An input that the check can let through. -/
structure ProofInput.WellFormed (input : ProofInput) : Prop where
  pubkey : isValidEd25519PublicKey input.pubkey = true
  nonce : isNonce input.nonce = true

theorem colon_notMem_action {action : ProofAction} : ':' ∉ action.text.toList := by
  cases action <;> decide

theorem ProofAction.text_inj {a a' : ProofAction} (h : a.text = a'.text) : a = a' := by
  cases a <;> cases a' <;> first | rfl | exact absurd h (by decide)

/-- Six texts with colons between them, the last five of which can be taken off one by one. -/
theorem toList_fields (s action name pubkey ts nonce network : String) :
    (s ++ action ++ ":v1:" ++ name ++ ":" ++ pubkey ++ ":" ++ ts ++ ":" ++ nonce ++ ":" ++
      network).toList = s.toList ++ (action.toList ++ ':' ::
        ((((('v' :: '1' :: ':' :: name.toList) ++ ':' :: pubkey.toList) ++ ':' :: ts.toList) ++
          ':' :: nonce.toList) ++ ':' :: network.toList)) := by
  simp

/-- Only one input has a message, whatever the name. -/
theorem message_inj {i i' : ProofInput} (hi : i.WellFormed) (hi' : i'.WellFormed)
    (h : i.message = i'.message) : i.action = i'.action ∧ i.name = i'.name ∧ i.pubkey = i'.pubkey ∧
      i.ts = i'.ts ∧ i.nonce = i'.nonce ∧ i.network = i'.network := by
  unfold ProofInput.message handleProofMessage at h
  generalize "lumenia-handle-" = s at h
  have htext := congrArg String.toList h
  rw [toList_fields, toList_fields] at htext
  obtain ⟨haction, htext⟩ := separated_append_inj colon_notMem_action colon_notMem_action
    (List.append_cancel_left htext)
  obtain ⟨htext, hnetwork⟩ := append_separated_inj colon_notMem_network colon_notMem_network htext
  obtain ⟨htext, hnonce⟩ := append_separated_inj (colon_notMem_hexDigits hi.nonce)
    (colon_notMem_hexDigits hi'.nonce) htext
  obtain ⟨htext, hts⟩ := append_separated_inj i.ts.plain i'.ts.plain htext
  obtain ⟨htext, hpubkey⟩ := append_separated_inj (colon_notMem_address hi.pubkey)
    (colon_notMem_address hi'.pubkey) htext
  have hname : i.name.toList = i'.name.toList := by
    simpa only [List.cons.injEq, true_and] using htext
  exact ⟨ProofAction.text_inj (String.toList_inj.mp haction), String.toList_inj.mp hname,
    String.toList_inj.mp hpubkey, Number.text_inj (String.toList_inj.mp hts),
    String.toList_inj.mp hnonce, NetworkId.text_inj (String.toList_inj.mp hnetwork)⟩

end Lumenia.Sponsor.Proofs

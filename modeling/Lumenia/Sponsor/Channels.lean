import Lumenia.Sponsor.Kv
import Lumenia.Sponsor.Submit
import Lumenia.Stellar.StrKey
import Lumenia.Theory.Parallel

/-!
# Channel accounts

`apps/sponsor/src/lib/channels.ts`: exclusive leases on the channel accounts that lend their sequence
numbers, and the routes that build on them, `createAccountHandler` of `create-account.ts`,
`relayClaimHandler` of `soroban-relay.ts` and `relayCctpHandler` of `cctp-relay.ts`. Any number of
requests share one store of leases.

What the SDK makes of a simulation, and what a request carries beside it, is left to parameters.
-/

namespace Lumenia.Sponsor.Channels

open Dialogue

/-! ## Questions -/

/-- The part of a `ChannelLease` that tells it from others. -/
structure ChannelLease where
  publicKey : String
  token : String
  deriving DecidableEq

/-- What is asked of a store of leases. -/
inductive LeaseCmd
  /-- `SET key token NX EX ttl` -/
  | setNx (key token : String) (ttlSeconds : ℕ)
  /-- `ACQUIRE_ANY_SCRIPT` -/
  | acquireAny (keys : List String) (token : String) (ttlSeconds : ℕ)
  /-- `FENCED_DEL` -/
  | fencedDel (key token : String)
  deriving DecidableEq

inductive Ask
  | randomUUID
  /-- A command to the shared store, alone in its pipeline. -/
  | pipeline (cmd : LeaseCmd)
  /-- The same to the map in the memory of the process. -/
  | memory (cmd : LeaseCmd)
  | shuffled (n : ℕ)
  | sleep (ms : ℕ)
  | loadAccount (publicKey : String)
  /-- `setTimeout(timeoutSeconds).build()` on a channel, or on the sponsor's own account. -/
  | build (source : Option ChannelLease) (timeoutSeconds : ℕ)
  /-- The answer with the signed transaction leaves. -/
  | handOut (source : Option ChannelLease)
  /-- A step that the relays share. -/
  | await (q : Await)
  deriving DecidableEq

/-- Where a step can throw, with what it throws. -/
abbrev Ask.Answer : Ask → Type
  | randomUUID => String
  | pipeline _ => Except String (List KvReply)
  | memory _ => Result
  | shuffled n => List (Fin n)
  | loadAccount _ => Except Thrown Unit
  | await q => q.Answer
  | sleep _ | build .. | handOut _ => Unit

abbrev Call := Dialogue Ask.Answer Failure

abbrev ask (q : Ask) : Call q.Answer := Dialogue.question q

/-- The steps that the relays share. -/
def relay {α : Type} (p : Route α) : Call α := p.relabel Ask.await fun _ a => a

/-- Wait for an answer, and throw where there is none. -/
def orThrow {α : Type} : Except Thrown α → Call α
  | .ok a => pure a
  | .error t => throw (.passed t)

theorem orThrow_ok_bind {α β : Type} {a : α} {k : α → Call β} : orThrow (.ok a) >>= k = k a := rfl

/-! ## Stores of leases -/

def maxLeaseProbes : ℕ := 10

def channelLeaseTtlSeconds : ℕ := 150

def channelTxTimeoutSeconds : ℕ := 120

structure LeaseStore where
  acquire : String → ℕ → Call (Option String)
  /-- The first free key of these, in one round trip: its place among them and the token. -/
  acquireAny : Option (List String → ℕ → Call (Option (ℕ × String)))
  release : String → String → Call Unit

/-- One command, and the result of its reply. -/
def pipeline (cmd : LeaseCmd) : Call (Option Result) := do
  match ← ask (.pipeline cmd) with
  | .error message => throw (.error message)
  | .ok replies =>
    match replies with
    | [] => throw (.error "channel lease store error: undefined")
    | first :: _ =>
      if first.failed then
        throw (.error ("channel lease store error: " ++ first.error.getD "undefined"))
      else return first.result

/-- `Number(index)`, where it is one of these keys. -/
def placeOf (keys : List String) : Option Result → Option ℕ
  | some (.int n) => if 1 ≤ n ∧ n ≤ keys.length then some (n.toNat - 1) else none
  | _ => none

def redisLeaseStore : LeaseStore where
  acquire key ttlSeconds := do
    let token ← ask .randomUUID
    let result ← pipeline (.setNx key token ttlSeconds)
    return if result = some (.str "OK") then some token else none
  acquireAny := some fun keys ttlSeconds => do
    let token ← ask .randomUUID
    let result ← pipeline (.acquireAny keys token ttlSeconds)
    return (placeOf keys result).map (·, token)
  release key token := do
    -- best-effort: the TTL will reclaim the channel regardless
    let _ ← (pipeline (.fencedDel key token)).outcome
    return ()

def memoryAcquire (key : String) (ttlSeconds : ℕ) : Call (Option String) := do
  let token ← ask .randomUUID
  let result ← ask (.memory (.setNx key token ttlSeconds))
  return if result = .str "OK" then some token else none

def memoryAcquireAny (ttlSeconds : ℕ) : List String → ℕ → Call (Option (ℕ × String))
  | [], _ => return none
  | key :: rest, index => do
    match ← memoryAcquire key ttlSeconds with
    | some token => return some (index, token)
    | none => memoryAcquireAny ttlSeconds rest (index + 1)

def memoryLeaseStore : LeaseStore where
  acquire := memoryAcquire
  acquireAny := some fun keys ttlSeconds => memoryAcquireAny ttlSeconds keys 0
  release key token := do
    let _ ← ask (.memory (.fencedDel key token))
    return ()

/-! ## The pool -/

structure ChannelManager where
  /-- The public keys of the channels. -/
  keypairs : List String
  store : LeaseStore
  /-- Channels are leased in the memory of one process, on mainnet. -/
  unsafeOnMainnet : Bool

def ChannelManager.enabled (m : ChannelManager) : Bool := !m.keypairs.isEmpty && !m.unsafeOnMainnet

def chanKey (publicKey : String) : String := "chan:" ++ publicKey

/-- The options of `lease`. -/
structure LeaseOptions where
  attempts : ℕ := 6
  delayMs : ℕ := 250
  maxProbes : ℕ := maxLeaseProbes

section

variable (m : ChannelManager) (opts : LeaseOptions)

/-- One probe after another: the lease or the end of the search, or how many there have been. -/
def probeEach : List (Fin m.keypairs.length) → ℕ → Call (Option ChannelLease ⊕ ℕ)
  | [], probes => return .inr probes
  | idx :: rest, probes =>
    if opts.maxProbes ≤ probes then return .inr probes
    else do
      let publicKey := m.keypairs.get idx
      match ← (m.store.acquire (chanKey publicKey) channelLeaseTtlSeconds).outcome with
      | .error _ => return .inl none
      | .ok (some token) => return .inl (some ⟨publicKey, token⟩)
      | .ok none => probeEach rest (probes + 1)

/-- All channels in one round trip. -/
def probeAny (acquireAny : List String → ℕ → Call (Option (ℕ × String)))
    (order : List (Fin m.keypairs.length)) (probes : ℕ) : Call (Option ChannelLease ⊕ ℕ) := do
  let keys := order.map fun i => chanKey (m.keypairs.get i)
  match ← (acquireAny keys channelLeaseTtlSeconds).outcome with
  | .error _ => return .inl none
  | .ok none => return .inr (probes + 1)
  | .ok (some (index, token)) =>
    match order[index]? with
    | none => throw (.error "Cannot read properties of undefined (reading 'publicKey')")
    | some i => return .inl (some ⟨m.keypairs.get i, token⟩)

def probe (order : List (Fin m.keypairs.length)) (probes : ℕ) : Call (Option ChannelLease ⊕ ℕ) :=
  match m.store.acquireAny with
  | some acquireAny => probeAny m acquireAny order probes
  | none => probeEach m opts order probes

/-- So many attempts are left. -/
def attempt : ℕ → ℕ → Call (Option ChannelLease)
  | 0, _ => return none
  | left + 1, probes =>
    if opts.maxProbes ≤ probes then return none
    else do
      let order ← ask (.shuffled m.keypairs.length)
      match ← probe m opts order probes with
      | .inl found => return found
      | .inr probes => do
        if 0 < left ∧ probes < opts.maxProbes then ask (.sleep opts.delayMs)
        attempt left probes

/-- An exclusive lease on a free channel, if there is one. -/
def lease : Call (Option ChannelLease) :=
  if !m.enabled then return none else attempt m opts opts.attempts 0

end

/-- `channels?.enabled ? await channels.lease() : null` -/
def leaseOf : Option ChannelManager → Call (Option ChannelLease)
  | none => return none
  | some m => lease m {}

def release (channels : Option ChannelManager) (l : ChannelLease) : Call Unit :=
  match channels with
  | none => return ()
  | some m => m.store.release (chanKey l.publicKey) l.token

/-! ## Creating an account -/

inductive Via
  | channel
  | sponsor
  deriving DecidableEq

/-- What the requests answer with. -/
inductive Served
  | sandwich (via : Via) (trustlineOnly : Bool)
  | relayed (hash : Option String) (confirmed : Bool)
  /-- Circle has not attested the burn yet. -/
  | pending (detail : String)
  deriving DecidableEq

structure SponsorConfig where
  sponsorAccountId : String
  /-- The address of the signing key. -/
  signer : String
  /-- Missing where it is empty, too. -/
  lumendropContract : Option String
  lumendropLegacyContracts : List String

/-- The account is there, unless Horizon says 404. -/
def accountExists (pubkey : String) : Call Bool := do
  match ← ask (.loadAccount pubkey) with
  | .ok () => return true
  | .error t =>
    if t.status = some 404 then return false
    else
      match t.readMessage with
      | .error e => throw e
      | .ok message =>
        throw (.error ("could not check whether " ++ String.ofList (pubkey.toList.take 6) ++
          "… exists: " ++ message))

/-- The fee of a sandwich, 100 for each operation. -/
def sandwichFee (trustlineOnly : Bool) : ℕ := if trustlineOnly then 300 else 400

/-- The sandwich, as the sponsor pays for it. -/
def sandwich (trustlineOnly : Bool) : Payable := ⟨sandwichFee trustlineOnly, none⟩

def chargeSponsorFee (fee : ℕ) : Call Unit := do
  match ← ask (.await (.chargeSponsorFee fee)) with
  | .ok _ => return ()
  | .error e => throw e.failure

/-- The `try` of the channel path; also whether the fee was charged when it threw. -/
def channelSandwich (l : ChannelLease) (trustlineOnly : Bool) : Call (Except Failure Unit × Bool) := do
  match ← ask (.loadAccount l.publicKey) with
  | .error t => return (.error (.passed t), false)
  | .ok () => do
    ask (.build (some l) channelTxTimeoutSeconds)
    match ← (chargeSponsorFee (sandwichFee trustlineOnly)).outcome with
    | .error e => return (.error e, false)
    | .ok () => do
      match ← ask (.await (.sign (sandwich trustlineOnly))) with
      | .error t => return (.error (.passed t), true)
      | .ok () => return (.ok (), true)

/-- The sandwich on the sponsor's own account. -/
def sponsorSandwich (cfg : SponsorConfig) (trustlineOnly : Bool) : Call Served := do
  let loaded ← ask (.loadAccount cfg.sponsorAccountId)
  orThrow loaded
  ask (.build none 180)
  chargeSponsorFee (sandwichFee trustlineOnly)
  relay (signCharged (sandwich trustlineOnly))
  ask (.handOut none)
  return .sandwich .sponsor trustlineOnly

def createAccountHandler (cfg : SponsorConfig) (channels : Option ChannelManager)
    (recipientPublicKey : String) : Call Served :=
  if !Stellar.isValidEd25519PublicKey recipientPublicKey then
    throw (.error ("invalid recipientPublicKey: " ++ recipientPublicKey))
  else if recipientPublicKey = cfg.sponsorAccountId ∨ recipientPublicKey = cfg.signer then
    throw (.error "recipient must differ from the sponsor")
  else do
    let exists_ ← accountExists recipientPublicKey
    match ← leaseOf channels with
    | none => sponsorSandwich cfg exists_
    | some l => do
      match ← channelSandwich l exists_ with
      -- The lease stays: the client submits this transaction later.
      | (.ok (), _) => do
        ask (.handOut (some l))
        return .sandwich .channel exists_
      | (.error e, charged) => do
        if charged then ask (.await (.settle .notIncluded))
        release channels l
        if e.isPublicRefusal then throw e else sponsorSandwich cfg exists_

/-! ## Relays -/

/-- The transaction that the SDK assembles from a simulation, and the fee-bump around it. -/
structure Prepared where
  /-- Where it is a number. -/
  fee : Option ℕ
  direct : Payable
  feeBump : Except Failure Payable

/-- What tells one relay on a channel from another. -/
structure Relay where
  label : String
  timeoutSeconds : ℕ
  pollMs : ℕ
  feeCap : ℕ
  simulationFailed : String → Failure
  assemble : Simulated → Except Failure Prepared
  /-- What the last answer of the poll means. -/
  conclude : Watched → Except Failure Served
  /-- What is made of a failure. -/
  recover : Failure → Except Failure Served

/-- `Math.ceil((timeout * 1000) / pollMs)` reads, with one subrequest for the release. -/
def Relay.window (r : Relay) : Window :=
  ⟨(r.timeoutSeconds * 1000 + r.pollMs - 1) / r.pollMs, 1⟩

/-- What is to be sent: with a lease, a fee-bump by the sponsor. -/
def submission (r : Relay) (l : Option ChannelLease) (sim : Simulated) : Except Failure Payable :=
  match sim.error with
  | some message => .error (r.simulationFailed message)
  | none => do
    let prepared ← r.assemble sim
    if prepared.fee.any (r.feeCap < ·) then
      throw (.error (r.label ++ " fee " ++ toString (prepared.fee.getD 0) ++ " exceeds cap " ++
        toString r.feeCap))
    else if l.isSome then prepared.feeBump else return prepared.direct

/-- The `try` of a relay: its result, and what the poll ended with. -/
def relayAttempt (cfg : SponsorConfig) (r : Relay) (l : Option ChannelLease) : Call Watched := do
  let loaded ← ask (.loadAccount ((l.map (·.publicKey)).getD cfg.sponsorAccountId))
  orThrow loaded
  ask (.build l r.timeoutSeconds)
  let simulated ← ask (.await .simulateTransaction)
  let simulated ← orThrow simulated
  match submission r l simulated with
  | .error e => throw e
  | .ok tx => relay (payAndSubmit tx r.label r.window)

/-- An undecided transaction keeps its lease, which is left to lapse. -/
def keepsLease : Except Failure Watched → Bool
  | .ok w => w.cut && w.got.status = .NOT_FOUND
  | .error e => e.isSubmitUnconfirmed

def relayOnChannel (cfg : SponsorConfig) (channels : Option ChannelManager) (r : Relay) :
    Call Served := do
  let l ← leaseOf channels
  let attempted ← (relayAttempt cfg r l).outcome
  match l with
  | none => pure ()
  | some l => if keepsLease attempted then pure () else release channels l
  match attempted with
  | .ok w => .ret (r.conclude w)
  | .error e => .ret (r.recover e)

structure RelayClaimInput where
  method : String
  linkHex : String
  payout : String
  sigHex : String
  contract : Option String

def exitContract (cfg : SponsorConfig) (current : String) (requested : Option String) :
    Except Failure String :=
  match requested with
  | none => .ok current
  | some requested =>
    if requested = "" ∨ requested = current then .ok current
    else if requested ∈ cfg.lumendropLegacyContracts then .ok requested
    else .error (.error ("contract not allowed: " ++ requested))

def isHexDigit (c : Char) : Bool :=
  ('0' ≤ c && c ≤ '9') || ('a' ≤ c.toLower && c.toLower ≤ 'f')

/-- The number of bytes in `Buffer.from(s, "hex")`, which ends at the first pair that is not hex. -/
def hexBytes : List Char → ℕ
  | a :: b :: rest => if isHexDigit a && isHexDigit b then hexBytes rest + 1 else 0
  | _ => 0

/-- What `relayClaimHandler` refuses before it takes a lease; `isAddress` where `Address.fromString`
does not throw. -/
def checkClaim (cfg : SponsorConfig) (isAddress : String → Except Failure Unit)
    (input : RelayClaimInput) : Except Failure Unit := do
  match cfg.lumendropContract with
  | none => throw (.error "v2 relayer not configured (LUMENDROP_CONTRACT unset)")
  | some current =>
    if input.method ≠ "claim" ∧ input.method ≠ "claim_share" then
      throw (.error ("method not allowed: " ++ input.method))
    let _ ← exitContract cfg current input.contract
    if hexBytes input.linkHex.toList ≠ 32 then throw (.error "link must be 32 bytes (hex)")
    if hexBytes input.sigHex.toList ≠ 64 then throw (.error "sig must be 64 bytes (hex)")
    isAddress input.payout

/-- What the world outside the service makes of a request. -/
structure Sdk where
  isAddress : String → Except Failure Unit
  /-- The first line of a simulation's error text, as a refusal may carry it. -/
  simErrorHead : String → String
  assemble : Simulated → Except Failure Prepared
  /-- Why a group claim reverted, from the events that came with the answer. -/
  groupClaimFailureToken : Polled → String

def claimRelay (sdk : Sdk) (method : String) : Relay where
  label := "v2-claim"
  timeoutSeconds := 60
  pollMs := 1500
  feeCap := 20000000
  simulationFailed message := .error ("v2-claim simulation failed: " ++ sdk.simErrorHead message)
  assemble := sdk.assemble
  conclude w :=
    match w.got.status with
    | .SUCCESS => .ok (.relayed w.hash true)
    | .FAILED =>
      if method = "claim_share" then
        .error (.refusal ("group-claim-failed: " ++ sdk.groupClaimFailureToken w.got))
      else .error (.error "v2-claim tx FAILED")
    | .NOT_FOUND | .other => .ok (.relayed w.hash false)
  recover e := .error e

def relayClaimHandler (cfg : SponsorConfig) (sdk : Sdk) (input : RelayClaimInput)
    (channels : Option ChannelManager) : Call Served :=
  match checkClaim cfg sdk.isAddress input with
  | .error e => throw e
  | .ok () => relayOnChannel cfg channels (claimRelay sdk input.method)

def cctpRelay (sdk : Sdk) : Relay where
  label := "cctp-relay"
  timeoutSeconds := 60
  pollMs := 1500
  feeCap := 20000000
  simulationFailed message :=
    .error ("cctp-relay simulation failed (already minted, or not mintable): " ++
      sdk.simErrorHead message)
  assemble := sdk.assemble
  conclude w :=
    if w.got.status = .FAILED then .error (.error "cctp-relay tx FAILED")
    else .ok (.relayed w.hash (w.got.status = .SUCCESS))
  recover e :=
    if e.isSubmitUnconfirmed then
      match e.hash with
      | none | some "" => .error e
      | some hash => .ok (.relayed (some hash) false)
    else .error e

/-- `attested` is what the checks of the request and of Circle's attestation come to. -/
def relayCctpHandler (cfg : SponsorConfig) (sdk : Sdk) (attested : Except Failure (Option String))
    (channels : Option ChannelManager) : Call Served :=
  match attested with
  | .error e => throw e
  | .ok (some detail) => return .pending detail
  | .ok none => relayOnChannel cfg channels (cctpRelay sdk)

/-- A request that may take a lease. -/
inductive Request
  | createAccount (recipientPublicKey : String)
  | relayClaim (sdk : Sdk) (input : RelayClaimInput)
  | relayCctp (sdk : Sdk) (attested : Except Failure (Option String))

def Request.serve (cfg : SponsorConfig) (channels : Option ChannelManager) : Request → Call Served
  | createAccount recipient => createAccountHandler cfg channels recipient
  | relayClaim sdk input => relayClaimHandler cfg sdk input channels
  | relayCctp sdk attested => relayCctpHandler cfg sdk attested channels

end Lumenia.Sponsor.Channels

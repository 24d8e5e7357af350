import Lumenia.Sponsor.Channels
import Lumenia.Sponsor.DepositWorker

/-!
# Relaying a mint from another chain

`apps/sponsor/src/lib/cctp-relay.ts` and the route `/cctp-relay` of `apps/sponsor/src/worker.ts`: a
request names a burn, Circle's attestation service is asked for it once, and the mint of the message
that it attests is relayed on a channel. Every step of the relay carries the call that is minted with.
-/

namespace Lumenia.Sponsor.CctpRelay

open Dialogue Channels

abbrev Bytes := List UInt8

/-! ## Messages -/

def cctpTestnetForwarder : String := "CA66Q2WFBND6V4UEB7RD4SAXSVIWMD6RA4X3U32ELVFGXV5PJK4T4VSZ"

/-- The only forwarder ids that are ever called. -/
def cctpForwarders : List String := [cctpTestnetForwarder]

def cctpMethod : String := "mint_and_forward"

def cctpStellarDomain : ℕ := 27

/-- Source chains whose burns are relayed. -/
def cctpSourceDomains : List ℕ := [6]

def cctpIrisSandbox : String := "https://iris-api-sandbox.circle.com"

def headerBytes : ℕ := 148

def messageMaxBytes : ℕ := 2048

def sigBytes : ℕ := 65

def maxSigs : ℕ := 8

structure CctpHeader where
  version : ℕ
  sourceDomain : ℕ
  destinationDomain : ℕ
  nonce : String
  destinationCaller : String
  minFinalityThreshold : ℕ
  finalityThresholdExecuted : ℕ

/-- The byte at a place. -/
def byteAt (b : Bytes) (o : ℕ) : ℕ := (b.getD o 0).toNat

def u32 (b : Bytes) (o : ℕ) : ℕ :=
  byteAt b o * 2 ^ 24 + byteAt b (o + 1) * 2 ^ 16 + byteAt b (o + 2) * 2 ^ 8 + byteAt b (o + 3)

/-- `Buffer.from(b).toString("hex")` -/
def hex (b : Bytes) : String :=
  .ofList (b.flatMap fun x => [Json.hexDigit (x.toNat / 16), Json.hexDigit (x.toNat % 16)])

def subarray (b : Bytes) (start stop : ℕ) : Bytes := (b.take stop).drop start

def parseCctpHeader (message : Bytes) : Except Failure CctpHeader := do
  failWhen (message.length < headerBytes) (.error "cctp message too short")
  return {
    version := u32 message 0
    sourceDomain := u32 message 4
    destinationDomain := u32 message 8
    nonce := hex (subarray message 12 44)
    destinationCaller := hex (subarray message 108 140)
    minFinalityThreshold := u32 message 140
    finalityThresholdExecuted := u32 message 144 }

/-- Throws unless the message is one that the sponsor should pay to mint; `StrKey.decodeContract` gives the bytes of a
contract's id. -/
def checkCctpMessage (decodeContract : String → Except Failure Bytes) (message attestation : Bytes)
    (forwarder : String) : Except Failure CctpHeader := do
  failWhen (messageMaxBytes < message.length) (.error "cctp message too long")
  failWhen (attestation.length = 0 ∨ attestation.length % sigBytes ≠ 0 ∨ sigBytes * maxSigs < attestation.length)
    (.error "cctp attestation has the wrong length")
  let h ← parseCctpHeader message
  failWhen (h.destinationDomain ≠ cctpStellarDomain)
    (.error ("cctp message is not for Stellar (domain " ++ toString h.destinationDomain ++ ")"))
  failWhen (h.sourceDomain ∉ cctpSourceDomains)
    (.error ("cctp source domain " ++ toString h.sourceDomain ++ " not allowed"))
  let id ← decodeContract forwarder
  failWhen (h.destinationCaller ≠ hex id) (.error "cctp message does not name the forwarder as its caller")
  return h

/-! ## Circle's answer -/

/-- The bytes of as many pairs as are hex. -/
def bytesOfHex : List Char → Bytes
  | a :: b :: rest =>
    match Json.hexValue a, Json.hexValue b with
    | some high, some low => UInt8.ofNat (16 * high + low) :: bytesOfHex rest
    | _, _ => []
  | _ => []

def fromHex (s : String) : Bytes :=
  match s.toList with
  | '0' :: 'x' :: digits => bytesOfHex digits
  | cs => bytesOfHex cs

/-- `/^0x[0-9a-fA-F]+$/`, with so many digits where the number is given. -/
def isHexText (s : String) (count : Option ℕ) : Bool :=
  match s.toList with
  | '0' :: 'x' :: digits =>
    digits.all (fun c => (Json.hexValue c).isSome) && !digits.isEmpty && count.all (digits.length == ·)
  | _ => false

/-- What is read of a message in the answer. -/
structure IrisMessage where
  status : Option String
  message : Option String
  attestation : Option String

structure IrisReply where
  status : ℕ
  /-- `body.messages?.[0]`, where the body can be read. -/
  first : Except Thrown (Option IrisMessage)

inductive IrisLookup
  | pending (detail : String)
  | complete (message attestation : Bytes)

def IrisReply.lookup (r : IrisReply) : Except Failure IrisLookup :=
  if r.status = 404 then .ok (.pending "Circle has not indexed this burn yet")
  else if ¬(200 ≤ r.status ∧ r.status ≤ 299) then
    .error (.error ("Circle attestation service answered " ++ toString r.status))
  else
    match r.first with
    | .error t => .error (.passed t)
    | .ok none => .ok (.pending "Circle has not indexed this burn yet")
    | .ok (some m) =>
      match m.message, m.attestation with
      | some message, some attestation =>
        if m.status = some "complete" ∧ isHexText attestation none ∧ isHexText message none then
          .ok (.complete (fromHex message) (fromHex attestation))
        else .ok (.pending ("Circle attestation " ++ m.status.getD "pending"))
      | _, _ => .ok (.pending ("Circle attestation " ++ m.status.getD "pending"))

/-! ## The relay -/

/-- The call of the transaction that is relayed. -/
structure Invocation where
  contract : String
  method : String
  message : Bytes
  attestation : Bytes
  deriving DecidableEq

inductive Step
  | fetch (url : String)
  /-- A step of the relay of this call. -/
  | relay (call : Invocation) (q : Ask)
  deriving DecidableEq

abbrev Step.Answer : Step → Type
  | fetch _ => Except Thrown IrisReply
  | relay _ q => q.Answer

abbrev Run := Dialogue Step.Answer Failure

abbrev step (q : Step) : Run q.Answer := Dialogue.question q

/-- A value of a JSON body that is not falsy. -/
inductive Field
  | text (s : String)
  /-- With its `String(…)`. -/
  | other (s : String)

def Field.asText : Field → String
  | text s | other s => s

/-- `sourceDomain`, where there is one: the number 6, or anything else with its text. -/
inductive Domain
  | base
  | other (s : String)

structure CctpRelayInput where
  burnTxHash : Option Field
  sourceDomain : Option Domain

structure Config where
  sponsor : SponsorConfig
  testnet : Bool
  /-- `STELLAR_NETWORK` is `mainnet`. -/
  mainnet : Bool
  /-- `CCTP_FORWARDER` -/
  forwarder : Option String
  /-- `CCTP_IRIS_URL` -/
  irisUrl : Option String
  sdk : Channels.Sdk
  decodeContract : String → Except Failure Bytes

/-- Without a slash at its end. -/
def trimSlash (s : String) : String :=
  if s.toList.getLast? = some '/' then .ofList s.toList.dropLast else s

def irisAddress (irisUrl burnTxHash : String) : String :=
  trimSlash irisUrl ++ "/v2/messages/6?transactionHash=" ++ burnTxHash.toLower

/-- One read of Circle's Iris for a burn. -/
def fetchAttestation (irisUrl : String) : Field → Run IrisLookup
  | .other _ => throw (.error "burnTxHash.toLowerCase is not a function")
  | .text burnTxHash => do
    match ← step (.fetch (irisAddress irisUrl burnTxHash)) with
    | .error t => throw (.passed t)
    | .ok reply => .ret reply.lookup

inductive CctpRelayResult
  | pending (detail : String)
  | minted (hash : Option String) (nonce : String) (confirmed : Bool)

def CctpRelayResult.ofServed (nonce : String) : Served → CctpRelayResult
  | .relayed hash confirmed => .minted hash nonce confirmed
  | .pending detail => .pending detail
  -- No relay answers so.
  | .sandwich .. => .pending ""

/-- The burn that is asked for, and the forwarder. -/
def checkInput (cfg : Config) (input : CctpRelayInput) : Except Failure (String × Field) := do
  failWhen (cfg.testnet = false) (.error "the CCTP relay is testnet-only")
  let forwarder := cfg.forwarder.getD ""
  failWhen (forwarder ∉ cctpForwarders) (.error "cctp relay not configured (CCTP_FORWARDER unset or unknown)")
  match input.burnTxHash with
  | none => throw (.error "burnTxHash must be a 0x-prefixed 32-byte hash")
  | some burn =>
    failWhen (isHexText burn.asText (some 64) = false) (.error "burnTxHash must be a 0x-prefixed 32-byte hash")
    match input.sourceDomain with
    | some (.other text) => throw (.error ("cctp source domain " ++ text ++ " not allowed"))
    | some .base | none => return (forwarder, burn)

/-- The relay of one call, on a channel. -/
def relayCall (cfg : Config) (channels : Option ChannelManager) (call : Invocation) : Run Served :=
  (relayOnChannel cfg.sponsor channels (cctpRelay cfg.sdk)).relabel (.relay call) fun _ a => a

def relayCctpHandler (cfg : Config) (channels : Option ChannelManager) (input : CctpRelayInput) :
    Run CctpRelayResult :=
  match checkInput cfg input with
  | .error e => throw e
  | .ok (forwarder, burn) => do
    match ← fetchAttestation (cfg.irisUrl.getD cctpIrisSandbox) burn with
    | .pending detail => return .pending detail
    | .complete message attestation =>
      match checkCctpMessage cfg.decodeContract message attestation forwarder with
      | .error e => throw e
      | .ok header => do
        let served ← relayCall cfg channels ⟨forwarder, cctpMethod, message, attestation⟩
        return .ofServed header.nonce served

/-! ## The route -/

/-- What the steps before the handler answer or throw. -/
structure Front where
  service : Except Thrown Unit
  halted : Except Thrown Bool
  declaredTooLarge : Bool
  /-- A body over the cap throws no other value. -/
  body : Except (Option Thrown) CctpRelayInput
  /-- The reason where the request is limited. -/
  limited : Except Thrown (Option (Option String))

def Front.readBody (f : Front) : Except Stop CctpRelayInput :=
  match f.body with
  | .error none => .error (.answered tooLarge)
  | .error (some t) => .error (.threw (.passed t))
  | .ok input =>
    if input.burnTxHash.any fun burn => isHexText burn.asText (some 64) then .ok input
    else .error (.answered ⟨400, [("error", .str "burnTxHash (0x + 64 hex) is required")]⟩)

/-- Up to the handler. -/
def Front.enter (cfg : Config) (f : Front) : Except Stop CctpRelayInput := do
  f.service.mapError fun t => .threw (.passed t)
  let halted ← f.halted.mapError fun t => .threw (.passed t)
  failWhen (halted = true) (.answered ⟨503, [("error", .str "sponsor temporarily halted")]⟩)
  failWhen (f.declaredTooLarge = true) (.answered tooLarge)
  failWhen (cfg.testnet = false) (.answered ⟨403, [("error", .str "the CCTP relay is testnet-only")]⟩)
  failWhen (cfg.forwarder.getD "" = "") (.answered ⟨503, [("error", .str "cctp relay not configured")]⟩)
  let input ← f.readBody
  match ← f.limited.mapError fun t => .threw (.passed t) with
  | some reason => throw (.answered ⟨429, optional "error" reason⟩)
  | none => return input

def relayResponse : CctpRelayResult → Response
  | .pending detail => ⟨202, [("status", .str "pending"), ("detail", .str detail)]⟩
  | .minted hash nonce confirmed =>
    ⟨if confirmed then 200 else 202, ("status", .str "minted") :: optional "hash" hash ++
      [("nonce", .str nonce), ("confirmed", .bool confirmed)]⟩

/-- The route; no answer where the platform answers. -/
def serve (cfg : Config) (channels : Option ChannelManager) (ref : String) (front : Front) : Run (Option Response) :=
  match front.enter cfg with
  | .error (.answered response) => return some response
  | .error (.threw e) => return errorResponse cfg.mainnet ref e
  | .ok input => do
    match ← (relayCctpHandler cfg channels input).outcome with
    | .ok result => return some (relayResponse result)
    | .error e => return errorResponse cfg.mainnet ref e

end Lumenia.Sponsor.CctpRelay

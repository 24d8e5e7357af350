import Lumenia.Sponsor.CctpRelay
import Lumenia.Theory.Excerpt

/-!
# The messages that are minted

Whatever Circle answers, the sponsor takes no step for a mint but that of a message whose bytes name
Stellar as the destination, a source chain on the list and the forwarder as the caller, and it takes
the message from Circle's answer for the burn of the request.
-/

namespace Lumenia.Sponsor.CctpRelay

open Dialogue Channels

/-! ## Bytes -/

section

variable {b b' : Bytes} {message attestation : Bytes} {o n : ℕ}

theorem hex_cons {x : UInt8} : (hex (x :: b)).toList =
    Json.hexDigit (x.toNat / 16) :: Json.hexDigit (x.toNat % 16) :: (hex b).toList := by
  simp [hex]

/-- The hex text of bytes is read back. -/
theorem bytesOfHex_hex : bytesOfHex (hex b).toList = b := by
  induction b with
  | nil => rfl
  | cons x b ih =>
    have hx := x.toNat_lt
    rw [hex_cons, bytesOfHex, Json.hexValue_hexDigit (by omega), Json.hexValue_hexDigit (by omega)]
    dsimp only
    rw [ih, Nat.div_add_mod, UInt8.ofNat_toNat]

theorem toList_hexText : ("0x" ++ hex b).toList = '0' :: 'x' :: (hex b).toList := by
  rw [String.toList_append]
  rfl

/-- What Circle writes as hex is read as it was. -/
theorem fromHex_hex : fromHex ("0x" ++ hex b) = b := by
  rw [fromHex, toList_hexText]
  exact bytesOfHex_hex

theorem digits_hex : (hex b).toList.length = 2 * b.length ∧
    (hex b).toList.all (fun c => (Json.hexValue c).isSome) = true := by
  induction b with
  | nil => exact ⟨rfl, rfl⟩
  | cons x b ih =>
    have hx := x.toNat_lt
    rw [hex_cons, List.all_cons, List.all_cons, Json.hexValue_hexDigit (by omega), Json.hexValue_hexDigit (by omega)]
    exact ⟨by simp only [List.length_cons, ih.1]; omega, ih.2⟩

theorem isHexText_hex {count : Option ℕ} (hne : b ≠ []) (hcount : ∀ n ∈ count, n = 2 * b.length) :
    isHexText ("0x" ++ hex b) count = true := by
  have hpos := List.length_pos_of_ne_nil hne
  have hdigits : (hex b).toList ≠ [] := List.ne_nil_of_length_pos (by rw [digits_hex.1]; omega)
  rw [isHexText, toList_hexText]
  simp only [digits_hex.2, Bool.true_and, Bool.and_eq_true, Bool.not_eq_true', List.isEmpty_eq_false_iff]
  refine ⟨hdigits, Option.all_eq_true _ _ |>.mpr fun n hn => ?_⟩
  rw [digits_hex.1, hcount n hn, beq_self_eq_true]

theorem lookup_complete {b b' : Bytes} (hb : b ≠ []) (hb' : b' ≠ []) :
    IrisReply.lookup ⟨200, .ok (some ⟨some "complete", some ("0x" ++ hex b), some ("0x" ++ hex b')⟩)⟩ =
      .ok (.complete b b') := by
  have hnone : ∀ (b : Bytes), ∀ n ∈ (none : Option ℕ), n = 2 * b.length := by
    intro b n hn
    cases hn
  have hhex := isHexText_hex hb (hnone b)
  have hhex' := isHexText_hex hb' (hnone b')
  unfold IrisReply.lookup
  dsimp only
  rw [if_neg (by decide), if_neg (by decide), if_pos ⟨rfl, hhex', hhex⟩, fromHex_hex, fromHex_hex]

theorem hex_inj (h : hex b = hex b') : b = b' := by
  rw [← @bytesOfHex_hex b, h, bytesOfHex_hex]

/-- Four bytes, and the number that they are. -/
theorem subarray_four (hlen : o + 4 ≤ message.length) : ∃ w x y z, subarray message o (o + 4) = [w, x, y, z] ∧
    u32 message o = w.toNat * 2 ^ 24 + x.toNat * 2 ^ 16 + y.toNat * 2 ^ 8 + z.toNat := by
  obtain ⟨w, x, y, z, rest, hdrop⟩ : ∃ w x y z rest, message.drop o = w :: x :: y :: z :: rest := by
    have hfour : 4 ≤ (message.drop o).length := by
      rw [List.length_drop]
      omega
    rcases hd : message.drop o with _ | ⟨w, _ | ⟨x, _ | ⟨y, _ | ⟨z, rest⟩⟩⟩⟩
    all_goals rw [hd] at hfour
    · simp at hfour
    · simp at hfour
    · simp at hfour
    · simp at hfour
    · exact ⟨w, x, y, z, rest, rfl⟩
  have hbyte (i : ℕ) : byteAt message (o + i) = ((w :: x :: y :: z :: rest).getD i 0).toNat := by
    rw [byteAt, ← hdrop, List.getD_eq_getElem?_getD, List.getD_eq_getElem?_getD, List.getElem?_drop]
  refine ⟨w, x, y, z, ?_, ?_⟩
  · rw [subarray, List.drop_take, hdrop, Nat.add_sub_cancel_left]
    rfl
  · have hzero := hbyte 0
    rw [Nat.add_zero] at hzero
    rw [u32, hzero, hbyte 1, hbyte 2, hbyte 3]
    rfl

/-- A small number has three leading zeros. -/
theorem subarray_of_u32 (hlen : o + 4 ≤ message.length) (hn : n < 256) (hu32 : u32 message o = n) :
    subarray message o (o + 4) = [0, 0, 0, UInt8.ofNat n] := by
  obtain ⟨w, x, y, z, hfour, hsum⟩ := subarray_four hlen
  rw [hu32] at hsum
  have hw : w.toNat = 0 := by omega
  have hx : x.toNat = 0 := by omega
  have hy : y.toNat = 0 := by omega
  have hz : z.toNat = n := by omega
  rw [hfour, ← hz, UInt8.ofNat_toNat]
  exact congrArg₂ _ (UInt8.toNat_inj.mp hw) (congrArg₂ _ (UInt8.toNat_inj.mp hx)
    (congrArg₂ _ (UInt8.toNat_inj.mp hy) rfl))

/-! ## What is minted -/

/-- A call that the sponsor may pay for. -/
structure Mintable (decodeContract : String → Except Failure Bytes) (call : Invocation) : Prop where
  contract : call.contract ∈ cctpForwarders
  method : call.method = cctpMethod
  length : 148 ≤ call.message.length ∧ call.message.length ≤ 2048
  signatures : ∃ n, 0 < n ∧ n ≤ 8 ∧ call.attestation.length = 65 * n
  source : subarray call.message 4 8 = [0, 0, 0, 6]
  destination : subarray call.message 8 12 = [0, 0, 0, 27]
  caller : decodeContract call.contract = .ok (subarray call.message 108 140)

variable {decodeContract : String → Except Failure Bytes} {forwarder : String} {header : CctpHeader}

theorem header_of_parse (h : parseCctpHeader message = .ok header) : 148 ≤ message.length ∧
    header.sourceDomain = u32 message 4 ∧ header.destinationDomain = u32 message 8 ∧
      header.destinationCaller = hex (subarray message 108 140) := by
  obtain ⟨hlen, heq⟩ := check_bind_eq_ok.mp h
  cases heq
  exact ⟨not_lt.mp (failWhen_eq_ok.mp hlen), rfl, rfl, rfl⟩

theorem mintable_of_check (hforwarder : forwarder ∈ cctpForwarders)
    (h : checkCctpMessage decodeContract message attestation forwarder = .ok header) :
    Mintable decodeContract ⟨forwarder, cctpMethod, message, attestation⟩ := by
  obtain ⟨hlong, h⟩ := check_bind_eq_ok.mp h
  obtain ⟨hsigs, h⟩ := check_bind_eq_ok.mp h
  obtain ⟨parsed, hparsed, h⟩ := value_bind_eq_ok.mp h
  obtain ⟨hdestination, h⟩ := check_bind_eq_ok.mp h
  obtain ⟨hsource, h⟩ := check_bind_eq_ok.mp h
  obtain ⟨id, hid, h⟩ := value_bind_eq_ok.mp h
  obtain ⟨hcaller, -⟩ := check_bind_eq_ok.mp h
  obtain ⟨hlen, hparsedSource, hparsedDestination, hparsedCaller⟩ := header_of_parse hparsed
  rw [failWhen_eq_ok] at hlong hsigs hdestination hsource hcaller
  have hsix : u32 message 4 = 6 := by
    rw [← hparsedSource]
    exact List.mem_singleton.mp (not_not.mp hsource)
  have hstellar : u32 message 8 = 27 := hparsedDestination.symm.trans (not_not.mp hdestination)
  have hnamed : id = subarray message 108 140 := hex_inj ((not_not.mp hcaller).symm.trans hparsedCaller)
  refine ⟨hforwarder, rfl, ⟨hlen, not_lt.mp hlong⟩, ⟨attestation.length / 65, ?_, ?_, ?_⟩, ?_, ?_, ?_⟩
  all_goals try simp only [sigBytes, maxSigs, not_or, not_not] at hsigs
  · omega
  · omega
  · dsimp only
    omega
  · exact subarray_of_u32 (Nat.le_trans (by decide) hlen) (by decide) hsix
  · exact subarray_of_u32 (Nat.le_trans (by decide) hlen) (by decide) hstellar
  · rw [← hnamed]
    exact hid

end

/-! ## Every step of a request -/

section

variable {Q Q' : Type} {A : Q → Type} {A' : Q' → Type} {ε α : Type} {p : Dialogue A ε α} {f : Q → Q'}
  {g : ∀ q, A' (f q) → A q}

theorem asks_relabel : (p.relabel f g).Asks fun q => ∃ q₀, q = f q₀ := by
  induction p with
  | ret r =>
    cases r with
    | ok a => exact asks_pure
    | error e => exact asks_throw
  | ask q k ih => exact asks_ask.mpr ⟨⟨q, rfl⟩, fun a => ih (g q a)⟩

end

section

variable {cfg : Config} {channels : Option ChannelManager} {input : CctpRelayInput} {front : Front} {ref : String}
  {call : Invocation} {h : List (Event Step.Answer)}

/-- The request is of this burn, its first step was the read of Circle's answer for it, and every later step is of the
mint that the answer attests. -/
structure Minting (cfg : Config) (input : CctpRelayInput) (call : Invocation) (h : List (Event Step.Answer)) :
    Prop where
  mintable : Mintable cfg.decodeContract call
  attested : ∃ burn reply steps, input.burnTxHash = some (.text burn) ∧ isHexText burn (some 64) = true ∧
    h = ⟨.fetch (irisAddress (cfg.irisUrl.getD cctpIrisSandbox) burn), .ok reply⟩ :: steps ∧
      reply.lookup = .ok (.complete call.message call.attestation) ∧ ∀ e ∈ steps, ∃ q, e.1 = .relay call q

/-- Without a mint, or with the steps of one. -/
def Course (cfg : Config) (input : CctpRelayInput) (h : List (Event Step.Answer)) : Prop :=
  (∀ e ∈ h, ∀ call q, e.1 ≠ .relay call q) ∨ ∃ call, Minting cfg input call h

theorem checkInput_eq_ok {forwarder : String} {burn : Field} (hinput : checkInput cfg input = .ok (forwarder, burn)) :
    forwarder ∈ cctpForwarders ∧ input.burnTxHash = some burn ∧ isHexText burn.asText (some 64) = true := by
  obtain ⟨-, hinput⟩ := check_bind_eq_ok.mp hinput
  obtain ⟨hforwarder, hinput⟩ := check_bind_eq_ok.mp hinput
  rw [failWhen_eq_ok, not_not] at hforwarder
  cases hburn : input.burnTxHash with
  | none =>
    rw [hburn] at hinput
    cases hinput
  | some burn' =>
    rw [hburn] at hinput
    obtain ⟨hhex, hinput⟩ := check_bind_eq_ok.mp hinput
    rw [failWhen_eq_ok, Bool.not_eq_false] at hhex
    cases hdomain : input.sourceDomain with
    | none =>
      rw [hdomain] at hinput
      cases hinput
      exact ⟨hforwarder, rfl, hhex⟩
    | some domain =>
      rw [hdomain] at hinput
      cases domain with
      | base =>
        cases hinput
        exact ⟨hforwarder, rfl, hhex⟩
      | other text => cases hinput

theorem course_of_fetch {url : String} {answer : Except Thrown IrisReply} :
    Course cfg input [⟨.fetch url, answer⟩] :=
  .inl (List.forall_mem_singleton.mpr fun _ _ => Step.noConfusion)

theorem wp_relayCctpHandler_course :
    (relayCctpHandler cfg channels input).wp (recorded fun _ _ => True) (fun _ h => Course cfg input h) [] := by
  unfold relayCctpHandler
  split
  · exact .inl (List.forall_mem_nil _)
  rename_i forwarder burn hchecked
  obtain ⟨hforwarder, hburn, hhex⟩ := checkInput_eq_ok hchecked
  unfold fetchAttestation
  cases burn with
  | other text => exact .inl (List.forall_mem_nil _)
  | text burnTxHash =>
    rintro answer _ ⟨-, rfl⟩
    cases answer with
    | error t => exact course_of_fetch
    | ok reply =>
      change Dialogue.wp _ _ ((.ret reply.lookup : Run IrisLookup) >>= _) _
      rw [wp_bind]
      cases hlookup : reply.lookup with
      | error e => exact course_of_fetch
      | ok found =>
        rw [wp_ret, onValue_ok]
        cases found with
        | pending detail => exact course_of_fetch
        | complete message attestation =>
          dsimp only
          split
          · exact course_of_fetch
          · rename_i header hcheck
            rw [wp_bind]
            refine wp_mono ?_ (Asks.wp_recorded_append asks_relabel)
            rintro r _ ⟨steps, rfl, hsteps⟩
            have hminting : Minting cfg input ⟨forwarder, cctpMethod, message, attestation⟩
                ([⟨.fetch (irisAddress (cfg.irisUrl.getD cctpIrisSandbox) burnTxHash), .ok reply⟩] ++ steps) :=
              ⟨mintable_of_check hforwarder hcheck, burnTxHash, reply, steps, hburn, hhex, rfl, hlookup, hsteps⟩
            cases r with
            | ok served => exact .inr ⟨_, hminting⟩
            | error e => exact .inr ⟨_, hminting⟩

theorem wp_serve_course : (serve cfg channels ref front).wp (recorded fun _ _ => True)
    (fun _ h => h = [] ∨ ∃ input, front.enter cfg = .ok input ∧ Course cfg input h) [] := by
  unfold serve
  split
  · exact .inl rfl
  · exact .inl rfl
  · rename_i input henter
    rw [wp_bind, wp_outcome]
    refine wp_mono (fun r h hcourse => ?_) wp_relayCctpHandler_course
    rw [onValue_ok]
    cases r with
    | ok result => exact .inr ⟨input, henter, hcourse⟩
    | error e => exact .inr ⟨input, henter, hcourse⟩

/-- **What is minted was attested and checked.** A request takes a step of a mint only after its first step, the one
read of Circle's answer for its burn, was answered with just this message and attestation; the message names the chain,
the destination and the forwarder, and every later step of the request is of the same mint. -/
theorem mints_checked {r : Except Failure (Option Response)} {q : Ask} {a : q.Answer}
    (hrun : Runs (recorded fun _ _ => True) (serve cfg channels ref front) [] r h)
    (hmem : (⟨.relay call q, a⟩ : Event Step.Answer) ∈ h) :
    ∃ input, front.enter cfg = .ok input ∧ Minting cfg input call h := by
  rcases hrun.sound wp_serve_course with rfl | ⟨input, henter, hcourse⟩
  · cases hmem
  rcases hcourse with hnone | ⟨call', hminting⟩
  · exact absurd rfl (hnone _ hmem call q)
  obtain ⟨burn, reply, steps, -, -, rfl, -, hsteps⟩ := hminting.attested
  rcases List.mem_cons.mp hmem with heq | hstep
  · cases heq
  obtain ⟨q', hq'⟩ := hsteps _ hstep
  cases hq'
  exact ⟨input, henter, hminting⟩

end

namespace Demo

/-- A `C…` address. -/
def contractAddress (id : List ℕ) : String := Stellar.base32 56 (Stellar.checked (16 :: id))

def idOf (s : String) : List ℕ := fixedDigits 256 32 (Stellar.addressKey s).toNat

@[irreducible] def decodeContract (s : String) : Except Failure Bytes :=
  if contractAddress (idOf s) = s then .ok ((idOf s).map UInt8.ofNat)
  else .error (.error "invalid encoded string")

/-- The forwarder's. -/
def contractId : Bytes :=
  [61, 232, 106, 197, 11, 71, 234, 242, 132, 15, 226, 62, 72, 23, 149, 81, 102, 15, 209, 7, 47, 186, 111, 68,
    93, 74, 107, 215, 175, 74, 185, 62]

/-- A burn for the forwarder. -/
def message : Bytes := [0, 0, 0, 1, 0, 0, 0, 6, 0, 0, 0, 27] ++ List.replicate 96 0 ++ contractId ++ List.replicate 8 0

def attestation : Bytes := List.replicate 65 1

def mint : Invocation := ⟨cctpTestnetForwarder, cctpMethod, message, attestation⟩

def sdk : Channels.Sdk where
  isAddress _ := .ok ()
  simErrorHead message := message
  assemble _ := .ok ⟨some 400, Sponsor.Demo.payable, .ok Sponsor.Demo.payable⟩
  groupClaimFailureToken _ := "unknown"

def config : Config where
  sponsor := ⟨"sponsor", "signer", none, []⟩
  testnet := true
  mainnet := false
  forwarder := some cctpTestnetForwarder
  irisUrl := none
  sdk := sdk
  decodeContract := decodeContract

def burn : String := "0x" ++ hex (List.replicate 32 170)

def input : CctpRelayInput := ⟨some (.text burn), none⟩

def front : Front := ⟨.ok (), .ok false, false, .ok input, .ok none⟩

def reply : IrisReply :=
  ⟨200, .ok (some ⟨some "complete", some ("0x" ++ hex message), some ("0x" ++ hex attestation)⟩)⟩

theorem isHexText_burn : isHexText burn (some 64) = true :=
  isHexText_hex (List.cons_ne_nil _ _) fun _ h => (Option.some.inj h).symm

theorem enter_front : front.enter config = .ok input := by
  simp [Front.enter, Front.readBody, front, input, config, Field.asText, isHexText_burn, cctpTestnetForwarder,
    failWhen]
  rfl

theorem checkInput_input : checkInput config input = .ok (cctpTestnetForwarder, .text burn) := by
  refine check_bind_eq_ok.mpr ⟨failWhen_eq_ok.mpr Bool.noConfusion, ?_⟩
  refine check_bind_eq_ok.mpr ⟨failWhen_eq_ok.mpr (not_not.mpr List.mem_cons_self), ?_⟩
  refine check_bind_eq_ok.mpr ⟨failWhen_eq_ok.mpr fun h => ?_, rfl⟩
  exact Bool.false_ne_true (h.symm.trans isHexText_burn)

theorem lookup_reply : reply.lookup = .ok (.complete message attestation) :=
  lookup_complete (List.cons_ne_nil _ _) (List.cons_ne_nil _ _)

def header : CctpHeader where
  version := u32 message 0
  sourceDomain := u32 message 4
  destinationDomain := u32 message 8
  nonce := hex (subarray message 12 44)
  destinationCaller := hex (subarray message 108 140)
  minFinalityThreshold := u32 message 140
  finalityThresholdExecuted := u32 message 144

theorem decodeContract_forwarder : config.decodeContract cctpTestnetForwarder = .ok contractId := by
  decide +kernel

theorem length_message : message.length = 148 := by simp [message, contractId]

theorem length_attestation : attestation.length = 65 := List.length_replicate

/-- The message names the forwarder. -/
theorem caller_message : header.destinationCaller = hex contractId := by
  have hcaller : subarray message 108 140 = contractId := by decide +kernel
  simp only [header, hcaller]

theorem check_message :
    checkCctpMessage config.decodeContract message attestation cctpTestnetForwarder = .ok header := by
  refine check_bind_eq_ok.mpr ⟨failWhen_eq_ok.mpr (by rw [length_message]; decide), ?_⟩
  refine check_bind_eq_ok.mpr ⟨failWhen_eq_ok.mpr (by rw [length_attestation]; decide), ?_⟩
  refine value_bind_eq_ok.mpr ⟨header, check_bind_eq_ok.mpr ⟨failWhen_eq_ok.mpr ?_, rfl⟩, ?_⟩
  · rw [length_message]
    decide
  refine check_bind_eq_ok.mpr ⟨failWhen_eq_ok.mpr (by decide +kernel), ?_⟩
  refine check_bind_eq_ok.mpr ⟨failWhen_eq_ok.mpr (by decide +kernel), ?_⟩
  refine value_bind_eq_ok.mpr ⟨contractId, decodeContract_forwarder, check_bind_eq_ok.mpr ⟨failWhen_eq_ok.mpr ?_, rfl⟩⟩
  exact not_not.mpr caller_message

/-- A pool of one channel, leased through the shared store. -/
def pool : Channels.ChannelManager := ⟨["channel"], Channels.redisLeaseStore, false⟩

/-- Circle attests the burn, the channel is free, and the ledger includes the mint. -/
def world (_ : List (Event Step.Answer)) : (q : Step) → q.Answer
  | .fetch _ => .ok reply
  | .relay _ (.await q) =>
    Sponsor.Demo.network (.error Sponsor.Demo.unavailable) (.error Sponsor.Demo.unavailable) Sponsor.Demo.included [] q
  | .relay _ .randomUUID => "token"
  | .relay _ (.pipeline _) => .ok [.of (.int 1)]
  | .relay _ (.memory _) => .null
  | .relay _ (.shuffled n) => List.finRange n
  | .relay _ (.loadAccount _) => .ok ()
  | .relay _ (.sleep _) | .relay _ (.build _ _) | .relay _ (.handOut _) => ()

/-- What is left of the request when Circle has answered. -/
def afterwards : Run (Option Response) := do
  match ← (relayCall config (some pool) mint >>= fun served => pure (.ofServed header.nonce served) :
    Run CctpRelayResult).outcome with
  | .ok result => return some (relayResponse result)
  | .error e => return errorResponse config.mainnet "ref" e

def run : Except Failure (Option Response) × List (Event Step.Answer) :=
  afterwards.play world [⟨.fetch (irisAddress cctpIrisSandbox burn), .ok reply⟩]

theorem runs_run {fair : (q : Step) → q.Answer → Prop} (hfair : ∀ h q, fair q (world h q)) :
    Runs (recorded fair) (serve config (some pool) "ref" front) [] run.1 run.2 := by
  unfold serve relayCctpHandler
  rw [enter_front]
  dsimp only
  rw [checkInput_input]
  refine .ask (.ok reply) ⟨hfair [] _, rfl⟩ ?_
  simp only [Dialogue.andThen, onValue_ok, lookup_reply, check_message]
  exact runs_play hfair afterwards _

end Demo

/-- The mint of a burn for the forwarder is sent. -/
theorem mints_checked_demo : ∃ input, Demo.front.enter Demo.config = .ok input ∧
    Minting Demo.config input Demo.mint Demo.run.2 := by
  have hsent : (Demo.run.2.any fun e =>
      e.1 = .relay Demo.mint (.await (.sendTransaction Sponsor.Demo.payable))) = true := by decide +kernel
  obtain ⟨⟨q, a⟩, hmem, hq⟩ := List.any_eq_true.mp hsent
  cases of_decide_eq_true hq
  exact mints_checked (Demo.runs_run fun _ _ => trivial) hmem

end Lumenia.Sponsor.CctpRelay

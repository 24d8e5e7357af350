import Lumenia.Sponsor.DepositWorker
import Lumenia.Web.Send

/-!
# What a failed deposit means

`apps/extension/src/lib/errors.ts`: after a deposit was signed, its failure is either one of the
sponsor's own refusals, which are all raised before anything is submitted, or uncertain.
`failed_verdict_unsubmitted` says that the extension, which has only a status and an English sentence
to go by, agrees with the sponsor.
-/

namespace Lumenia.Extension

open Stellar Web Sponsor

/-! ## Texts -/

/-- The codes of a failed deposit. -/
inductive ErrorCode
  | notApproved
  | slotsUsed
  | overCap
  | rateLimited
  | halted
  | networkBusy
  | dayLimit
  | sponsorRefused
  deriving DecidableEq

/-- `SENDER_DAY_CAP_USD` -/
def senderDayCapUsd : String := "25"

/-- `CAPS_SENTENCE` -/
def capsSentence : String :=
  "Real money is capped at $5 a link and up to $25 a day from you ($50 a day across the whole pilot)."

/-- `NOTHING_MOVED` -/
def nothingMoved : String := "It did not go through. Nothing moved, so you can send it again."

/-- `MESSAGES` -/
def messages : ErrorCode → String
  | .notApproved => "Real money is invite-only for now. Ask to join with this account."
  | .slotsUsed => "You've used all your real-money sends in the pilot."
  | .overCap => capsSentence
  | .rateLimited => "Too many tries in a minute. Wait a moment, then try again."
  | .halted => "Sending is paused right now. Your money hasn't moved. Try again later."
  | .networkBusy =>
    "The network is busy right now. Your money hasn't moved. Try again in a moment."
  | .dayLimit => "Lumenia has reached today's limit on what it can cover. Your money hasn't moved. " ++
      "Try again tomorrow, after midnight UTC."
  | .sponsorRefused => nothingMoved

/-- A sentence with a capital letter and a full stop. -/
def sentence (s : String) : String :=
  match s.toList with
  | [] => ""
  | c :: cs =>
    let closed := (c :: cs).getLast?.any (· ∈ ['.', '!', '?'])
    String.ofList (c.toUpper :: cs) ++ if closed then "" else "."

/-- Whether a word in lower case begins here, and ends at the end of a word. -/
def wordHere (word cs : List Char) : Bool :=
  decide (word <+: cs.map Char.toLower) && !(cs.drop word.length).head?.any isWord

/-- Whether it does somewhere after the character `before`, at the beginning of a word. -/
def wordAfter (word : List Char) : Option Char → List Char → Bool
  | _, [] => false
  | before, c :: cs => (!before.any isWord && wordHere word (c :: cs)) || wordAfter word (some c) cs

def mentionsWord (word text : String) : Bool := wordAfter (lower word) none text.toList

/-- What is read after the first place where the phrase is followed by something that can be. -/
def firstAfter {α : Type} (phrase : List Char) (read : List Char → Option α) : List Char → Option α
  | [] => none
  | c :: cs =>
    (if phrase <+: (c :: cs).map Char.toLower then read ((c :: cs).drop phrase.length) else none).or
      (firstAfter phrase read cs)

/-- One to nine digits, and a fraction if there is one. -/
def readFigure (cs : List Char) : Option String :=
  let whole := (cs.takeWhile Char.isDigit).take 9
  if whole = [] then none
  else
    match cs.drop whole.length with
    | '.' :: rest =>
      let fraction := rest.takeWhile Char.isDigit
      some (String.ofList (if fraction = [] then whole else whole ++ '.' :: fraction))
    | _ => some (String.ofList whole)

/-! ## Reading the answer -/

inductive RelayRoute
  | v2Deposit
  | v2Reclaim
  deriving DecidableEq

structure RelayError where
  route : RelayRoute
  status : ℕ
  body : String

/-- Three digits, a colon, and the body. -/
def readStatus (route : RelayRoute) : List Char → Option RelayError
  | a :: b :: c :: ':' :: ' ' :: body =>
    if a.isDigit && b.isDigit && c.isDigit then
      some ⟨route, readDigits [a, b, c], String.ofList body⟩
    else none
  | _ => none

/-- How an error for an answer of the route begins. -/
def RelayRoute.mark : RelayRoute → List Char
  | v2Deposit => "/v2-deposit → ".toList
  | v2Reclaim => "/v2-reclaim → ".toList

def readRoute (route : RelayRoute) (msg : List Char) : Option RelayError :=
  if route.mark <+: msg then readStatus route (msg.drop route.mark.length) else none

/-- The route, status and body of an error that was thrown for an answer of a relay. -/
def parseRelayError (msg : String) : Option RelayError :=
  (readRoute .v2Deposit msg.toList).or (readRoute .v2Reclaim msg.toList)

/-- The sponsor's own sentence, if it sent one. -/
def reasonOf (body : String) : String :=
  match Json.parse body with
  | none => ""
  | some j =>
    match j.property "error" with
    | .ok (some (.str reason)) => reason
    | _ => ""

/-! ## Refusals -/

/-- A code, and the words for it. -/
structure Refusal where
  code : ErrorCode
  message : String

def Refusal.of (code : ErrorCode) : Refusal := ⟨code, messages code⟩

/-- Which wait a sentence names. -/
def sponsorWait (reason : String) : Option Refusal :=
  if mentionsWord "halted" reason then some (.of .halted)
  else if mentions "network is busy" reason then some (.of .networkBusy)
  else if mentions "fee budget is spent" reason then some (.of .dayLimit)
  else none

/-- A 403 of the pilot gate. -/
def pilotRefusal (reason : String) : Refusal :=
  if mentions "not on the pilot allowlist" reason then .of .notApproved
  else if mentions "pilot limit reached" reason then
    ⟨.slotsUsed, messages .slotsUsed ++ " (" ++ reason ++ ")"⟩
  else if mentions "fail-closed" reason || mentions "unavailable" reason ||
      mentions "unreadable" reason then .of .halted
  else ⟨.sponsorRefused, if reason = "" then nothingMoved else sentence reason ++ " Nothing moved."⟩

/-- `REDACTED` -/
def redacted : String := "request failed"

/-- A 400 that is a refusal, which is raised before the submit: on mainnet any words but the
redaction, on testnet those of the refusals that are known. -/
def isStatedRefusal (reason : String) (mainnet : Bool) : Bool :=
  reason ≠ "" && reason ≠ redacted &&
    (mainnet || opensWith "canary cap:" reason || opensWith "a group link" reason ||
      opensWith "each share is below" reason ||
      opensWith "today's sponsor fee budget is spent" reason)

/-- The reason without the mark of the caps. -/
def withoutCapMark (reason : String) : String :=
  if opensWith "canary cap:" reason then
    String.ofList ((reason.toList.drop "canary cap:".toList.length).dropWhile isSpace)
  else reason

section

variable (formatUsd : String → String)

/-- The sender's own limit, by the sponsor's figure where it names one. -/
def senderDayRefusal (why : String) : String :=
  let usd := match firstAfter (lower "per-sender limit of ") readFigure why.toList with
    | some named =>
      let text := (formatUsd named).toList
      String.ofList (if ['.', '0', '0'] <:+ text then text.take (text.length - 3) else text)
    | none => "$" ++ senderDayCapUsd
  "That goes over your limit of " ++ usd ++
    " a day. Nothing moved. Try a smaller amount, or try again tomorrow."

def statedRefusal (reason : String) : Refusal :=
  let why := withoutCapMark reason
  match sponsorWait why with
  | some wait => wait
  | none =>
    if mentions "fail-closed" why then .of .halted
    else if mentions "per-drop cap" why then .of .overCap
    else if mentions "per-sender limit" why then ⟨.overCap, senderDayRefusal formatUsd why⟩
    else if mentions "daily escrow cap" why then ⟨.sponsorRefused,
      "The pilot's limit for today is reached. Nothing moved. Try again tomorrow."⟩
    else if mentions "below the minimum" why then ⟨.sponsorRefused,
      "That amount is below the smallest link Lumenia covers. Nothing moved."⟩
    else ⟨.sponsorRefused, sentence why ++ " Nothing moved."⟩

/-! ## The verdict -/

inductive DepositVerdict
  | uncertain (why : String)
  | failed (refusal : Refusal)

/-- The refusal that an answer is, if it is one. -/
def refusalOf (r : RelayError) (mainnet : Bool) : Option Refusal :=
  let reason := reasonOf r.body
  if r.route ≠ .v2Deposit ∨ reason = "" then none
  else if r.status = 403 then some (pilotRefusal reason)
  else if r.status = 429 then some (.of .rateLimited)
  else if r.status = 503 then sponsorWait reason
  else if r.status = 400 ∧ isStatedRefusal reason mainnet = true then
    some (statedRefusal formatUsd reason)
  else none

def judgeMessage (mainnet : Bool) (msg : String) : DepositVerdict :=
  if "/v2-deposit → not submitted:".toList <+: msg.toList then
    .uncertain "the escrow was empty at the deadline"
  else if msg = "couldn't reach the sponsor" then
    .uncertain "no answer, and the escrow was empty at the deadline"
  else
    match parseRelayError msg with
    | none => .uncertain "the answer did not say whether it went through"
    | some r =>
      match refusalOf formatUsd r mainnet with
      | some refusal => .failed refusal
      | none => .uncertain ("the server answered " ++ toString r.status)

/-- A failure after the deposit was signed: provably nothing moved, or uncertain. The text of a
`SyntaxError` or a `TypeError` is no answer. -/
def judgeDepositFailure (mainnet : Bool) : SendError → DepositVerdict
  | .depositUncertain .. => .uncertain "accepted, not yet seen in the escrow"
  | .payoutUncertain .. => judgeMessage formatUsd mainnet "payout submitted but not confirmed"
  | .error message | .passed message => judgeMessage formatUsd mainnet message
  | .malformed => .uncertain "the answer did not say whether it went through"

/-! ## The verdict agrees with the sponsor -/

variable {formatUsd} {mainnet : Bool} {ref : String} {e : SendError} {status : ℕ} {text : String}

/-- The device gets this answer, or where the sponsor has none a page of the platform; the other
steps answer as they like. -/
def Given (served : Option Response) : (q : Ask) → q.Answer → Prop
  | .post .., a => a = .ok ((served.map Response.status).getD 500)
  | .text, a => ∃ text, a = .ok text ∧ ∀ response ∈ served, text = Json.stringify response.body
  | _, _ => True

/-- Nothing is said about the money. -/
def IsUncertain (formatUsd : String → String) (mainnet : Bool) (e : SendError) : Prop :=
  ∃ why, judgeDepositFailure formatUsd mainnet e = .uncertain why

theorem reasonOf_error : reasonOf (Json.stringify [("error", .str text)]) = text := by
  simp [reasonOf, Json.parse_stringify, Json.property, Json.Scalar.toJson]

section

variable {a b c : Char} (hdigits : (a.isDigit && b.isDigit && c.isDigit) = true)
  (hstatus : (toString status).toList = [a, b, c])

include hdigits hstatus

theorem parseRelayError_answered : parseRelayError (Web.answered "/v2-deposit" status text) =
    some ⟨.v2Deposit, readDigits [a, b, c], text⟩ := by
  have hmark : "/v2-deposit".toList ++ " → ".toList = RelayRoute.v2Deposit.mark := by decide
  have hcolon : ": ".toList = [':', ' '] := by decide
  have hlist : (Web.answered "/v2-deposit" status text).toList =
      RelayRoute.v2Deposit.mark ++ a :: b :: c :: ':' :: ' ' :: text.toList := by
    simp only [Web.answered, String.toList_append, hstatus, hcolon, ← hmark]
    simp
  have hread : readRoute .v2Deposit (Web.answered "/v2-deposit" status text).toList =
      some ⟨.v2Deposit, readDigits [a, b, c], text⟩ := by
    rw [hlist, readRoute, if_pos (List.prefix_append _ _), List.drop_left, readStatus, hdigits,
      if_pos rfl, String.ofList_toList]
  rw [parseRelayError, hread]
  rfl

/-- An answer that is no refusal leaves it open. -/
theorem isUncertain_answered
    (hrefusal : refusalOf formatUsd ⟨.v2Deposit, readDigits [a, b, c], text⟩ mainnet = none) :
    IsUncertain formatUsd mainnet (.error (Web.answered "/v2-deposit" status text)) := by
  change ∃ why, judgeMessage formatUsd mainnet (Web.answered "/v2-deposit" status text) = .uncertain why
  unfold judgeMessage
  split
  · exact ⟨_, rfl⟩
  split
  · exact ⟨_, rfl⟩
  rw [parseRelayError_answered hdigits hstatus]
  dsimp only
  rw [hrefusal]
  exact ⟨_, rfl⟩

end

/-- A 400 in the words of a late failure is no refusal. -/
theorem refusalOf_late {message : String} (hstated : isStatedRefusal message mainnet = false) :
    refusalOf formatUsd ⟨.v2Deposit, readDigits ['4', '0', '0'], Json.stringify [("error", .str message)]⟩
      mainnet = none := by
  have hstatus : readDigits ['4', '0', '0'] = 400 := by decide
  unfold refusalOf
  dsimp only
  rw [reasonOf_error, hstatus, hstated]
  simp

theorem refusalOf_redacted {ref : String} :
    refusalOf formatUsd ⟨.v2Deposit, readDigits ['4', '0', '0'],
      Json.stringify [("error", .str "request failed"), ("ref", .str ref)]⟩ mainnet = none := by
  have hstatus : readDigits ['4', '0', '0'] = 400 := by decide
  have hreason : reasonOf (Json.stringify [("error", .str "request failed"), ("ref", .str ref)]) =
      redacted := by
    simp [reasonOf, Json.parse_stringify, Json.property, Json.Scalar.toJson, redacted]
  unfold refusalOf
  dsimp only
  rw [hreason, hstatus]
  simp [isStatedRefusal]

theorem refusalOf_platform :
    refusalOf formatUsd ⟨.v2Deposit, readDigits ['5', '0', '0'], text⟩ mainnet = none := by
  have hstatus : readDigits ['5', '0', '0'] = 500 := by decide
  unfold refusalOf
  rw [hstatus]
  simp

/-- The answers that leave it open. -/
inductive Open (formatUsd : String → String) (mainnet : Bool) : Option Response → Prop
  | platform : Open formatUsd mainnet none
  | landed (body : List (String × Json.Scalar)) : Open formatUsd mainnet (some ⟨200, body⟩)
  | undecided (body : List (String × Json.Scalar)) : Open formatUsd mainnet (some ⟨202, body⟩)
  | unnamed (body : List (String × Json.Scalar))
    (h : refusalOf formatUsd ⟨.v2Deposit, readDigits ['4', '0', '0'], Json.stringify body⟩ mainnet = none) :
    Open formatUsd mainnet (some ⟨400, body⟩)

/-- An error whose words are not one of the known refusals is hidden on mainnet. -/
theorem open_error {message : String} (hstated : isStatedRefusal message false = false) :
    Open formatUsd mainnet (errorResponse mainnet ref (.error message)) := by
  cases mainnet with
  | true => exact .unnamed _ refusalOf_redacted
  | false => exact .unnamed _ (refusalOf_late hstated)

/-- What is answered with the deposit at the network leaves it open. -/
theorem open_of_late {served : Option Response} (h : LateAnswer mainnet ref served) :
    Open formatUsd mainnet served := by
  cases h with
  | ran relayed =>
    unfold depositResponse
    dsimp only
    cases relayed.confirmed with
    | true => exact .landed _
    | false => exact .undecided _
  | threw e hlate =>
    cases hlate with
    | unconfirmed detail hash => exact .undecided _
    | rejected => exact open_error (by decide +kernel)
    | wordless e htype =>
      simp only [typeErrors, List.mem_cons, List.not_mem_nil, or_false] at htype
      rcases htype with rfl | rfl | rfl
      all_goals exact open_error (by decide +kernel)

/-! ## The device -/

open Dialogue

variable {p : PreparedDeposit} {sender : String} {served : Option Response} {h : List (Event Ask.Answer)}
  {view : View} {α : Type}

/-- Nothing is thrown that says more. -/
def Keeps (formatUsd : String → String) (mainnet : Bool) (r : Except SendError α) : Prop :=
  ∀ e, r = .error e → IsUncertain formatUsd mainnet e

theorem Keeps.value {a : α} : Keeps formatUsd mainnet (.ok a) := by
  rintro _ ⟨⟩

theorem Keeps.error (he : IsUncertain formatUsd mainnet e) :
    Keeps formatUsd mainnet (.error e : Except SendError α) := by
  rintro _ ⟨⟩
  exact he

/-- A body that the sponsor has written can be read. -/
theorem readHash_stringify (members : List (String × Json.Scalar)) :
    ∃ hash, readHash (Json.stringify members) = .ok hash := by
  unfold readHash
  split
  · exact ⟨_, rfl⟩
  · rw [Json.parse_stringify]
    exact ⟨_, rfl⟩

theorem isUncertain_uncertain : IsUncertain formatUsd mainnet p.uncertain := ⟨_, rfl⟩

theorem isUncertain_notSubmitted :
    IsUncertain formatUsd mainnet (.error ("/v2-deposit → not submitted: " ++ text)) := by
  refine ⟨_, if_pos ?_⟩
  rw [String.toList_append]
  exact (show "/v2-deposit → not submitted:".toList <+: "/v2-deposit → not submitted: ".toList by
    decide).trans (List.prefix_append _ _)

theorem wp_depositUndecided_keeps {members : List (String × Json.Scalar)} :
    (depositUndecided view p (Json.stringify members)).wp (recorded (Given served))
      (fun r _ => Keeps formatUsd mainnet r) h := by
  unfold depositUndecided v2DepositLanded
  rw [wp_bind, wp_recorded_bind]
  intro found _
  match found with
  | .error u => exact Keeps.error isUncertain_uncertain
  | .ok true =>
    obtain ⟨hash, heq⟩ := readHash_stringify members
    change Keeps formatUsd mainnet (readHash _)
    rw [heq]
    exact Keeps.value
  | .ok false =>
    apply wp_recorded_bind.mpr
    intro now _
    split
    · exact Keeps.error isUncertain_notSubmitted
    · exact Keeps.error isUncertain_uncertain

theorem wp_postDeposit_keeps (hopen : Open formatUsd mainnet served) :
    (postDeposit view p sender).wp (recorded (Given served))
      (fun r _ => Keeps formatUsd mainnet r) h := by
  unfold postDeposit
  rw [wp_recorded_bind]
  rintro _ rfl
  apply wp_recorded_bind.mpr
  rintro _ ⟨text, rfl, htext⟩
  cases hopen with
  | platform => exact Keeps.error (isUncertain_answered rfl (by decide) refusalOf_platform)
  | landed body =>
    obtain rfl := htext _ rfl
    obtain ⟨hash, heq⟩ := readHash_stringify body
    change Keeps formatUsd mainnet (readHash _)
    rw [heq]
    exact Keeps.value
  | undecided body =>
    obtain rfl := htext _ rfl
    exact wp_depositUndecided_keeps
  | unnamed body hrefusal =>
    obtain rfl := htext _ rfl
    exact Keeps.error (isUncertain_answered rfl (show (toString 400).toList = ['4', '0', '0'] by decide)
      hrefusal)

theorem wp_createV2Link_keeps (hopen : Open formatUsd mainnet served) :
    (createV2Link p sender).wp (recorded (Given served)) (fun r _ => Keeps formatUsd mainnet r) h := by
  unfold createV2Link
  rw [wp_bind]
  refine wp_mono ?_ (wp_postDeposit_keeps hopen)
  intro r h' hkeeps
  cases r with
  | error e => exact Keeps.error (hkeeps e rfl)
  | ok hash => exact Keeps.value

end

/-- **The verdict agrees with the sponsor.** On either network, for every request, every run of the
sponsor's route and every run of the device on its answer: a failure is judged as a failed deposit only
if the sponsor has not left the deposit with the network, and any other as uncertain. -/
theorem failed_verdict_unsubmitted {formatUsd : String → String} {cfg : DepositConfig}
    {pilotEnabled : Bool} {ref : String} {front : Front} {served : Option Response}
    {h : Sponsor.History} {p : PreparedDeposit} {sender : String} {e : SendError} {h' : List (Dialogue.Event Ask.Answer)}
    (hserve : Dialogue.Runs (Dialogue.recorded fun _ _ => True)
      (serveDeposit cfg pilotEnabled ref front) [] (.ok served) h)
    (hdevice : Dialogue.Runs (Dialogue.recorded (Given served)) (createV2Link p sender) [] (.error e) h') :
    (∃ refusal, judgeDepositFailure formatUsd cfg.mainnet e = .failed refusal) ∧ ¬LeftSubmitted h ∨
      ∃ why, judgeDepositFailure formatUsd cfg.mainnet e = .uncertain why := by
  by_cases hleft : LeftSubmitted h
  · obtain ⟨_, ⟨⟩, hlate⟩ := hserve.sound serveDeposit_late
    exact .inr (hdevice.sound (wp_createV2Link_keeps (open_of_late (hlate hleft))) e rfl)
  · cases hverdict : judgeDepositFailure formatUsd cfg.mainnet e with
    | failed refusal => exact .inl ⟨⟨refusal, rfl⟩, hleft⟩
    | uncertain why => exact .inr ⟨why, rfl⟩

namespace Demo

/-- The operator has halted the sponsor. -/
def haltedFront : Front where
  service := .ok ()
  halted := .ok true
  declaredTooLarge := false
  body := .ok none
  limited := .ok none

def haltedResponse : Response := ⟨503, [("error", .str "sponsor temporarily halted")]⟩

def deposit : PreparedDeposit := ⟨"https://getlumenia.com/v2/c/ab#S", "ab", ⟨"AAAA", "ab", some 120⟩⟩

/-- What the device throws. -/
def haltedError : SendError :=
  .error (Web.answered "/v2-deposit" 503 (Json.stringify haltedResponse.body))

theorem runs_halted : Dialogue.Runs (Dialogue.recorded (Given (some haltedResponse)))
    (createV2Link deposit "sender") [] (.error haltedError)
    [⟨.post "/v2-deposit" [("xdr", .str "AAAA"), ("senderPublicKey", .str "sender")], .ok 503⟩,
      ⟨.text, .ok (Json.stringify haltedResponse.body)⟩] := by
  refine .ask (.ok 503) ⟨rfl, rfl⟩ (.ask (.ok _) ⟨⟨_, rfl, ?_⟩, rfl⟩ .ret)
  rintro _ ⟨⟩
  rfl

end Demo

/-- A halted sponsor. -/
theorem failed_verdict_unsubmitted_halted :
    (∃ refusal, judgeDepositFailure id true Demo.haltedError = .failed refusal) ∧ ¬LeftSubmitted [] ∨
      ∃ why, judgeDepositFailure id true Demo.haltedError = .uncertain why :=
  @failed_verdict_unsubmitted id Sponsor.Demo.depositConfig true "" Demo.haltedFront _ _ _ _ _ _ .ret
    Demo.runs_halted

end Lumenia.Extension

import Mathlib.Data.List.DropRight
import Mathlib.Data.List.Intervals
import Lumenia.Theory.Replace

/-!
# apps/web/lib/claim-error.ts, isUnconfirmedSubmit of unconfirmed.ts

Why a claim failed, in words the recipient can act on. The caught value is whatever was thrown: it is
modelled by what each read the classifier makes of it answers, in the order of the reads, so that an
accessor may answer differently each time, or throw. A text is its UTF-16 code units.
-/

namespace Lumenia.Web.ClaimError

abbrev Text := List ℕ

/-- A text of the source; each of its characters is one code unit. -/
def units (s : String) : Text := s.toList.map Char.toNat

/-! ## What the patterns test -/

def isDigit (c : ℕ) : Bool := 48 ≤ c && c ≤ 57

/-- `\w` -/
def isWord (c : ℕ) : Bool := isDigit c || (65 ≤ c && c ≤ 90) || (97 ≤ c && c ≤ 122) || c == 95

/-- `[A-Z2-7]` -/
def isBase32 (c : ℕ) : Bool := (65 ≤ c && c ≤ 90) || (50 ≤ c && c ≤ 55)

/-- `[A-Za-z0-9_-]` -/
def isSeedUnit (c : ℕ) : Bool := isWord c || c == 45

/-- What `.` does not match. -/
def isLineEnd (c : ℕ) : Bool := c == 10 || c == 13 || c == 8232 || c == 8233

/-- `\s`, which is also what `trim` takes off. -/
def isSpace (c : ℕ) : Bool :=
  (9 ≤ c && c ≤ 13) || c == 32 || c == 160 || c == 5760 || (8192 ≤ c && c ≤ 8202) || c == 8232 || c == 8233 ||
    c == 8239 || c == 8287 || c == 12288 || c == 65279

/-- The `i` flag: two units that are one letter in either case. -/
def lower (c : ℕ) : ℕ := if 65 ≤ c ∧ c ≤ 90 then c + 32 else c

def trim (s : Text) : Text := (s.dropWhile isSpace).rdropWhile isSpace

/-- Whether a pattern matches somewhere; a pattern sees the unit before its place. -/
def somewhere (test : Option ℕ → Text → Bool) : Option ℕ → Text → Bool
  | _, [] => false
  | before, x :: xs => test before (x :: xs) || somewhere test (some x) xs

/-- The leftmost match, for a pattern that does not look behind itself. -/
def firstMatch {β : Type} (read : Text → Option β) : Text → Option β
  | [] => none
  | x :: xs => (read (x :: xs)).or (firstMatch read xs)

/-- `/words/i` -/
def mentions (words : String) (s : Text) : Bool :=
  somewhere (fun _ xs => (units words).isPrefixOf (xs.map lower)) none s

/-- `/\bwords\b/i`, where the words begin and end with a letter -/
def mentionsWhole (words : String) (s : Text) : Bool :=
  somewhere (fun before xs => !before.any isWord && (units words).isPrefixOf (xs.map lower) &&
    !(xs.drop words.length).head?.any isWord) none s

/-! ## redact -/

/-- `S[A-Z2-7]{55}` at a place. -/
def keyAt (s : Text) : Bool := s.head? == some 83 && (s.tail.take 55).length == 55 && (s.tail.take 55).all isBase32

/-- `/\bS[A-Z2-7]{55}\b/`, which becomes "S…" -/
def keyRule : Rule ℕ := fun before s =>
  if !before.any isWord && keyAt s && !(s.drop 56).head?.any isWord then some (55, units "S…") else none

/-- `/\bp1\.[A-Za-z0-9_-]{8,}/`, which becomes "p1.…" -/
def seedRule : Rule ℕ := fun before s =>
  let run := (s.drop 3).takeWhile isSeedUnit
  if !before.any isWord && (units "p1.").isPrefixOf s && 8 ≤ run.length then some (2 + run.length, units "p1.…")
  else none

def redactKeys (s : Text) : Text := replaceAll keyRule none 0 s

def redactSeeds (s : Text) : Text := replaceAll seedRule none 0 s

def redact (s : Text) : Text := redactSeeds (redactKeys s)

/-! ## flatten -/

/-- Something that was gathered: a text, `undefined`, or another value (which one, and the text a join
makes of it, or nothing where that throws). -/
inductive Part where
  | text (s : Text)
  | undefined
  | other (which : ℕ) (asText : Option Text)
deriving DecidableEq

/-- What a join writes for a part. -/
def Part.joined : Part → Option Text
  | .text s => some s
  | .undefined => some []
  | .other _ asText => asText

/-- What the reads of the caught value answer, one field for each read; `none` is a read that throws. -/
structure Caught where
  /-- `e instanceof UnconfirmedSubmitError` -/
  isUnconfirmedError : Option Bool
  /-- `candidate?.submitUnconfirmed === true` -/
  submitUnconfirmed : Option Bool
  /-- `candidate?.name === "UnconfirmedSubmitError"` -/
  namedUnconfirmed : Option Bool
  /-- `err instanceof Error` -/
  isError : Option Bool
  /-- `err.message` -/
  message : Option Part
  /-- `typeof anyErr?.message === "string"` -/
  messageIsText : Option Bool
  /-- `anyErr.message` -/
  messageAgain : Option Part
  /-- whether `anyErr?.response?.status` is truthy -/
  hasStatus : Option Bool
  /-- `${anyErr.response.status}` -/
  status : Option Text
  /-- `anyErr?.response?.data !== undefined` -/
  hasData : Option Bool
  /-- `JSON.stringify(anyErr.response.data)`, which is `undefined` for a function -/
  data : Option (Option Text)
  /-- `String(err)` -/
  asText : Option Text

def isUnconfirmedSubmit (v : Caught) : Option Bool := do
  if ← v.isUnconfirmedError then
    return true
  -- the try block, whose catch says false
  let branded : Option Bool := do
    if ← v.submitUnconfirmed then return true
    v.namedUnconfirmed
  return branded.getD false

def push (parts : List Part) (part : Part) : List Part := if part ∈ parts then parts else parts ++ [part]

/-- The statements of the try block, each of which throws before it pushes or pushes. -/
def readers (v : Caught) : List (List Part → Option (List Part)) :=
  [fun parts => do
      if ← v.isError then return push parts (← v.message)
      return parts,
    fun parts => do
      if ← v.messageIsText then return push parts (← v.messageAgain)
      return parts,
    fun parts => do
      if ← v.hasStatus then return push parts (.text (units "status:" ++ (← v.status)))
      return parts,
    fun parts => do
      if ← v.hasData then return push parts (((← v.data).map Part.text).getD .undefined)
      return parts,
    fun parts => do
      if parts = [] then return push parts (.text (← v.asText))
      return parts]

/-- What the try block has collected when it ends, or when a statement throws. -/
def collect : List (List Part → Option (List Part)) → List Part → List Part
  | [], parts => parts
  | read :: reads, parts =>
    match read parts with
    | some parts => collect reads parts
    | none => parts

/-- The join of what was collected, outside the try block. -/
def joined (v : Caught) : Option Text := do
  let texts ← (collect (readers v) []).mapM Part.joined
  return List.intercalate (units " ") texts

def flatten (v : Caught) : Option Text := (joined v).map fun text => (redact text).take 2000

/-! ## actionableRefusal, statusOf -/

/-- `((?:[^"\\]|\\.)*)"`, from behind the opening quote -/
def stringBody : Text → Option Text
  | [] => none
  | [c] => if c = 34 then some [] else none
  | c :: d :: rest =>
    if c = 34 then some []
    else if c = 92 then if isLineEnd d then none else (stringBody rest).map fun body => c :: d :: body
    else (stringBody (d :: rest)).map fun body => c :: body

/-- `/"error"\s*:\s*"((?:[^"\\]|\\.)*)"/`, the group -/
def wrapped (blob : Text) : Option Text :=
  firstMatch (fun xs =>
    if (units "\"error\"").isPrefixOf xs then
      match (xs.drop 7).dropWhile isSpace with
      | 58 :: rest =>
        match rest.dropWhile isSpace with
        | 34 :: body => stringBody body
        | _ => none
      | _ => none
    else none) blob

/-- `.replace(/\\(.)/g, "$1")` -/
def unescape : Text → Text
  | [] => []
  | [c] => [c]
  | c :: d :: rest => if c = 92 ∧ !isLineEnd d then d :: unescape rest else c :: unescape (d :: rest)

def actionableRefusal (blob : Text) : Option Text :=
  let sentence := trim (((wrapped blob).map unescape).getD blob)
  if !mentions "try again" sentence then none
  else if sentence.length ≤ 160 then some sentence else none

/-- `(\d{3})` -/
def threeDigits : Text → Option ℕ
  | a :: b :: c :: _ =>
    if isDigit a && isDigit b && isDigit c then some (100 * (a - 48) + 10 * (b - 48) + (c - 48)) else none
  | _ => none

def statusOf (blob : Text) : Option ℕ :=
  (firstMatch (fun
    | 8594 :: rest => threeDigits (rest.dropWhile isSpace)
    | _ => none) blob).or
  (firstMatch (fun xs => if (units "status:").isPrefixOf xs then threeDigits (xs.drop 7) else none) blob)

/-- `/"confirmed"\s*:\s*false/i` -/
def saysNotConfirmed (blob : Text) : Bool :=
  somewhere (fun _ xs => (units "\"confirmed\"").isPrefixOf (xs.map lower) &&
    match (xs.drop 11).dropWhile isSpace with
    | 58 :: rest => (units "false").isPrefixOf ((rest.dropWhile isSpace).map lower)
    | _ => false) none blob

/-- `/\u2192\s*202\b/` -/
def answered202 (blob : Text) : Bool :=
  somewhere (fun
    | _, 8594 :: rest =>
      let rest := rest.dropWhile isSpace
      (units "202").isPrefixOf rest && !(rest.drop 3).head?.any isWord
    | _, _ => false) none blob

/-! ## classifyClaimError -/

inductive ClaimErrorKind where
  | alreadyClaimed | alreadyYours | poolEmpty | expired | linkMismatch | groupFailed | uncertain | busy
  | networkBusy | dayLimit | paused | offline | linkInvalid | refused | unknown
deriving DecidableEq

structure ClaimErrorInfo where
  kind : ClaimErrorKind
  detail : Text
  retryable : Bool
deriving DecidableEq

def uncertain : ClaimErrorInfo where
  kind := .uncertain
  detail := units "the network hasn't confirmed this yet - open the link again in a moment to check"
  retryable := false

/-- What the flattened text says. -/
def classifyText (blob : Text) : ClaimErrorInfo :=
  let status := statusOf blob
  if mentions "missing key" blob || mentions "missing balance" blob then
    { kind := .linkInvalid, detail := blob.take 120, retryable := false }
  else if mentions "nothing was signed" blob then
    { kind := .refused, detail := units "the server's answer did not match what this app asked for", retryable := false }
  else if mentions "group-claim-failed" blob || mentions "already-claimed-this" blob || mentions "drop-empty" blob ||
      mentions "bad-link-key" blob then
    if mentions "already-claimed-this" blob then
      { kind := .alreadyYours, detail := units "your share is already in your account on this phone", retryable := false }
    else if mentions "drop-empty" blob then
      { kind := .poolEmpty, detail := units "every share on this link has been taken", retryable := false }
    else if mentionsWhole "expired" blob then
      { kind := .expired, detail := units "this link closed, so it can't pay out any more", retryable := false }
    else if mentions "bad-link-key" blob then
      { kind := .linkMismatch, detail := units "this link doesn't match the money it points at", retryable := false }
    else
      { kind := .groupFailed, detail := units "the link refused this claim", retryable := false }
  else if mentions "v2-claim tx not_found" blob || mentions "submit unconfirmed" blob || saysNotConfirmed blob ||
      answered202 blob || mentions "status:202" blob then
    uncertain
  else if mentions "op_already_exists" blob || mentions "op_does_not_exist" blob ||
      mentions "claimable_balance_does_not_exist" blob then
    { kind := .alreadyClaimed, detail := units "balance already claimed", retryable := false }
  else if status = some 429 || mentions "rate limit" blob || mentions "too many" blob then
    { kind := .busy, detail := units "rate limited", retryable := true }
  else if mentions "network is busy" blob then
    { kind := .networkBusy, detail := units "the network is busy right now", retryable := true }
  else if mentions "try again tomorrow" blob || mentions "budget is spent" blob || mentions "paused for today" blob then
    { kind := .dayLimit, detail := (actionableRefusal blob).getD (units "today's limit is reached"), retryable := false }
  else if status = some 503 || mentions "halt" blob || mentions "paused" blob || mentions "unavailable" blob then
    let said := actionableRefusal blob
    { kind := .paused
      detail := said.getD (units "service paused")
      retryable := said.any fun s => mentionsWhole "shortly" s || mentionsWhole "in a moment" s }
  else if status = none && (mentions "failed to fetch" blob || mentions "networkerror" blob ||
      mentions "load failed" blob || mentions "timeout" blob || mentions "aborted" blob) then
    { kind := .offline, detail := units "could not reach the service", retryable := true }
  else
    let code := match status with
      | some n => if n = 0 then [] else units (toString n ++ " ")
      | none => []
    { kind := .unknown, detail := code ++ blob.take 120, retryable := true }

/-- The answer about a caught value; `none` where the classifier itself throws. -/
def classifyClaimError (v : Caught) : Option ClaimErrorInfo := do
  if ← isUnconfirmedSubmit v then
    return uncertain
  return classifyText (← flatten v)

end Lumenia.Web.ClaimError

import Lumenia.Sponsor.Caps

/-!
# The onboarding budget

`checkOnboardingBudget` of `apps/sponsor/src/lib/caps.ts`: how many sponsored accounts are handed out
in a UTC day, in all and per caller. A recipient key holds at most one slot of the day: a marker in
the store names the request that holds it, and a later request for the key is served as a repeat, at
the cost of a new token on the marker. When the store cannot be read, the same budgets are kept in
the memory of the process, or not at all.

The steps a process takes in its memory are finer here than between two awaits of the source, so the
model has more interleavings. What the functions print on the console is left out.
-/

namespace Lumenia.Sponsor

structure OnboardingBudget where
  /-- Largest number of sponsored accounts in one UTC day, across all callers. -/
  maxDayAccounts : ℕ
  /-- Largest number from one caller in that same day. -/
  maxDaySourceAccounts : ℕ
  /-- What an unreadable counter means: the counter in memory, or none. -/
  failClosed : Bool

/-! ## The counter in memory -/

structure Isolate where
  localDay : String
  localAccounts : String → Option ℤ
  localPubkeys : String → Option String
  localRepeats : String → Option ℤ

namespace Isolate

def fresh (day : String) : Isolate := ⟨day, fun _ => none, fun _ => none, fun _ => none⟩

/-- Start a fresh day for the counters when the marker moves on. -/
def rollLocalDay (m : Isolate) (dayMarker : String) : Isolate :=
  if dayMarker = m.localDay then m else fresh dayMarker

/-- Add to the counters of a day that has begun; entries are dropped at zero. -/
def addLocal (delta : ℤ) : List String → Isolate → Isolate × List ℤ
  | [], m => (m, [])
  | key :: keys, m =>
    let next := (m.localAccounts key).getD 0 + delta
    let entry := if next > 0 then some next else none
    let (m, ns) := addLocal delta keys
      { m with localAccounts := Function.update m.localAccounts key entry }
    (m, next :: ns)

/-- Add to the counters and return each key's new total. -/
def addToLocalDays (keys : List String) (delta : ℤ) (dayMarker : String) (m : Isolate) :
    Isolate × List ℤ :=
  -- A give-back for a day that has already rolled has nothing to give back to.
  if dayMarker ≠ m.localDay ∧ delta < 0 then (m, keys.map fun _ => 0)
  else addLocal delta keys (m.rollLocalDay dayMarker)

end Isolate

/-! ## Requests -/

/-- A request for an account; `token` is the `crypto.randomUUID()` it draws. -/
structure OnboardingRequest where
  source : String
  now : Instant
  recipientPublicKey : Option String
  token : String

namespace OnboardingRequest

-- `valid` stands for `StrKey.isValidEd25519PublicKey`.
variable (env : Env) (valid : String → Bool) (r : OnboardingRequest)

def pubkey : String := trim (r.recipientPublicKey.getD "")

def dayGlobalKey : String := accountDayKey env r.now

def sourceKey : String := accountSourceDayKey env r.now r.source

def keys : List String := [r.sourceKey env, r.dayGlobalKey env]

def marker : Option String :=
  if r.pubkey ≠ "" ∧ valid r.pubkey then some (accountPubkeyDayKey env r.now r.pubkey) else none

/-- Used only when there is a marker. -/
def repeatKey : String := accountRepeatDayKey env r.now r.pubkey r.source

end OnboardingRequest

/-- What came of claiming the marker. `stamped fenced`: the slot is the request's; when `fenced`, its
release goes through the marker. `repeated n`: it is served as the key's `n`-th repeat. -/
inductive Stamp
  | stamped (fenced : Bool)
  | repeated (repeats : ℤ)

/-- A reservation in flight: the new totals, of the source and of the day; how to claim the marker;
and how to hand the reservation back, given whether it is fenced. -/
structure HeldSlot (M ε : Type) where
  totals : List ℤ
  stamp : Option (Task M ε Stamp)
  giveBack : Bool → Task M ε Unit

inductive Held (M ε : Type)
  | repeated (repeats : ℤ)
  | slot (h : HeldSlot M ε)

/-- The counter a request was judged on. The source does not return it. -/
inductive Counter
  | shared
  | isolate
  | nobody
  deriving DecidableEq

def maxRepeatsPerKey : ℤ := 10

section

variable {M ε : Type} (env : Env) (valid : String → Bool) (budget : OnboardingBudget)
  (r : OnboardingRequest)

/-- Reserve against the counter in memory, the fallback for a store that cannot be read. -/
def degrade : Task Isolate ε (Held Isolate ε) := atomically fun m =>
  let m := m.rollLocalDay (r.dayGlobalKey env)
  let key := r.repeatKey env
  match r.marker env valid with
  | some marker =>
    if (m.localPubkeys marker).isSome then
      -- The earlier admission can no longer give this slot back.
      let repeats := (m.localRepeats key).getD 0 + 1
      ({ m with
          localPubkeys := Function.update m.localPubkeys marker (some r.token)
          localRepeats := Function.update m.localRepeats key (some repeats) }, .repeated repeats)
    else
      let (m, totals) := m.addToLocalDays (r.keys env) 1 (r.dayGlobalKey env)
      (m, .slot
        { totals
          stamp := some <| atomically fun m =>
            ({ m with localPubkeys := Function.update m.localPubkeys marker (some r.token) },
              .stamped true)
          giveBack := fun stamped => atomically fun m =>
            if stamped then
              if m.localPubkeys marker ≠ some r.token then (m, ())
              else
                let m := { m with localPubkeys := Function.update m.localPubkeys marker none }
                ((m.addToLocalDays (r.keys env) (-1) (r.dayGlobalKey env)).1, ())
            else ((m.addToLocalDays (r.keys env) (-1) (r.dayGlobalKey env)).1, ()) })
  | none =>
    let (m, totals) := m.addToLocalDays (r.keys env) 1 (r.dayGlobalKey env)
    (m, .slot
      { totals
        stamp := none
        giveBack := fun _ => atomically fun m =>
          ((m.addToLocalDays (r.keys env) (-1) (r.dayGlobalKey env)).1, ()) })

/-- `Number(result)`; what is no number exceeds nothing. -/
def number : Option Result → ℤ
  | some (.int n) => n
  | _ => 0

/-- Try to serve the request as a repeat of the key's admission: the marker is stamped again first,
and only a stamp that took hands the increments back and counts the repeat. `none` is "fresh". -/
def asRepeat (marker : String) : Task M ε (Option ℤ) := do
  let set ← pipeline [.set marker r.token .XX dayKeyTtlSeconds]
  match answered set 0 with
  | none | some (some .null) => return none
  | some _ =>
    let back ← pipeline
      (((r.keys env).flatMap fun key => incrCmds key (-1)) ++ incrCmds (r.repeatKey env) 1)
    match answered back ((r.keys env).length * 2) with
    | none => return some 0
    | some counted => return some (number counted)

/-- Claim the per-key marker, once both limits have passed. -/
def stamp (marker : String) : Task M ε Stamp := do
  let set ← pipeline [.set marker r.token .NX dayKeyTtlSeconds]
  match answered set 0 with
  -- No answer: the SET may have been applied, so the release goes through the fence either way.
  | none => return .stamped true
  | some (some (.str "OK")) => return .stamped true
  | some _ =>
    match ← asRepeat env r marker with
    | some repeats => return .repeated repeats
    | none => return .stamped false

/-- Hand a slot of the shared counter back. -/
def giveBack (stamped : Bool) : Task M ε Unit := do
  let _ ← pipeline <| match stamped, r.marker env valid with
    | true, some marker =>
      [.fencedSlotRelease marker (r.sourceKey env) (r.dayGlobalKey env) r.token]
    | _, _ => (r.keys env).flatMap fun key => incrCmds key (-1)

def sharedSlot (totals : List ℤ) : HeldSlot M ε where
  totals := totals
  stamp := (r.marker env valid).map (stamp env r)
  giveBack := giveBack env valid r

/-- What the opening pipeline says: whether the key has a marker, and the new totals. -/
def readOpening (results : Except String (List KvReply)) : Except String (Bool × List ℤ) := do
  let results ← results
  if (r.marker env valid).isSome then
    match results[0]? with
    | none => .error "caps store error: undefined"
    | some got =>
      if got.failed then .error ("caps store error: " ++ got.error.getD "undefined")
      else return (got.result ≠ some .null, ← incrTotals results (r.keys env) 1)
  else return (false, ← incrTotals results (r.keys env) 0)

/-- One total that is read again; `none` where there is no number to read. -/
def parseTotal (reply : KvReply) : Except String (Option ℤ) :=
  if reply.failed then .ok none
  else match reply.result with
    | none | some .null => .ok none
    | some result => some <$> bigInt (some result)

def parseTotals : List KvReply → Except String (List (Option ℤ))
  | [] => .ok []
  | reply :: replies => do
    let n ← parseTotal reply
    let ns ← parseTotals replies
    return n :: ns

/-- The totals read again, or the old ones where the store does not give both. -/
def freshTotals (totals : List ℤ) : Except String (List KvReply) → Except String (List ℤ)
  | .error _ => .ok totals
  | .ok replies => do
    match ← parseTotals replies with
    | some source :: some day :: _ => return [source, day]
    | _ => return totals

/-- Reserve against the shared counter. -/
def reserve : Task M ε (Except String (Held M ε)) := do
  let results ← pipeline <| ((r.marker env valid).toList.map .get) ++
    (r.keys env).flatMap fun key => incrCmds key 1
  match readOpening env valid r results, r.marker env valid with
  | .error msg, _ => return .error msg
  | .ok (true, totals), some marker =>
    match ← asRepeat env r marker with
    | some repeats => return .ok (.repeated repeats)
    | none =>
      -- The admission that the marker stood for was released: the totals still count its slot.
      let replies ← pipeline ((r.keys env).map .get)
      return (freshTotals totals replies).map fun totals => .slot (sharedSlot env valid r totals)
  | .ok (_, totals), _ => return .ok (.slot (sharedSlot env valid r totals))

def repeatVerdict (repeats : ℤ) : CapVerdict M ε :=
  if repeats > maxRepeatsPerKey then
    { ok := false
      reason := some ("new account requests for this key are paused for today: " ++
        "it was already set up and asked " ++ toString maxRepeatsPerKey ++
        " more times; try again tomorrow") }
  else { ok := true, release := some (pure ()), isRepeat := true }

/-- Check what is held against the limits, and claim the marker. -/
def settle : Held M ε → Task M ε (CapVerdict M ε)
  | .repeated repeats => return repeatVerdict repeats
  | .slot held =>
    -- The per-source share first: it is the tighter bound.
    if (held.totals[0]?).any fun total : ℤ => total > budget.maxDaySourceAccounts then do
      held.giveBack false
      return { ok := false
               reason := some ("new accounts from this connection are paused for today — " ++
                 "its limit of " ++ toString budget.maxDaySourceAccounts ++
                 " is reached; try again tomorrow") }
    else if (held.totals[1]?).any fun total : ℤ => total > budget.maxDayAccounts then do
      held.giveBack false
      return { ok := false
               reason := some ("new accounts are paused for today — the limit of " ++
                 toString budget.maxDayAccounts ++ " a day is reached; try again tomorrow") }
    else
      match held.stamp with
      | none => return { ok := true, release := some (held.giveBack false) }
      | some stamp => do
        match ← stamp with
        | .repeated repeats => return repeatVerdict repeats
        | .stamped fenced => return { ok := true, release := some (held.giveBack fenced) }

/-- The verdict without the shared counter. -/
def withoutStore : Task Isolate ε (CapVerdict Isolate ε × Counter) := do
  if !budget.failClosed then return ({ ok := true }, .nobody)
  else
    let held ← degrade env valid r
    let verdict ← settle budget held
    return (verdict, .isolate)

/-- Reserve one sponsored onboarding against both the day's budget and the source's share of it. -/
def checkOnboardingBudget : Task Isolate ε (CapVerdict Isolate ε × Counter) :=
  if !env.kv then withoutStore env valid budget r
  else do
    match ← reserve env valid r with
    | .error _ => withoutStore env valid budget r
    | .ok held =>
      let verdict ← settle budget held
      return (verdict, .shared)

end

/-! ## Requests of the account route -/

namespace OnboardingRequest

/-- The request is of the UTC day of `day`. -/
def On (day : Instant) (r : OnboardingRequest) : Prop := utcDay r.now = utcDay day

/-- The request is of the UTC day of `day`, and of this caller. -/
def From (day : Instant) (source : String) (r : OnboardingRequest) : Prop :=
  r.On day ∧ caller r.source = caller source

instance (day : Instant) : DecidablePred (On day) := fun _ => inferInstanceAs (Decidable (_ = _))

instance (day : Instant) (source : String) : DecidablePred (From day source) :=
  fun _ => inferInstanceAs (Decidable (_ ∧ _))

variable {env : Env} {r : OnboardingRequest} {day : Instant} {source : String}

theorem On.dayGlobalKey (h : r.On day) : r.dayGlobalKey env = accountDayKey env day := by
  rw [OnboardingRequest.dayGlobalKey, accountDayKey, accountDayKey, h]

theorem From.sourceKey (h : r.From day source) :
    r.sourceKey env = accountSourceDayKey env day source := by
  rw [OnboardingRequest.sourceKey, accountSourceDayKey, accountSourceDayKey, h.1, h.2]

theorem From.repeatKey (h : r.From day source) :
    r.repeatKey env = accountRepeatDayKey env day r.pubkey source := by
  rw [OnboardingRequest.repeatKey, accountRepeatDayKey, accountRepeatDayKey, h.1, h.2]

end OnboardingRequest

inductive Onboarding
  | waiting
  | refused
  | served (isRepeat : Bool) (counter : Counter)
  | released
  deriving DecidableEq

/-- A request: it is checked, and if served it may be released, once, when no account was handed out
for it. The release of a repeat does nothing. -/
def onboardingRequest (env : Env) (valid : String → Bool) (budget : OnboardingBudget)
    (r : OnboardingRequest) : Task Isolate Onboarding Onboarding :=
  .hold .waiting do
    let (verdict, counter) ← checkOnboardingBudget env valid budget r
    if verdict.ok then
      .hold (.served verdict.isRepeat counter) do
        verdict.release.getD (pure ())
        return if verdict.isRepeat then .served true counter else .released
    else return .refused

/-- Any number of requests, each in its process, over one store, empty at first. -/
def onboardings {ι ν : Type} [DecidableEq ι] [DecidableEq ν] (env : Env) (valid : String → Bool)
    (budget : OnboardingBudget) (home : ι → ν) (req : ι → OnboardingRequest) :
    Machine (Sys ι ν Cmd KvReply Isolate Onboarding Onboarding (Store ι)) (ι × Fault) Unit :=
  system (backend ι) home
    ⟨Store.empty, fun _ => .fresh "", fun i => onboardingRequest env valid budget (req i)⟩

end Lumenia.Sponsor

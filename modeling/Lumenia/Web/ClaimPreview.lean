import Lumenia.Stellar.Double
import Lumenia.Web.Claim
import Lumenia.Web.ClaimLink
import Lumenia.Web.Dollars

/-!
# What a chat app draws of a claim link

`claim-metadata.ts`: the metadata of the claim page, and what the image route may draw. A name is drawn only next to
an amount that an escrow still holds for the link.
-/

namespace Lumenia.Web.ClaimLink

open Claim (NetworkConfig PoolStatus dropContracts poolStatusOf)
open Dollars (stroopsToUsdc)
open Stellar (Number digitChar parseDouble)
open UriComponent UrlEncoded

/-! ## Dollars -/

/-- Some digits in groups of three. -/
def grouped : List Char → List Char
  | [] => []
  | c :: cs => c :: (if cs ≠ [] ∧ cs.length % 3 = 0 then ',' :: grouped cs else grouped cs)

/-- `toLocaleString("en-US")` with two places: what is nearest to the number, and of two the one further from zero. -/
def toLocaleString : Number → List Char
  | .nan => "NaN".toList
  | .infinite negative => (if negative then ['-'] else []) ++ ['∞']
  | .finite q =>
    let cents := ⌊|q| * 100 + 1 / 2⌋.toNat
    (if q < 0 then ['-'] else []) ++ grouped ((numeral 10 (cents / 100)).map digitChar) ++
      '.' :: (fixedDigits 10 2 cents).map digitChar

def formatUsd (amount : String) : List Char := '$' :: toLocaleString (parseDouble amount)

/-! ## The ledger -/

structure DropState where
  amount : String
  claimed : Bool

structure PoolState where
  perShare : String
  status : PoolStatus

/-- What a promise has come to when the timeout is over. -/
inductive Settlement (α : Type)
  | resolved (a : α)
  /-- Also where the reader throws before it returns a promise. -/
  | rejected
  | pending

variable {α ρ ν : Type}

def Settlement.ofExcept : Except String α → Settlement α
  | .ok a => .resolved a
  | .error _ => .rejected

structure LedgerDeps (ν : Type) where
  loadDrop : List Char → ν → Settlement (Option DropState)
  loadPool : List Char → ν → Settlement (Option PoolState)
  /-- Asked for mainnet or not; it throws where the deployment has none. -/
  resolveNetwork : Bool → Option ν

/-- What `readView` comes to at each escrow of a network. -/
abbrev Views := NetworkConfig → String → (view : View) → List Char → Except String (Option (Claim.Record view))

/-- The first record that one of the escrows has. -/
def firstRecord (read : String → Except String (Option ρ)) : List String → Bool → Except String (Option ρ)
  | [], unread => if unread then .error "couldn't read the escrow" else .ok none
  | contract :: rest, unread =>
    match read contract with
    | .error _ => firstRecord read rest true
    | .ok none => firstRecord read rest unread
    | .ok (some record) => .ok (some record)

section

variable (views : Views)

def loadDrop (linkHex : List Char) (net : NetworkConfig) : Except String (Option DropState) := do
  if isLinkHex linkHex then
    let d ← firstRecord (views net · .getDrop linkHex) (dropContracts net) false
    return d.map fun d => { amount := stroopsToUsdc d.amount, claimed := d.claimed }
  else return none

def loadPool (nowSec : ℕ) (linkHex : List Char) (net : NetworkConfig) : Except String (Option PoolState) := do
  if isLinkHex linkHex then
    let p ← firstRecord (views net · .getPool linkHex) (dropContracts net) false
    return p.map fun p => { perShare := stroopsToUsdc p.amountPer, status := poolStatusOf p nowSec }
  else return none

/-- `DEFAULT_DEPS`, where the escrows answer in time. -/
def defaultDeps (nowSec : ℕ) (resolveNetwork : Bool → Option NetworkConfig) : LedgerDeps NetworkConfig where
  loadDrop linkHex net := .ofExcept (loadDrop views linkHex net)
  loadPool linkHex net := .ofExcept (loadPool views nowSec linkHex net)
  resolveNetwork

end

def withTimeout : Settlement (Option α) → Option α
  | .resolved a => a
  | .rejected | .pending => none

def readLiveAmount (linkHex : List Char) (group mainnet : Bool) (deps : LedgerDeps ν) : Option String :=
  if isLinkHex linkHex then
    match deps.resolveNetwork mainnet with
    | none => none
    | some net =>
      let read :=
        if group then
          (withTimeout (deps.loadPool linkHex net)).bind fun p => if p.status = .open then some p.perShare else none
        else
          (withTimeout (deps.loadDrop linkHex net)).bind fun d => if d.claimed then none else some d.amount
      read.filter fun amount => (parseDouble amount).gt (.finite 0)
  else none

/-! ## The preview -/

inductive Metadata
  | privateCard
  /-- The title, and the image. -/
  | rich (title : List Char) (image : List Char)
  deriving DecidableEq

def noName : List Char := "Someone".toList

def richImageUrl (linkHex name : List Char) (slots : Option ℕ) (mainnet : Bool) : List Char :=
  "/c/x/og?".toList ++ ['&'].intercalate (
    ["preview=rich".toList, "l=".toList ++ encodeURIComponent linkHex, "s=".toList ++ encodeURIComponent name] ++
    (match slots with
      | some n => ["g=".toList ++ (toString n).toList]
      | none => []) ++
    (if mainnet then ["n=public".toList] else []))

def v2ClaimMetadata (deps : LedgerDeps ν) (linkHex search : List Char) : Metadata :=
  let q := readClaimQuery search
  if q.rich then
    match readLiveAmount linkHex q.slots.isSome q.mainnet deps with
    | some amount =>
      let name := q.queryName.getD noName
      .rich (name ++ " sent you ".toList ++ formatUsd amount) (richImageUrl linkHex name q.slots q.mainnet)
    | none => .privateCard
  else .privateCard

/-- What the image route may draw. -/
inductive OgDecision
  | static
  | rich (linkHex name : List Char) (slots : Option ℕ) (mainnet : Bool)
  deriving DecidableEq

def ogDecision (search : List Char) : OgDecision :=
  let q := readClaimQuery search
  match get (parse search) "l".toList with
  | some l =>
    if q.rich && isLinkHex l then .rich (l.map Char.toLower) (q.queryName.getD noName) q.slots q.mainnet
    else .static
  | none => .static

/-- What the image route answers. -/
inductive OgCard
  | static
  | rich (name usd : List Char) (group : Bool)
  deriving DecidableEq

def ogCard (search : List Char) (deps : LedgerDeps ν) : OgCard :=
  match ogDecision search with
  | .static => .static
  | .rich linkHex name slots mainnet =>
    match readLiveAmount linkHex slots.isSome mainnet deps with
    | some amount => .rich name (formatUsd amount) slots.isSome
    | none => .static

end Lumenia.Web.ClaimLink

import Lumenia.Sponsor.DayKeys
import Lumenia.Theory.Base64
import Lumenia.Theory.Positional
import Lumenia.Theory.UriComponent

/-!
# Claim links

The claim URL that `v2LinkUrl` of `apps/web/lib/lumendrop.ts` builds, and its readers: `parseClaimFragment` and
`readClaimQuery` of `link-fragment.ts`, `parseLinkFragment` of `claim-password.ts`, and the claim page.

A link is private unless the sender chose otherwise: the name and the lock are behind the `#` then, and the amount
is nowhere. What is read is what was written, whatever the name.
-/

namespace Lumenia.Web.ClaimLink

open Sponsor (isSpace)
open UriComponent UrlEncoded

/-! ## The fragment -/

/-- `trim()` -/
def trimText (cs : List Char) : List Char := (cs.dropWhile isSpace).rdropWhile isSpace

def minPoolSlots : ℕ := 2

def maxPoolSlots : ℕ := 30

def parseSlots : Option (List Char) → Option ℕ
  | none => none
  | some raw =>
    let trimmed := trimText raw
    if 1 ≤ trimmed.length ∧ trimmed.length ≤ 3 ∧ trimmed.all Char.isDigit then
      let n := ofDigits 10 (trimmed.map fun c => c.toNat - '0'.toNat)
      if minPoolSlots ≤ n ∧ n ≤ maxPoolSlots then some n else none
    else none

def nameMax : ℕ := 24

/-- `UNSAFE_NAME_CHARS`: the bidi controls, and the control characters. -/
def isUnsafe (c : Char) : Bool :=
  let n := c.toNat
  n = 0x61C || n = 0x200E || n = 0x200F || 0x202A ≤ n && n ≤ 0x202E || 0x2066 ≤ n && n ≤ 0x2069 || n ≤ 0x1F ||
    0x7F ≤ n && n ≤ 0x9F

def utf16Units (c : Char) : ℕ := if c.toNat < 0x10000 then 1 else 2

/-- `slice(0, n)`, without the half of a character that it may leave at the end. -/
def takeUnits : ℕ → List Char → List Char
  | _, [] => []
  | n, c :: cs => if utf16Units c ≤ n then c :: takeUnits (n - utf16Units c) cs else []

/-- A decoded name as a claim screen prints it. -/
def shownName (name : List Char) : Option (List Char) :=
  let name := takeUnits nameMax (trimText (name.filter (!isUnsafe ·)))
  if name = [] then none else some name

def sanitizeSenderName : Option (List Char) → Option (List Char)
  | none => none
  | some raw => (decodeURIComponent raw).bind shownName

structure ClaimFragment where
  key : List Char
  from' : Option (List Char)
  slots : Option ℕ
  passwordLocked : Bool
  deriving DecidableEq

def dropHash (fragment : List Char) : List Char := if fragment.head? = some '#' then fragment.tail else fragment

/-- A pair has a name before its first `=`. -/
def isPair (pair : List Char) : Bool := pair.contains '=' && pair.head? ≠ some '='

def parseClaimFragment (fragment : List Char) : ClaimFragment :=
  let parts := (dropHash fragment).splitOn '&'
  let params := (parts.tail.filter isPair).map (splitFirst '=')
  { key := parts.head?.getD []
    from' := sanitizeSenderName (get params "s".toList)
    slots := parseSlots (get params "g".toList)
    passwordLocked := get params "p".toList = some "1".toList }

/-- `FRAGMENT_KEY` -/
def isFragmentKey (key : List Char) : Bool :=
  key ≠ [] && key.all fun c => c.isAlphanum || c = '.' || c = '_' || c = '-'

/-- It throws for a key that could not be read back. -/
def claimFragment (key from' : List Char) (slots : Option ℕ) (passwordLocked : Bool) : Option (List Char) :=
  if isFragmentKey key then
    let name := trimText from'
    some (key ++ (if name ≠ [] then "&s=".toList ++ encodeURIComponent name else []) ++
      (match slots with
        | some n => "&g=".toList ++ (toString n).toList
        | none => []) ++
      (if passwordLocked then "&p=1".toList else []))
  else none

/-! ## The query -/

structure ClaimQuery where
  mainnet : Bool
  slots : Option ℕ
  seeded : Bool
  rich : Bool
  legacy : Bool
  queryName : Option (List Char)
  queryLocked : Bool
  deriving DecidableEq

def nameFromDecoded (v : Option (List Char)) : Option (List Char) := sanitizeSenderName (v.map encodeURIComponent)

def queryReader (search : List Char) (name : String) : Option (List Char) :=
  get (parse (search.takeWhile (· ≠ '#'))) name.toList

/-- Whatever the query is read from. -/
def readQuery (get : String → Option (List Char)) : ClaimQuery :=
  let rich : Bool := get "preview" = some "rich".toList
  let legacy := (get "a").isSome
  let believed := rich || legacy
  { mainnet := get "n" = some "public".toList
    slots := parseSlots (get "g")
    seeded := get "seeded" = some "1".toList
    rich
    legacy
    queryName := if believed then nameFromDecoded (get "s") else none
    queryLocked := believed && get "p" = some "1".toList }

def readClaimQuery (search : List Char) : ClaimQuery := readQuery (queryReader search)

/-! ## The link -/

structure V2LinkParts where
  webOrigin : List Char
  linkHex : List Char
  amount : List Char
  from' : List Char
  /-- The key material. -/
  fragment : List Char
  slots : Option ℕ
  passwordLocked : Bool
  mainnet : Bool
  seeded : Bool
  src : Option (List Char)
  /-- `preview` is `"rich"`. -/
  rich : Bool

/-- `LINK_HEX` -/
def isLinkHex (l : List Char) : Bool :=
  l.length = 64 && l.all fun c => c.isDigit || 'a' ≤ c && c ≤ 'f' || 'A' ≤ c && c ≤ 'F'

/-- `LINK_SRC` -/
def isLinkSrc (src : List Char) : Bool := 1 ≤ src.length && src.length ≤ 8 && src.all Char.isLower

namespace V2LinkParts

variable (p : V2LinkParts)

def origin : List Char := if p.webOrigin.getLast? = some '/' then p.webOrigin.dropLast else p.webOrigin

def path : List Char := p.origin ++ "/v2/c/".toList ++ p.linkHex

def richQuery : List Char :=
  "a=".toList ++ encodeURIComponent p.amount ++
    (if trimText p.from' ≠ [] then "&s=".toList ++ encodeURIComponent p.from' else []) ++
    (match p.slots with
      | some n => "&g=".toList ++ (toString n).toList
      | none => []) ++
    (if p.passwordLocked then "&p=1".toList else []) ++ (if p.mainnet then "&n=public".toList else []) ++
    (if p.seeded then "&seeded=1".toList else []) ++ "&preview=rich".toList ++
    (match p.src with
      | some src => "&src=".toList ++ src
      | none => [])

def privateQuery : List Char :=
  ['&'].intercalate (
    (match p.slots with
      | some n => ["g=".toList ++ (toString n).toList]
      | none => []) ++
    (if p.mainnet then ["n=public".toList] else []) ++ (if p.seeded then ["seeded=1".toList] else []) ++
    (match p.src with
      | some src => ["src=".toList ++ src]
      | none => []))

end V2LinkParts

/-- It throws for a bad `src` and for a bad key. -/
def v2LinkUrl (p : V2LinkParts) : Option (List Char) :=
  if p.src.all isLinkSrc then
    if p.rich then
      (claimFragment p.fragment [] p.slots false).map fun fragment =>
        p.path ++ '?' :: p.richQuery ++ '#' :: fragment
    else
      (claimFragment p.fragment p.from' p.slots p.passwordLocked).map fun fragment =>
        p.path ++ (if p.privateQuery ≠ [] then '?' :: p.privateQuery else []) ++ '#' :: fragment
  else none

/-! ## The key material -/

def b64urlEncode (bytes : List UInt8) : List Char := Base64.encodeUrl (bytes.map UInt8.toNat)

def b64urlDecode (s : List Char) : Option (List UInt8) :=
  let bytes := (Base64.decode (s.map Base64.ofUrl)).map UInt8.ofNat
  if bytes.length = 32 then some bytes else none

def fragmentPrefix : List Char := "p1.".toList

def passwordFragment (seed : List UInt8) : List Char := fragmentPrefix ++ b64urlEncode seed

inductive LinkFragment
  | key (secret : List Char)
  | password (seed : List UInt8)
  deriving DecidableEq

def parseLinkFragment (fragment : List Char) : Option LinkFragment :=
  let frag := trimText (dropHash fragment)
  if frag = [] then none
  else if fragmentPrefix.isPrefixOf frag then (b64urlDecode (frag.drop fragmentPrefix.length)).map .password
  else some (.key frag)

/-! ## The claim page -/

/-- What the page of a claim link has read when it is open. -/
structure OpenedLink where
  path : List Char
  slots : Option ℕ
  /-- Nobody's name is shown as "Someone". -/
  sender : Option (List Char)
  lockMarked : Bool
  mainnet : Bool
  seeded : Bool
  key : Option LinkFragment
  deriving DecidableEq

/-- The address up to the `#`. -/
def address (url : List Char) : List Char := (splitFirst '#' url).1

/-- A query behind its `?`, if there is one. -/
def searchOf (query : List Char) : List Char := if query ≠ [] then '?' :: query else []

/-- `location.search` -/
def search (url : List Char) : List Char := searchOf (splitFirst '?' (address url)).2

def fragmentOf (url : List Char) : List Char := (splitFirst '#' url).2

/-- The first effect of `V2ClaimButton`. -/
def openLink (url : List Char) : OpenedLink :=
  let carried := parseClaimFragment (fragmentOf url)
  let query := readClaimQuery (search url)
  { path := (splitFirst '?' (address url)).1
    slots := carried.slots.or query.slots
    sender := carried.from'.or query.queryName
    lockMarked := carried.passwordLocked || query.queryLocked
    mainnet := query.mainnet
    seeded := query.seeded
    key := parseLinkFragment carried.key }

end Lumenia.Web.ClaimLink

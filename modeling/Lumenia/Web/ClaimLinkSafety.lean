import Lumenia.Web.ClaimLinkReading
import Lumenia.Web.ClaimPreview

/-!
# What a claim link opens, and what it gives away

A link that is built opens, with the name, the lock, the count and the key it was built from. A private one shows a
server the id and the public marks only, and a chat app the one card.
-/

namespace Lumenia.Web.ClaimLink

open Claim (NetworkConfig)
open Sponsor (isSpace)
open UriComponent UrlEncoded

variable {p q : V2LinkParts} {key name cs : List Char} {slots : Option ℕ} {locked : Bool} {c : Char}
  {url : List Char}

/-! ## A link is opened -/

/-- The bounds of the count, where there is one. -/
def SlotsFit (slots : Option ℕ) : Prop := ∀ n ∈ slots, minPoolSlots ≤ n ∧ n ≤ maxPoolSlots

theorem v2LinkUrl_rich (hrich : p.rich = true) (hsrc : p.src.all isLinkSrc = true)
    (hkey : isFragmentKey p.fragment = true) :
    v2LinkUrl p = some (withQuery p.path (['&'].intercalate ((richFields p).map writeField)) ++
      '#' :: ['&'].intercalate (p.fragment :: (carriedFields [] p.slots false).map writeField)) := by
  have hne : p.richQuery ≠ [] := nofun
  rw [v2LinkUrl, if_pos hsrc, if_pos hrich, claimFragment_eq hkey, Option.map_some, ← richQuery_eq hsrc, withQuery,
    searchOf, if_pos hne, List.append_assoc]

theorem v2LinkUrl_private (hrich : p.rich = false) (hsrc : p.src.all isLinkSrc = true)
    (hkey : isFragmentKey p.fragment = true) :
    v2LinkUrl p = some (withQuery p.path (['&'].intercalate ((privateFields p).map writeField)) ++
      '#' :: ['&'].intercalate
        (p.fragment :: (carriedFields p.from' p.slots p.passwordLocked).map writeField)) := by
  rw [v2LinkUrl, if_pos hsrc, if_neg (by simp [hrich]), claimFragment_eq hkey, Option.map_some,
    ← privateQuery_eq hsrc, withQuery, searchOf]

/-- What is built opens as it was meant, whatever the name, and in both shapes. -/
theorem openLink_built (hplain : p.PlainPath) (hslots : SlotsFit p.slots) (hsrc : p.src.all isLinkSrc = true)
    (hkey : isFragmentKey p.fragment = true) : ∃ url, v2LinkUrl p = some url ∧
      openLink url = ⟨p.path, p.slots, shownName p.from', p.passwordLocked, p.mainnet, p.seeded,
        parseLinkFragment p.fragment⟩ := by
  have hpath (c : Char) (h : c = '#' ∨ c = '?') : c ∉ p.path := notMem_path hplain h
  cases hrich : p.rich with
  | true =>
    obtain ⟨-, hsearch, hfragment, hpart⟩ := openLink_parts hpath (notMem_fields names_richFields (.inl rfl)) rfl
    refine ⟨_, v2LinkUrl_rich hrich hsrc hkey, ?_⟩
    rw [openLink, hsearch, hfragment, hpart, parseClaimFragment_carried hkey hslots, readClaimQuery_rich hslots,
      Option.or_self, shownName_blank rfl, Option.none_or, Bool.false_or]
  | false =>
    obtain ⟨-, hsearch, hfragment, hpart⟩ := openLink_parts hpath (notMem_fields names_privateFields (.inl rfl)) rfl
    refine ⟨_, v2LinkUrl_private hrich hsrc hkey, ?_⟩
    rw [openLink, hsearch, hfragment, hpart, parseClaimFragment_carried hkey hslots, readClaimQuery_private hslots,
      Option.or_self, Option.or_none, Bool.or_false]

/-! ## The key -/

/-- The fragment that carries a key. -/
def LinkFragment.written : LinkFragment → List Char
  | .key secret => secret
  | .password seed => passwordFragment seed

/-- A secret of key characters that has not the mark of a lock, or a whole seed. -/
def LinkFragment.Usable : LinkFragment → Prop
  | .key secret => isFragmentKey secret = true ∧ ¬ fragmentPrefix.isPrefixOf secret
  | .password seed => seed.length = 32

theorem isSpace_of_isUnreserved (h : isUnreserved c = true) : isSpace c = false := by
  have hall : ∀ n < 0x80, isUnreserved (.ofNat n) = true → isSpace (.ofNat n) = false := by decide
  have hchar := hall c.toNat (unreserved_ascii h)
  rw [Char.ofNat_toNat] at hchar
  exact hchar h

theorem trimText_of_isUnreserved (h : ∀ c ∈ cs, isUnreserved c = true) : trimText cs = cs := by
  have hspace : ∀ c ∈ cs, ¬ isSpace c := fun c hc => by simp [isSpace_of_isUnreserved (h c hc)]
  have hfirst : cs.dropWhile isSpace = cs := by
    cases cs with
    | nil => rfl
    | cons c cs => exact List.dropWhile_cons_of_neg (hspace c List.mem_cons_self)
  rw [trimText, hfirst, List.rdropWhile_eq_self_iff]
  exact fun hne => hspace _ (List.getLast_mem hne)

theorem b64urlDecode_encode {seed : List UInt8} (hseed : seed.length = 32) :
    b64urlDecode (b64urlEncode seed) = some seed := by
  have hbytes : ∀ b ∈ seed.map UInt8.toNat, b < 256 := by
    rw [List.forall_mem_map]
    exact fun b _ => b.toNat_lt
  have hround : (seed.map UInt8.toNat).map UInt8.ofNat = seed := by
    rw [List.map_map]
    exact (List.map_congr_left fun b _ => UInt8.ofNat_toNat).trans (List.map_id _)
  rw [b64urlDecode, b64urlEncode, Base64.decode_encodeUrl hbytes, hround, if_pos hseed]

theorem isFragmentKey_passwordFragment {seed : List UInt8} : isFragmentKey (passwordFragment seed) = true := by
  have hbytes : ∀ b ∈ seed.map UInt8.toNat, b < 256 := by
    rw [List.forall_mem_map]
    exact fun b _ => b.toNat_lt
  rw [isFragmentKey, Bool.and_eq_true, List.all_eq_true]
  refine ⟨rfl, fun c hc => ?_⟩
  rcases List.mem_append.mp hc with hc | hc
  · have hall : fragmentPrefix.all (fun c => c.isAlphanum || c = '.' || c = '_' || c = '-') = true := by decide
    exact List.all_eq_true.mp hall c hc
  · have hletter := Base64.mem_encodeUrl hbytes hc
    simp only [Base64.isUrlLetter, Bool.or_eq_true, decide_eq_true_eq] at hletter ⊢
    tauto

variable {material : LinkFragment}

theorem isFragmentKey_written (h : material.Usable) : isFragmentKey material.written = true := by
  cases material with
  | key secret => exact h.1
  | password seed => exact isFragmentKey_passwordFragment

/-- A key is read back from the fragment that carries it. -/
theorem parse_written (h : material.Usable) : parseLinkFragment material.written = some material := by
  have hkey := isFragmentKey_written h
  have htrim : trimText (dropHash material.written) = material.written := by
    rw [dropHash_of_notMem (notMem_key hkey (by decide))]
    exact trimText_of_isUnreserved fun c hc => isUnreserved_of_mem_key hkey hc
  simp only [parseLinkFragment, htrim]
  rw [if_neg (isFragmentKey_spec hkey).1]
  cases material with
  | key secret => exact if_neg h.2
  | password seed =>
    rw [LinkFragment.written, passwordFragment, if_pos (List.isPrefixOf_iff_prefix.mpr (List.prefix_append _ _)),
      List.drop_left, b64urlDecode_encode h]
    rfl

/-- Every link opens as it was built, the key in its fragment and the name, the lock, the count and the marks as they
were given, whatever the name holds and in both shapes. -/
theorem link_opens_as_built (hplain : p.PlainPath) (hslots : SlotsFit p.slots) (hsrc : p.src.all isLinkSrc = true)
    (hmaterial : p.fragment = material.written) (husable : material.Usable) : ∃ url, v2LinkUrl p = some url ∧
      openLink url = ⟨p.path, p.slots, shownName p.from', p.passwordLocked, p.mainnet, p.seeded, some material⟩ := by
  have hkey : isFragmentKey p.fragment = true := hmaterial ▸ isFragmentKey_written husable
  obtain ⟨url, hurl, hopen⟩ := openLink_built hplain hslots hsrc hkey
  refine ⟨url, hurl, ?_⟩
  rw [hopen, hmaterial, parse_written husable]

/-- A link is built of these parts. -/
theorem built_eq (hplain : p.PlainPath) (hslots : SlotsFit p.slots) (hsrc : p.src.all isLinkSrc = true)
    (hkey : isFragmentKey p.fragment = true) : v2LinkUrl p = some ((v2LinkUrl p).getD []) := by
  obtain ⟨url, hurl, -⟩ := openLink_built hplain hslots hsrc hkey
  rw [hurl, Option.getD_some]

/-- A shared link with a lock, and a name that holds every sign of a URL. -/
def demoParts : V2LinkParts where
  webOrigin := "https://example.org/".toList
  linkHex := List.replicate 64 'a'
  amount := "5.00".toList
  from' := " Ayşe & co = 100% #1? ".toList
  fragment := (LinkFragment.password (List.replicate 32 250)).written
  slots := some 6
  passwordLocked := true
  mainnet := true
  seeded := false
  src := some "bot".toList
  rich := false

theorem demoParts_plain : demoParts.PlainPath := ⟨by decide, by decide, by decide⟩

theorem demoParts_slots : SlotsFit demoParts.slots := by
  rintro n ⟨⟩
  decide

theorem link_opens_as_built_demo : ∃ url, v2LinkUrl demoParts = some url ∧ openLink url =
    ⟨demoParts.path, some 6, some "Ayşe & co = 100% #1?".toList, true, true, false,
      some (.password (List.replicate 32 250))⟩ := by
  have hname : shownName demoParts.from' = some "Ayşe & co = 100% #1?".toList := by decide +kernel
  rw [← hname]
  exact link_opens_as_built (p := demoParts) demoParts_plain demoParts_slots (by decide) rfl rfl

def demoUrl : List Char := (v2LinkUrl demoParts).getD []

theorem demoParts_key : isFragmentKey demoParts.fragment = true := isFragmentKey_passwordFragment

theorem demoUrl_eq : v2LinkUrl demoParts = some demoUrl :=
  built_eq demoParts_plain demoParts_slots (by decide) demoParts_key

/-! ## What a private link gives away -/

/-- The same id and the same public marks, with another amount, name, key and lock. -/
def V2LinkParts.SamePublic (p q : V2LinkParts) : Prop :=
  q.webOrigin = p.webOrigin ∧ q.linkHex = p.linkHex ∧ q.slots = p.slots ∧ q.mainnet = p.mainnet ∧
    q.seeded = p.seeded ∧ q.src = p.src

theorem V2LinkParts.SamePublic.parts (h : p.SamePublic q) : q.path = p.path ∧ privateFields q = privateFields p := by
  obtain ⟨horigin, hid, hslots, hmainnet, hseeded, hsrc⟩ := h
  simp only [V2LinkParts.path, V2LinkParts.origin, privateFields, horigin, hid, hslots, hmainnet, hseeded, hsrc,
    and_self]

/-- The parts a private link is read in. -/
theorem parts_private (hplain : p.PlainPath) (hrich : p.rich = false) (hsrc : p.src.all isLinkSrc = true)
    (hkey : isFragmentKey p.fragment = true) (hurl : v2LinkUrl p = some url) :
    address url = withQuery p.path (['&'].intercalate ((privateFields p).map writeField)) ∧
      search url = searchOf (['&'].intercalate ((privateFields p).map writeField)) ∧
      fragmentOf url = ['&'].intercalate
        (p.fragment :: (carriedFields p.from' p.slots p.passwordLocked).map writeField) := by
  rw [v2LinkUrl_private hrich hsrc hkey, Option.some_inj] at hurl
  obtain ⟨haddress, hsearch, hfragment, -⟩ := openLink_parts (fun c h => notMem_path hplain h)
    (notMem_fields names_privateFields (.inl rfl)) hurl.symm
  exact ⟨haddress, hsearch, hfragment⟩

theorem isFragmentKey_of_built (hurl : v2LinkUrl p = some url) :
    p.src.all isLinkSrc = true ∧ isFragmentKey p.fragment = true := by
  by_cases hsrc : p.src.all isLinkSrc = true
  · by_cases hkey : isFragmentKey p.fragment = true
    · exact ⟨hsrc, hkey⟩
    · simp [v2LinkUrl, claimFragment, hkey] at hurl
  · simp [v2LinkUrl, hsrc] at hurl

/-- Up to the `#` no two private links differ that have the same id and the same public marks, whatever the amounts,
the names, the keys and the locks; and a chat app draws the one card for them, whatever the ledger says. -/
theorem private_links_alike {url' : List Char} {ν : Type} {deps : LedgerDeps ν} (hplain : p.PlainPath)
    (hp : p.rich = false) (hq : q.rich = false) (hsame : p.SamePublic q) (hurl : v2LinkUrl p = some url)
    (hurl' : v2LinkUrl q = some url') :
    address url = address url' ∧ v2ClaimMetadata deps p.linkHex (search url) = .privateCard := by
  obtain ⟨hsrc, hkey⟩ := isFragmentKey_of_built hurl
  obtain ⟨hsrc', hkey'⟩ := isFragmentKey_of_built hurl'
  obtain ⟨haddress, hsearch, -⟩ := parts_private hplain hp hsrc hkey hurl
  have hplain' : q.PlainPath := by
    obtain ⟨horigin, hid, -⟩ := hsame
    rw [V2LinkParts.PlainPath, horigin, hid]
    exact hplain
  obtain ⟨haddress', -, -⟩ := parts_private hplain' hq hsrc' hkey' hurl'
  refine ⟨?_, ?_⟩
  · rw [haddress, haddress', hsame.parts.1, hsame.parts.2]
  · have hrich : (readClaimQuery (search url)).rich = false := hsearch ▸ rich_readClaimQuery_private
    simp only [v2ClaimMetadata, hrich, Bool.false_eq_true, if_false]

/-- Nobody's link, without a lock. -/
def plainParts : V2LinkParts :=
  { demoParts with amount := "7".toList, from' := [], fragment := "SA2".toList, passwordLocked := false }

theorem plainParts_plain : plainParts.PlainPath := ⟨by decide, by decide, by decide⟩

/-- One escrow, which has a pot of six shares of five dollars for every link. -/
def demoViews : Views
  | _, _, .getDrop, _ => .ok none
  | _, _, .getPool, _ =>
    .ok (some
      { sender := "GSENDER", amountPer := 50000000, remaining := 300000000, slots := 6, claimed := 0, expiry := 1000 })

def demoDeps : LedgerDeps NetworkConfig :=
  defaultDeps demoViews 0 fun _ => some { contract := "CDROP", legacyContracts := [] }

theorem private_links_alike_demo : address demoUrl = address ((v2LinkUrl plainParts).getD []) ∧
    v2ClaimMetadata demoDeps demoParts.linkHex (search demoUrl) = .privateCard :=
  private_links_alike (p := demoParts) (q := plainParts) demoParts_plain rfl rfl
    ⟨rfl, rfl, rfl, rfl, rfl, rfl⟩ demoUrl_eq (built_eq plainParts_plain demoParts_slots (by decide) (by decide))

/-- A query is believed only in the shapes that put the name and the lock in it. -/
theorem readClaimQuery_unbelieved {search : List Char} (hlegacy : (readClaimQuery search).legacy = false)
    (hrich : (readClaimQuery search).rich = false) :
    (readClaimQuery search).queryName = none ∧ (readClaimQuery search).queryLocked = false := by
  simp only [readClaimQuery, readQuery] at hlegacy hrich ⊢
  rw [hlegacy, hrich]
  exact ⟨rfl, rfl⟩

/-- Whoever passes a private link on may write anything before the `#`. The key stays, a name, a lock and a count that
the sender gave stay, and a name that he did not give, or a lock, takes a query of the other shapes. -/
theorem forwarded_private {tampered : List Char} (hplain : p.PlainPath) (hslots : SlotsFit p.slots)
    (hrich : p.rich = false) (hurl : v2LinkUrl p = some url) (hfragment : fragmentOf tampered = fragmentOf url) :
    (openLink tampered).key = (openLink url).key ∧
      (p.slots.isSome → (openLink tampered).slots = p.slots) ∧
      ((shownName p.from').isSome → (openLink tampered).sender = shownName p.from') ∧
      (p.passwordLocked = true → (openLink tampered).lockMarked = true) ∧
      ((readClaimQuery (search tampered)).legacy = false → (readClaimQuery (search tampered)).rich = false →
        (openLink tampered).sender = shownName p.from' ∧ (openLink tampered).lockMarked = p.passwordLocked) := by
  obtain ⟨hsrc, hkey⟩ := isFragmentKey_of_built hurl
  obtain ⟨-, -, hbuilt⟩ := parts_private hplain hrich hsrc hkey hurl
  have hcarried (u : List Char) (hu : fragmentOf u = fragmentOf url) : parseClaimFragment (fragmentOf u) =
      ⟨p.fragment, shownName p.from', p.slots, p.passwordLocked⟩ := by
    rw [hu, hbuilt, parseClaimFragment_carried hkey hslots]
  simp only [openLink, hcarried tampered hfragment, hcarried url rfl, true_and]
  refine ⟨fun hcount => Option.or_of_isSome hcount, fun hname => Option.or_of_isSome hname, fun hlocked => ?_,
    fun hlegacy hrich => ?_⟩
  · rw [hlocked, Bool.true_or]
  · obtain ⟨hname, hlock⟩ := readClaimQuery_unbelieved hlegacy hrich
    rw [hname, hlock, Option.or_none, Bool.or_false]
    exact ⟨rfl, rfl⟩

def forgedUrl : List Char := "/x?s=Mallory&p=1&g=30#".toList ++ fragmentOf demoUrl

theorem forwarded_private_demo : (openLink forgedUrl).key = (openLink demoUrl).key ∧
    (demoParts.slots.isSome → (openLink forgedUrl).slots = demoParts.slots) ∧
    ((shownName demoParts.from').isSome → (openLink forgedUrl).sender = shownName demoParts.from') ∧
    (demoParts.passwordLocked = true → (openLink forgedUrl).lockMarked = true) ∧
    ((readClaimQuery (search forgedUrl)).legacy = false → (readClaimQuery (search forgedUrl)).rich = false →
      (openLink forgedUrl).sender = shownName demoParts.from' ∧
        (openLink forgedUrl).lockMarked = demoParts.passwordLocked) :=
  forwarded_private (p := demoParts) demoParts_plain demoParts_slots rfl demoUrl_eq (by decide +kernel)

end Lumenia.Web.ClaimLink

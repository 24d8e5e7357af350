import Lumenia.Theory.Utf8
import Mathlib.Data.List.Nodup

/-!
# Links that were sent

`lib/sent-links.ts`: the encrypted store of the links, and the migration that moves the links of old records
into it. What is stored under an id stands for what its key opens. While a link is copied another screen may
write the records, of the same network.
-/

namespace Lumenia.Web.SentLinks

variable {F : Type}

/-- A record of `lumenia.sent`; a link that is no text is left with the other fields. -/
structure SentRecord (F : Type) where
  link : Option String
  hasLink : Option Bool
  rest : F

/-- The object of the records, in the order of its entries. -/
structure Records (F : Type) where
  ids : List String
  record : String → Option (SentRecord F)
  nodup : ids.Nodup
  complete : ∀ id, id ∈ ids ↔ (record id).isSome = true

def Records.modify (all : Records F) (id : String) (f : SentRecord F → SentRecord F) : Records F where
  ids := all.ids
  record := Function.update all.record id ((all.record id).map f)
  nodup := all.nodup
  complete id' := by
    rw [all.complete id', Function.update_apply]
    split
    · rename_i heq
      rw [heq, Option.isSome_map]
    · rfl

@[simp] theorem Records.modify_self {all : Records F} {id : String} {f : SentRecord F → SentRecord F} :
    (all.modify id f).record id = (all.record id).map f :=
  Function.update_self ..

@[simp] theorem Records.modify_of_ne {all : Records F} {id id' : String} {f : SentRecord F → SentRecord F}
    (h : id ≠ id') : (all.modify id' f).record id = all.record id :=
  Function.update_of_ne h ..

structure Browser (F : Type) where
  /-- `lumenia.sent`: nothing if it is no JSON. -/
  sent : Option (Records F)
  /-- The encrypted store. -/
  links : String → Option (List ℕ)

def byteOrderMark : Char := .ofNat 0xFEFF

/-- `new TextDecoder().decode`, which takes a byte order mark off. -/
def textDecode (bs : List ℕ) : String :=
  .ofList (utf8Decode (if [0xEF, 0xBB, 0xBF] <+: bs then bs.drop 3 else bs))

/-- A failure is let pass. -/
def rememberLink (took : Bool) (id link : String) (b : Browser F) : Browser F :=
  if took then { b with links := Function.update b.links id (some (utf8 link.toList)) } else b

def recallLink (b : Browser F) (id : String) : Option String := (b.links id).map textDecode

/-- What comes of one copy, and what other screens write to the records meanwhile. -/
structure Await (F : Type) where
  took : Bool
  writes : List (Records F)

/-- The records with the links that they have as text, the marker of no link among them. -/
def stale (all : Records F) : List (String × String) :=
  all.ids.filterMap fun id => ((all.record id).bind SentRecord.link).map (id, ·)

def migrateEach (awaits : String → Await F) :
    List (String × String) → Records F → Browser F → Records F × Browser F
  | [], all, b => (all, b)
  | (id, link) :: rest, all, b =>
    if link = "" then
      migrateEach awaits rest (all.modify id fun r => { r with hasLink := some false, link := none }) b
    else
      let b := rememberLink (awaits id).took id link b
      let b := (awaits id).writes.foldl (fun b all => { b with sent := some all }) b
      migrateEach awaits rest (all.modify id fun r => { r with hasLink := some true, link := none }) b

/-- `finalWrite`: whether the records can be written in the end. -/
def migrateLegacySentLinks (awaits : String → Await F) (finalWrite : Bool) (b : Browser F) : Browser F :=
  match b.sent with
  | none => b
  | some all =>
    if stale all = [] then b
    else
      let (all, b) := migrateEach awaits (stale all) all b
      if finalWrite then { b with sent := some all } else b

/-! ## What can be read -/

def Browser.record (b : Browser F) (id : String) : Option (SentRecord F) := b.sent.bind (·.record id)

/-- The link that is in the record. -/
def plainLink (b : Browser F) (id : String) : Option String :=
  ((b.record id).bind SentRecord.link).filter (· ≠ "")

def Readable (b : Browser F) (id link : String) : Prop :=
  plainLink b id = some link ∨ recallLink b id = some link

section

variable (awaits : String → Await F) (finalWrite : Bool) (b : Browser F)

/-- What the other screens write while a link is copied. -/
def whileCopied (entry : String × String) : List (Records F) :=
  if entry.2 = "" then [] else (awaits entry.1).writes

/-- What the other screens write until the end. -/
def meanwhile : List (Records F) := (b.sent.elim [] stale).flatMap (whileCopied awaits)

/-- The records as the other screens leave them. -/
def left : Browser F := { b with sent := (meanwhile awaits b).getLast?.or b.sent }

/-- Nothing is lost by a migration. -/
structure Safe : Prop where
  /-- Every link is readable as before. -/
  kept : ∀ id link, Readable b id link → Readable (migrateLegacySentLinks awaits finalWrite b) id link
  /-- A record that has its link in the store has it there. -/
  honest : ∀ id r, (migrateLegacySentLinks awaits finalWrite b).record id = some r → r.hasLink = some true →
    recallLink (migrateLegacySentLinks awaits finalWrite b) id ≠ none
  /-- What was added or changed meanwhile is there. -/
  unlost : ∀ id r, (left awaits b).record id = some r → b.record id ≠ some r →
    (migrateLegacySentLinks awaits finalWrite b).record id = some r
  /-- Another migration changes nothing. -/
  again : ∀ awaits' finalWrite', (∀ id, (awaits' id).writes = []) →
    migrateLegacySentLinks awaits' finalWrite' (migrateLegacySentLinks awaits finalWrite b) =
      migrateLegacySentLinks awaits finalWrite b

/-- A record without the link. -/
def SentRecord.migrated (r : SentRecord F) : SentRecord F :=
  match r.link with
  | none => r
  | some link => { r with hasLink := some (link ≠ ""), link := none }

def withoutMark (link : String) : String :=
  if link.toList.head? = some byteOrderMark then .ofList link.toList.tail else link

/-- The link stays in the record, as the final write fails. -/
def StaysPlain (id link : String) : Prop := finalWrite = false ∧ plainLink (left awaits b) id = some link

structure Careful : Prop where
  /-- A link that is dropped was copied whole, or is in the store. -/
  copied : ∀ id link, plainLink b id = some link → StaysPlain awaits finalWrite b id link ∨
    if (awaits id).took then withoutMark link = link else recallLink b id = some link
  /-- A link that a copy replaces is the same, or stays in the record. -/
  replaced : ∀ id link link', plainLink b id = some link → (awaits id).took = true →
    recallLink b id = some link' → StaysPlain awaits finalWrite b id link' ∨ withoutMark link = link'
  /-- A record that has its link in the store, and is left as it is, has it there. -/
  honest : ∀ id r, r.hasLink = some true →
    (if finalWrite then b.record id = some r ∧ r.link = none else (left awaits b).record id = some r) →
    recallLink b id ≠ none ∨ plainLink b id ≠ none ∧ (awaits id).took = true
  /-- The final write fails, or no other screen writes a record that it would not write itself. -/
  alone : finalWrite = true → ∀ id r, (left awaits b).record id = some r → b.record id ≠ some r →
    (b.record id).map SentRecord.migrated = some r
  /-- The final write takes, or no link is left in a record. -/
  done : finalWrite = false → ∀ id r, (left awaits b).record id = some r → r.link = none

end

/-! ## Texts -/

theorem utf8Char_mark : utf8Char byteOrderMark = [0xEF, 0xBB, 0xBF] := by decide

theorem textDecode_utf8 {link : String} : textDecode (utf8 link.toList) = withoutMark link := by
  rw [textDecode, withoutMark]
  split
  · rename_i hmark
    obtain ⟨bs, hbs⟩ := hmark
    have hcs : link.toList = byteOrderMark :: utf8DecodeFrom none bs := by
      have hback : utf8Decode (utf8 link.toList) = link.toList := utf8Decode_utf8
      rw [← hback, ← hbs, utf8Decode, ← utf8Char_mark]
      exact utf8DecodeFrom_char
    have hrest : utf8 (utf8DecodeFrom none bs) = bs := by
      have hagain := hbs
      rw [hcs, utf8_cons, utf8Char_mark] at hagain
      exact (List.append_cancel_left hagain).symm
    rw [if_pos (by rw [hcs]; rfl), ← hbs, hcs, List.tail_cons]
    exact congrArg String.ofList rfl
  · rename_i hmark
    rw [utf8Decode_utf8, String.ofList_toList, if_neg]
    intro hhead
    obtain ⟨cs, hcs⟩ : ∃ cs, link.toList = byteOrderMark :: cs := by
      rcases h : link.toList with _ | ⟨c, cs⟩
      · rw [h] at hhead
        cases hhead
      · rw [h] at hhead
        exact ⟨cs, by rw [Option.some.inj hhead]⟩
    refine hmark ⟨utf8 cs, ?_⟩
    rw [hcs, utf8_cons, utf8Char_mark]

/-! ## What is left by the copies -/

variable {awaits : String → Await F} {finalWrite : Bool} {b : Browser F} {all : Records F} {id : String}
  {rest : List (String × String)}

theorem writes_foldl {writes : List (Records F)} :
    writes.foldl (fun (b : Browser F) all => { b with sent := some all }) b =
      { b with sent := writes.getLast?.or b.sent } := by
  induction writes generalizing b with
  | nil => rfl
  | cons all writes ih =>
    rw [List.foldl_cons, ih, List.getLast?_cons]
    cases writes.getLast? <;> rfl

theorem migrateEach_sent :
    (migrateEach awaits rest all b).2.sent = (rest.flatMap (whileCopied awaits)).getLast?.or b.sent := by
  induction rest generalizing all b with
  | nil => rfl
  | cons entry rest ih =>
    obtain ⟨id, link⟩ := entry
    rw [migrateEach, List.flatMap_cons, whileCopied]
    split
    · exact ih
    · rw [ih, writes_foldl, List.getLast?_append, Option.or_assoc]
      congr 2
      rw [rememberLink]
      split <;> rfl

theorem lookup_cons_eq {id' link : String} :
    ((id', link) :: rest).lookup id = if id = id' then some link else rest.lookup id := by
  rw [List.lookup_cons]
  split
  · rename_i heq
    rw [if_pos (beq_iff_eq.mp heq)]
  · rename_i hne
    rw [if_neg (beq_eq_false_iff_ne.mp hne)]

theorem lookup_eq_none (h : id ∉ rest.map Prod.fst) : rest.lookup id = none := by
  rw [List.lookup_eq_none_iff]
  rintro ⟨id', link⟩ hmem
  refine bne_iff_ne.mpr ?_
  rintro rfl
  exact h (List.mem_map_of_mem hmem)

/-- Each record that is stale loses its link, once. -/
theorem migrateEach_record (hnodup : (rest.map Prod.fst).Nodup) :
    (migrateEach awaits rest all b).1.record id =
      match rest.lookup id with
      | none => all.record id
      | some link => (all.record id).map fun r => { r with hasLink := some (link ≠ ""), link := none } := by
  induction rest generalizing all b with
  | nil => rfl
  | cons entry rest ih =>
    obtain ⟨id', link⟩ := entry
    obtain ⟨hnotMem, hrest⟩ := List.nodup_cons.mp hnodup
    rw [migrateEach, lookup_cons_eq]
    rcases eq_or_ne id id' with rfl | hne
    · rw [if_pos rfl]
      split
      · rename_i hempty
        rw [ih hrest, lookup_eq_none hnotMem, hempty]
        exact Records.modify_self
      · rename_i hlink
        rw [ih hrest, lookup_eq_none hnotMem]
        dsimp only
        rw [decide_eq_true (show link ≠ "" from hlink)]
        exact Records.modify_self
    · rw [if_neg hne]
      split
      · rw [ih hrest, Records.modify_of_ne hne]
      · rw [ih hrest, Records.modify_of_ne hne]

theorem rememberLink_self {took : Bool} {link : String} :
    (rememberLink took id link b).links id = if took then some (utf8 link.toList) else b.links id := by
  rw [rememberLink]
  split
  · exact Function.update_self ..
  · rfl

theorem rememberLink_of_ne {took : Bool} {id' link : String} (h : id ≠ id') :
    (rememberLink took id' link b).links id = b.links id := by
  rw [rememberLink]
  split
  · exact Function.update_of_ne h ..
  · rfl

/-- The copies that take. -/
theorem migrateEach_links (hnodup : (rest.map Prod.fst).Nodup) :
    (migrateEach awaits rest all b).2.links id =
      match (rest.lookup id).filter (· ≠ "") with
      | none => b.links id
      | some link => if (awaits id).took then some (utf8 link.toList) else b.links id := by
  induction rest generalizing all b with
  | nil => rfl
  | cons entry rest ih =>
    obtain ⟨id', link⟩ := entry
    obtain ⟨hnotMem, hrest⟩ := List.nodup_cons.mp hnodup
    rw [migrateEach, lookup_cons_eq]
    rcases eq_or_ne id id' with rfl | hne
    · rw [if_pos rfl]
      split
      · rename_i hempty
        rw [ih hrest, lookup_eq_none hnotMem, hempty]
        rfl
      · rename_i hlink
        rw [ih hrest, lookup_eq_none hnotMem, writes_foldl, Option.filter_some, if_pos (decide_eq_true hlink)]
        exact rememberLink_self
    · rw [if_neg hne]
      split
      · exact ih hrest
      · rw [ih hrest, writes_foldl]
        dsimp only
        rw [rememberLink_of_ne hne]

section

variable {ids : List String} {f : String → Option String}

theorem sublist_filterMap : ((ids.filterMap fun id => (f id).map (id, ·)).map Prod.fst).Sublist ids := by
  induction ids with
  | nil => exact .slnil
  | cons id ids ih =>
    rw [List.filterMap_cons]
    cases f id with
    | none => exact ih.cons id
    | some link => exact ih.cons_cons id

theorem lookup_filterMap :
    (ids.filterMap fun id => (f id).map (id, ·)).lookup id = if id ∈ ids then f id else none := by
  induction ids with
  | nil => rfl
  | cons id' ids ih =>
    rw [List.filterMap_cons]
    rcases eq_or_ne id id' with rfl | hne
    · rw [if_pos List.mem_cons_self]
      cases h : f id with
      | none =>
        refine ih.trans ?_
        rw [h, ite_self]
      | some link => exact lookup_cons_eq.trans (if_pos rfl)
    · have hmem : id ∈ id' :: ids ↔ id ∈ ids := List.mem_cons.trans (or_iff_right hne)
      rw [if_congr hmem rfl rfl]
      cases f id' with
      | none => exact ih
      | some link => exact lookup_cons_eq.trans ((if_neg hne).trans ih)

end

theorem nodup_stale : ((stale all).map Prod.fst).Nodup := all.nodup.sublist sublist_filterMap

theorem lookup_stale : (stale all).lookup id = (all.record id).bind SentRecord.link := by
  rw [stale, lookup_filterMap]
  split
  · rfl
  · rename_i hnot
    rw [all.complete, Bool.not_eq_true, Option.isSome_eq_false_iff, Option.isNone_iff_eq_none] at hnot
    rw [hnot]
    rfl

/-! ## What is left in the end -/

theorem map_migrated {r : Option (SentRecord F)} :
    r.map SentRecord.migrated =
      match r.bind SentRecord.link with
      | none => r
      | some link => r.map fun r => { r with hasLink := some (link ≠ ""), link := none } := by
  rcases r with _ | ⟨_ | link, hasLink, rest⟩ <;> rfl

/-- Where nothing is stale, nothing is done. -/
theorem migrate_of_settled (h : ∀ id r, b.record id = some r → r.link = none) :
    migrateLegacySentLinks awaits finalWrite b = b := by
  cases hsent : b.sent with
  | none => rw [migrateLegacySentLinks, hsent]
  | some all =>
    rw [migrateLegacySentLinks, hsent]
    refine if_pos (List.eq_nil_iff_forall_not_mem.mpr fun ⟨id, link⟩ hmem => ?_)
    obtain ⟨id', -, hlink⟩ := List.mem_filterMap.mp hmem
    obtain ⟨link', hlink', -⟩ := Option.map_eq_some_iff.mp hlink
    obtain ⟨r, hr, hsome⟩ := Option.bind_eq_some_iff.mp hlink'
    have hnone := h id' r (by rw [Browser.record, hsent]; exact hr)
    rw [hnone] at hsome
    cases hsome

/-- What a migration with something to do leaves. -/
theorem migrate_eq (hsent : b.sent = some all) :
    migrateLegacySentLinks awaits finalWrite b =
      { sent :=
          if finalWrite then some (migrateEach awaits (stale all) all b).1
          else (meanwhile awaits b).getLast?.or b.sent
        links := (migrateEach awaits (stale all) all b).2.links } := by
  have hmeanwhile : meanwhile awaits b = (stale all).flatMap (whileCopied awaits) := by
    rw [meanwhile, hsent]
    rfl
  rw [migrateLegacySentLinks, hsent]
  dsimp only
  split
  · rename_i hnil
    rw [hmeanwhile, hnil, migrateEach, ← hsent]
    cases finalWrite <;> rfl
  · rw [hmeanwhile, ← hsent, ← migrateEach_sent]
    split <;> rfl

theorem record_migrate : (migrateLegacySentLinks awaits finalWrite b).record id =
    if finalWrite then (b.record id).map SentRecord.migrated else (left awaits b).record id := by
  cases hsent : b.sent with
  | none =>
    rw [migrateLegacySentLinks, hsent]
    dsimp only
    rw [Browser.record, Browser.record, left, meanwhile, hsent]
    exact (ite_self _).symm
  | some all =>
    rw [migrate_eq hsent]
    cases finalWrite with
    | false => rfl
    | true =>
      have hrecord : b.record id = all.record id := by rw [Browser.record, hsent]; rfl
      simp only [if_true]
      rw [hrecord, map_migrated, ← lookup_stale]
      exact migrateEach_record nodup_stale

theorem links_migrate : (migrateLegacySentLinks awaits finalWrite b).links id =
    match plainLink b id with
    | none => b.links id
    | some link => if (awaits id).took then some (utf8 link.toList) else b.links id := by
  cases hsent : b.sent with
  | none =>
    rw [migrateLegacySentLinks, plainLink, Browser.record, hsent]
    rfl
  | some all =>
    have hlookup : plainLink b id = ((stale all).lookup id).filter (· ≠ "") := by
      rw [plainLink, lookup_stale, Browser.record, hsent]
      rfl
    rw [migrate_eq hsent, hlookup]
    exact migrateEach_links nodup_stale

/-- The link that was copied, or else what was there. -/
theorem recallLink_migrate : recallLink (migrateLegacySentLinks awaits finalWrite b) id =
    match plainLink b id with
    | none => recallLink b id
    | some link => if (awaits id).took then some (withoutMark link) else recallLink b id := by
  rw [recallLink, links_migrate]
  split
  · rfl
  · split
    · rw [Option.map_some, textDecode_utf8]
    · rfl

theorem plainLink_migrate : plainLink (migrateLegacySentLinks awaits finalWrite b) id =
    if finalWrite then none else plainLink (left awaits b) id := by
  rw [plainLink, record_migrate]
  split
  · rcases b.record id with _ | ⟨_ | link, hasLink, rest⟩ <;> rfl
  · rfl

/-! ## When nothing is lost -/

theorem kept_iff :
    (∀ id link, Readable b id link → Readable (migrateLegacySentLinks awaits finalWrite b) id link) ↔
      (∀ id link, plainLink b id = some link → StaysPlain awaits finalWrite b id link ∨
        if (awaits id).took then withoutMark link = link else recallLink b id = some link) ∧
      ∀ id link link', plainLink b id = some link → (awaits id).took = true →
        recallLink b id = some link' → StaysPlain awaits finalWrite b id link' ∨ withoutMark link = link' := by
  have hplain : ∀ id link, plainLink (migrateLegacySentLinks awaits finalWrite b) id = some link ↔
      StaysPlain awaits finalWrite b id link := by
    intro id link
    rw [plainLink_migrate, StaysPlain]
    cases finalWrite <;> simp
  have hrecall : ∀ id link, plainLink b id = some link → ∀ link',
      recallLink (migrateLegacySentLinks awaits finalWrite b) id = some link' ↔
        if (awaits id).took then withoutMark link = link' else recallLink b id = some link' := by
    intro id link hlink link'
    rw [recallLink_migrate, hlink]
    dsimp only
    split
    · exact Option.some_inj
    · rfl
  constructor
  · intro hkept
    constructor
    · intro id link hlink
      rw [← hplain, ← hrecall id link hlink]
      exact hkept id link (.inl hlink)
    · intro id link link' hlink htook hbefore
      have hafter := (hrecall id link hlink link').symm
      rw [if_pos htook] at hafter
      rw [← hplain, hafter]
      exact hkept id link' (.inr hbefore)
  · rintro ⟨hcopied, hreplaced⟩ id link (hlink | hbefore)
    · rw [Readable, hplain, hrecall id link hlink]
      exact hcopied id link hlink
    · cases hnew : plainLink b id with
      | none =>
        refine .inr ?_
        rw [recallLink_migrate, hnew]
        exact hbefore
      | some new =>
        rw [Readable, hplain, hrecall id new hnew]
        split
        · rename_i htook
          exact hreplaced id new link hnew htook hbefore
        · exact .inr hbefore

theorem settled_iff : (∀ awaits' finalWrite', (∀ id, (awaits' id).writes = []) →
    migrateLegacySentLinks awaits' finalWrite' b = b) ↔ ∀ id r, b.record id = some r → r.link = none := by
  refine ⟨fun hagain id r hr => ?_, fun hsettled _ _ _ => migrate_of_settled hsettled⟩
  have hrecord := congrArg (Browser.record · id) (hagain (fun _ => ⟨false, []⟩) true fun _ => rfl)
  rw [record_migrate, if_pos rfl, hr, Option.map_some] at hrecord
  rw [← Option.some.inj hrecord]
  rcases r with ⟨_ | link, hasLink, rest⟩ <;> rfl

theorem recall_ne_none_iff : recallLink (migrateLegacySentLinks awaits finalWrite b) id ≠ none ↔
    recallLink b id ≠ none ∨ plainLink b id ≠ none ∧ (awaits id).took = true := by
  rw [recallLink_migrate]
  cases plainLink b id with
  | none => simp
  | some link =>
    dsimp only
    split
    · rename_i htook
      exact iff_of_true nofun (.inr ⟨nofun, htook⟩)
    · rename_i hfailed
      exact ⟨.inl, fun h => h.resolve_right fun h => hfailed h.2⟩

theorem migrated_link {r : SentRecord F} : r.migrated.link = none := by
  rcases r with ⟨_ | link, hasLink, rest⟩ <;> rfl

theorem migrated_of_link_eq_none {r : SentRecord F} (h : r.link = none) : r.migrated = r := by
  rw [SentRecord.migrated, h]

/-- A record that is said to have its link in the store was so before, or has lost its own. -/
theorem plainLink_of_migrated {r : SentRecord F} (hr : b.record id = some r) (hlink : r.link ≠ none)
    (h : r.migrated.hasLink = some true) : ∃ link, plainLink b id = some link := by
  obtain ⟨link, hlink⟩ := Option.ne_none_iff_exists'.mp hlink
  rw [SentRecord.migrated, hlink] at h
  refine ⟨link, ?_⟩
  rw [plainLink, hr, Option.bind_some, hlink]
  exact Option.filter_eq_some_iff.mpr ⟨rfl, Option.some.inj h⟩

theorem honest_iff
    (hcopied : ∀ id link, plainLink b id = some link → StaysPlain awaits finalWrite b id link ∨
      if (awaits id).took then withoutMark link = link else recallLink b id = some link) :
    (∀ id r, (migrateLegacySentLinks awaits finalWrite b).record id = some r → r.hasLink = some true →
      recallLink (migrateLegacySentLinks awaits finalWrite b) id ≠ none) ↔
    ∀ id r, r.hasLink = some true →
      (if finalWrite then b.record id = some r ∧ r.link = none else (left awaits b).record id = some r) →
      recallLink b id ≠ none ∨ plainLink b id ≠ none ∧ (awaits id).took = true := by
  simp only [recall_ne_none_iff, record_migrate]
  cases finalWrite with
  | false =>
    simp only [Bool.false_eq_true, if_false]
    exact forall₂_congr fun id r => imp.swap
  | true =>
    simp only [if_true]
    constructor
    · rintro h id r hhas ⟨hr, hlink⟩
      exact h id r (by rw [hr, Option.map_some, migrated_of_link_eq_none hlink]) hhas
    · intro h id r hr hhas
      obtain ⟨before, hbefore, rfl⟩ := Option.map_eq_some_iff.mp hr
      rcases eq_or_ne before.link none with hnone | hlink
      · rw [migrated_of_link_eq_none hnone] at hhas
        exact h id before hhas ⟨hbefore, hnone⟩
      · obtain ⟨link, hplain⟩ := plainLink_of_migrated hbefore hlink hhas
        have hcopy := (hcopied id link hplain).resolve_left fun hstays => nomatch hstays.1
        split at hcopy
        · rename_i htook
          exact .inr ⟨by rw [hplain]; exact nofun, htook⟩
        · exact .inl (by rw [hcopy]; exact nofun)

/-- **What a migration of kept links needs.** Every link stays readable, no record has a link in the store that is
not there, nothing that was written meanwhile is lost and another migration changes nothing, exactly if the migration
is careful. -/
theorem migration_safe_iff (awaits : String → Await F) (finalWrite : Bool) (b : Browser F) :
    Safe awaits finalWrite b ↔ Careful awaits finalWrite b := by
  constructor
  · rintro ⟨hkept, hhonest, hunlost, hagain⟩
    obtain ⟨hcopied, hreplaced⟩ := kept_iff.mp hkept
    refine ⟨hcopied, hreplaced, (honest_iff hcopied).mp hhonest, ?_, ?_⟩
    · rintro rfl id r hleft hchanged
      have hafter := hunlost id r hleft hchanged
      rwa [record_migrate, if_pos rfl] at hafter
    · rintro rfl id r hleft
      refine settled_iff.mp hagain id r ?_
      rwa [record_migrate, if_neg Bool.false_ne_true]
  · rintro ⟨hcopied, hreplaced, hhonest, halone, hdone⟩
    refine ⟨kept_iff.mpr ⟨hcopied, hreplaced⟩, (honest_iff hcopied).mpr hhonest, ?_, settled_iff.mpr ?_⟩
    · intro id r hleft hchanged
      rw [record_migrate]
      cases finalWrite with
      | false => exact hleft
      | true => exact halone rfl id r hleft hchanged
    · intro id r hr
      rw [record_migrate] at hr
      cases finalWrite with
      | false => exact hdone rfl id r hr
      | true =>
        obtain ⟨before, -, rfl⟩ := Option.map_eq_some_iff.mp hr
        exact migrated_link

namespace Demo

/-- One link that was sent, as the first version kept it. -/
def kept : Browser Unit where
  sent := some {
    ids := ["00ab"]
    record := fun id => if id = "00ab" then some ⟨some "https://lumenia.app/c/00ab#key", none, ()⟩ else none
    nodup := by decide
    complete := fun id => by
      rw [List.mem_singleton]
      split <;> simp [*] }
  links := fun _ => none

end Demo

/-- **A link whose copy fails is lost.** The encrypted store is blocked, and the records are written. -/
theorem blocked_copy_loses_link : ¬Safe (fun _ => ⟨false, []⟩) true Demo.kept := by
  intro h
  have hcopied := (kept_iff.mp h.kept).1 "00ab" "https://lumenia.app/c/00ab#key" (by decide +kernel)
  rcases hcopied with ⟨hfailed, -⟩ | hrecall
  · cases hfailed
  · cases hrecall

end Lumenia.Web.SentLinks

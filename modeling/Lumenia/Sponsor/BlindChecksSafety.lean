import Lumenia.Sponsor.BlindChecks
import Lumenia.Theory.Along
import Mathlib.Data.List.Chain

/-!
# No check stays blind in silence

A check that fails on every run is mailed, or an attempt is made, within one grace period and one interval
of its first failure, whatever the store and the mail do meanwhile: either the store keeps since when it
has failed, or the run pages at once. A cooldown is one of a mail that was accepted, and it is over when
the check has completed or waits.
-/

namespace Lumenia.Sponsor.Watchdog.Paging

open Dialogue

/-! ## What a run finds -/

structure Mail where
  sent : ℕ
  alerts : List Alert
  accepted : Bool

/-- What outlives a run. -/
structure World where
  blind : Ledger
  alerting : List String
  /-- Since when a page is held; 0 for none. -/
  alerted : String → ℕ
  mails : List Mail

namespace World

def fresh : World := ⟨∅, [], fun _ => 0, []⟩

def stamp (w : World) (slug : String) (value : ℕ) : World :=
  { w with alerted := Function.update w.alerted slug value }

end World

/-- A run, what its checks and its halt step come to in it, and whether the store reads and writes the keys
of the cooldown. -/
structure Occasion where
  now : ℕ
  pos : 0 < now
  check : Check → Outcome
  halt : HaltReport
  steady : Bool

/-- What the store and the mail do. Reads may fail, writes may be refused or land without an answer. -/
def Steps (o : Occasion) (w : World) : (q : Ask) → q.Answer → World → Prop
  | .check c, a, w' => w' = w ∧ a = o.check c
  | .halt, a, w' => w' = w ∧ a = o.halt
  | .kvReadBlind, a, w' => w' = w ∧ (a = some w.blind ∨ a = none)
  | .kvSetBlind ledger, a, w' => w' = { w with blind := ledger } ∨ a = false ∧ w' = w
  | .kvGetAlerting, a, w' => w' = w ∧ (a = some w.alerting ∨ o.steady = false ∧ a = none)
  | .kvSetAlerting slugs, _, w' => w' = { w with alerting := slugs } ∨ o.steady = false ∧ w' = w
  | .kvGetAlerted slug, a, w' => w' = w ∧ (a = some (w.alerted slug) ∨ a = none)
  | .kvSetAlerted slug value, _, w' => w' = w.stamp slug value ∨ o.steady = false ∧ w' = w
  | .email alerts, a, w' => w' = { w with mails := w.mails ++ [⟨o.now, alerts, a⟩] }

/-- Some runs, one after the other. -/
inductive Series (cfg : Config) : World → List Occasion → World → Prop
  | nil {w : World} : Series cfg w [] w
  | cons {o : Occasion} {os : List Occasion} {w w' w'' : World} {alerts : List Alert}
    (hrun : Runs (Steps o) (runWatchdog cfg o.now) w (.ok alerts) w') (rest : Series cfg w' os w'') :
    Series cfg w (o :: os) w''

/-! ## Slugs -/

theorem mem_all {c : Check} : c ∈ Check.all := by
  cases c <;> decide

theorem toList_alertSlug {title : String} : (alertSlug title).toList = slugChars (lower title) :=
  String.toList_ofList

theorem slug_injective {c c' : Check} (h : c.slug = c'.slug) : c = c' := by
  have hnodup : (Check.all.map fun c => slugChars (lower c.failedTitle)).Nodup := by decide +kernel
  apply List.inj_on_of_nodup_map hnodup mem_all mem_all
  rw [← toList_alertSlug, ← toList_alertSlug]
  exact congrArg String.toList h

/-- The slugs of failed checks begin as no other slug does. -/
theorem slug_prefix {c : Check} : c.slug.toList.take 11 = ['w', 'a', 't', 'c', 'h', 'd', 'o', 'g', '-', 'c', 'h'] := by
  rw [Check.slug, toList_alertSlug]
  cases c <;> decide +kernel

theorem slug_ne_own {c : Check} {title : String} (h : title ∈ ownTitles) : alertSlug title ≠ c.slug := by
  have hall : ∀ title ∈ ownTitles,
      (slugChars (lower title)).take 11 ≠ ['w', 'a', 't', 'c', 'h', 'd', 'o', 'g', '-', 'c', 'h'] := by
    decide +kernel
  intro heq
  apply hall title h
  rw [← toList_alertSlug, heq, slug_prefix]

theorem slug_ne_empty {c : Check} : c.slug ≠ "" := by
  intro hempty
  have hprefix := slug_prefix (c := c)
  rw [hempty] at hprefix
  cases hprefix

/-! ## The report -/

section

variable {now : ℕ} {persist : Bool} {blind : Blind} {r : Report} {c c' : Check} {o : Outcome} {cs : List Check}
  {check : Check → Outcome} {alerts alerts' : List Alert}

/-- There is a page of the check's failure. -/
def Paged (c : Check) (alerts : List Alert) : Prop := ∃ a ∈ alerts, a.severity = .page ∧ a.title = c.failedTitle

/-- The title of a failed check is the title of one that has failed. -/
def Titled (check : Check → Outcome) (alerts : List Alert) : Prop :=
  ∀ a ∈ alerts, a.title ∈ ownTitles ∨ ∃ c, (check c).failure.isSome ∧ a.title = c.failedTitle

/-- The check's failure waits on its start. -/
structure Waits (now : ℕ) (blind : Blind) (c : Check) (r : Report) : Prop where
  known : blind.known = true
  entry : ∃ e ∈ r.entries, e.alert.title = c.failedTitle ∧ ∃ w, e.waiting = some w ∧ w.slug = c.slug ∧
    w.since = sinceOf now blind.before c.slug
  start : r.blindNow.lookup c.slug = some (sinceOf now blind.before c.slug)
  grace : now - sinceOf now blind.before c.slug < blindGraceMs - blindStartSlackMs

theorem Paged.mono (h : Paged c alerts) (hsub : alerts ⊆ alerts') : Paged c alerts' := by
  obtain ⟨a, ha, hpage⟩ := h
  exact ⟨a, hsub ha, hpage⟩

/-- An alert with the slug of a failed check is one of its failure. -/
theorem Titled.of_slug (h : Titled check alerts) {a : Alert} (ha : a ∈ alerts) (hslug : alertSlug a.title = c.slug) :
    a.title = c.failedTitle ∧ (check c).failure.isSome := by
  rcases h a ha with hown | ⟨c', hfails, htitle⟩
  · exact absurd hslug (slug_ne_own hown)
  · rw [htitle] at hslug
    obtain rfl := slug_injective hslug
    exact ⟨htitle, hfails⟩

/-- A check adds alerts of its own, and at most one start. -/
theorem note_adds : ∃ more, (note now persist blind r c o).entries = r.entries ++ more ∧
    (∀ e ∈ more, e.alert.title ∈ ownTitles ∨ o.failure.isSome ∧ e.alert.title = c.failedTitle) ∧
    ((note now persist blind r c o).blindNow = r.blindNow ∨
      (note now persist blind r c o).blindNow = r.blindNow.insert c.slug (sinceOf now blind.before c.slug)) := by
  have hown : ∀ e ∈ o.alerts.map (fun a => (⟨a.val, none⟩ : Entry)), e.alert.title ∈ ownTitles := by
    intro e he
    obtain ⟨a, -, rfl⟩ := List.mem_map.mp he
    exact a.property
  rw [note]
  cases hfailure : o.failure with
  | none => exact ⟨_, rfl, fun e he => .inl (hown e he), .inl rfl⟩
  | some e =>
    have hadd : ∀ entry : Entry, entry.alert.title = c.failedTitle →
        ∀ e' ∈ o.alerts.map (fun a => (⟨a.val, none⟩ : Entry)) ++ [entry],
          e'.alert.title ∈ ownTitles ∨ (some e).isSome ∧ e'.alert.title = c.failedTitle := by
      intro entry htitle e' he'
      rcases List.mem_append.mp he' with he' | he'
      · exact .inl (hown e' he')
      · rw [List.mem_singleton.mp he']
        exact .inr ⟨rfl, htitle⟩
    dsimp only [checkFailed]
    split
    · exact ⟨_, List.append_assoc .., hadd _ rfl, .inl rfl⟩
    · split
      · exact ⟨_, List.append_assoc .., hadd _ rfl, .inr rfl⟩
      · exact ⟨_, List.append_assoc .., hadd _ rfl, .inr rfl⟩

theorem note_titled (h : Titled check r.alerts) : Titled check (note now persist blind r c (check c)).alerts := by
  obtain ⟨more, hentries, hmore, -⟩ := @note_adds now persist blind r c (check c)
  intro a ha
  rw [Report.alerts, hentries, List.map_append] at ha
  rcases List.mem_append.mp ha with ha | ha
  · exact h a ha
  · obtain ⟨e, he, rfl⟩ := List.mem_map.mp ha
    exact (hmore e he).imp_right fun hfails => ⟨c, hfails⟩

theorem Paged.note (h : Paged c r.alerts) : Paged c (note now persist blind r c' o).alerts := by
  obtain ⟨more, hentries, -⟩ := @note_adds now persist blind r c' o
  apply h.mono
  rw [Report.alerts, Report.alerts, hentries, List.map_append]
  exact List.subset_append_left ..

theorem Waits.note (h : Waits now blind c r) : Waits now blind c (note now persist blind r c' o) := by
  obtain ⟨more, hentries, -, hstart⟩ := @note_adds now persist blind r c' o
  refine ⟨h.known, ?_, ?_, h.grace⟩
  · obtain ⟨e, he, hwaits⟩ := h.entry
    exact ⟨e, hentries ▸ List.mem_append_left _ he, hwaits⟩
  · rcases hstart with hstart | hstart
    · rw [hstart, h.start]
    · rw [hstart]
      rcases eq_or_ne c c' with rfl | hne
      · exact Finmap.lookup_insert _
      · rw [Finmap.lookup_insert_of_ne _ fun heq => hne (slug_injective heq), h.start]

theorem paged_push {alert : Alert} (hpage : alert.severity = .page) (htitle : alert.title = c.failedTitle) :
    Paged c (r.push alert).alerts := by
  refine ⟨alert, ?_, hpage, htitle⟩
  rw [Report.alerts, Report.push, List.map_append]
  exact List.mem_append_right _ (List.mem_singleton_self _)

/-- A failure pages or waits. -/
theorem note_fails (hfails : o.failure.isSome) :
    Paged c (note now persist blind r c o).alerts ∨ Waits now blind c (note now persist blind r c o) := by
  obtain ⟨e, he⟩ := Option.isSome_iff_exists.mp hfails
  rw [note, he]
  dsimp only [checkFailed]
  split
  · exact .inl (paged_push rfl rfl)
  · rename_i hbusy
    split
    · exact .inl (paged_push rfl rfl)
    · rename_i hgrace
      refine .inr ⟨?_, ⟨_, List.mem_append_right _ (List.mem_singleton_self _), rfl, _, rfl, rfl, rfl⟩,
        Finmap.lookup_insert _, not_le.mp hgrace⟩
      cases hknown : blind.known with
      | true => rfl
      | false => simp [hknown] at hbusy

/-- The report of all checks. -/
def checksReport (now : ℕ) (persist : Bool) (blind : Blind) (check : Check → Outcome) (cs : List Check)
    (r : Report) : Report :=
  cs.foldl (fun r c => note now persist blind r c (check c)) r

theorem checksReport_titled (h : Titled check r.alerts) :
    Titled check (checksReport now persist blind check cs r).alerts := by
  induction cs generalizing r with
  | nil => exact h
  | cons c cs ih => exact ih (note_titled h)

theorem checksReport_keeps (h : Paged c r.alerts ∨ Waits now blind c r) :
    Paged c (checksReport now persist blind check cs r).alerts ∨
      Waits now blind c (checksReport now persist blind check cs r) := by
  induction cs generalizing r with
  | nil => exact h
  | cons c' cs ih => exact ih (h.imp Paged.note Waits.note)

theorem checksReport_fails (hc : c ∈ cs) (hfails : (check c).failure.isSome) :
    Paged c (checksReport now persist blind check cs r).alerts ∨
      Waits now blind c (checksReport now persist blind check cs r) := by
  induction cs generalizing r with
  | nil => cases hc
  | cons c' cs ih =>
    rcases List.mem_cons.mp hc with rfl | hc
    · exact checksReport_keeps (r := note now persist blind r c (check c)) (note_fails hfails)
    · exact ih hc

end

/-! ## The store -/

section

variable {cfg : Config} {o : Occasion} {w w' : World} {blind : Blind} {r : Report} {c : Check}
  {force : Alert → Bool} {alerts : List Alert} {active previous : List String}

theorem wp_runChecks {cs : List Check} {post : Except Empty Report → World → Prop}
    (h : post (.ok (checksReport o.now cfg.persist blind o.check cs r)) w) :
    (runChecks o.now cfg.persist blind cs r).wp (Steps o) post w := by
  induction cs generalizing r with
  | nil => exact h
  | cons c cs ih =>
    rw [runChecks, question_bind]
    rintro a w' ⟨rfl, rfl⟩
    exact ih h

/-- What is known of earlier runs is what the store has. -/
theorem wp_readBlind : (readBlind cfg).wp (Steps o)
    (fun a w' => w' = w ∧ ∃ blind, a = .ok blind ∧ (blind.known = true → blind.before = w.blind)) w := by
  rw [readBlind, wp_ite]
  refine ⟨fun _ => ?_, fun _ => ⟨rfl, _, rfl, nofun⟩⟩
  rw [question_bind]
  intro a w' h
  obtain ⟨rfl, rfl | rfl⟩ := h
  · exact ⟨rfl, _, rfl, fun _ => rfl⟩
  · exact ⟨rfl, _, rfl, nofun⟩

/-- Nothing of the store but its blind ledger is touched. -/
structure SameMail (w w' : World) : Prop where
  mails : w'.mails = w.mails
  alerted : w'.alerted = w.alerted
  alerting : w'.alerting = w.alerting

theorem unsaved_title {e : Entry} {before : Ledger} : (e.unsaved before).alert.title = e.alert.title := by
  unfold Entry.unsaved
  split
  · rfl
  · split <;> rfl

theorem unsaved_page {e : Entry} {before : Ledger} (h : e.alert.severity = .page) :
    (e.unsaved before).alert.severity = .page := by
  unfold Entry.unsaved
  split
  · exact h
  · split
    · exact h
    · rfl

/-- What the ledger keeps, or what pages. -/
theorem wp_saveBlind (hblind : blind.known = true → blind.before = w.blind)
    (htitled : Titled o.check r.alerts) :
    (saveBlind cfg blind r).wp (Steps o) (fun a w' => SameMail w w' ∧ ∃ r', a = .ok r' ∧
      Titled o.check r'.alerts ∧ ∀ c, Paged c r.alerts ∨ cfg.persist = true ∧ Waits o.now blind c r →
        Paged c r'.alerts ∨ w'.blind.lookup c.slug = some (sinceOf o.now w.blind c.slug) ∧
          o.now - sinceOf o.now w.blind c.slug < blindGraceMs - blindStartSlackMs) w := by
  have hkept : ∀ {w' : World} {r' : Report}, (∀ c, Paged c r.alerts → Paged c r'.alerts) →
      (∀ c, cfg.persist = true → Waits o.now blind c r →
        Paged c r'.alerts ∨ w'.blind.lookup c.slug = some (sinceOf o.now blind.before c.slug)) →
      ∀ c, Paged c r.alerts ∨ cfg.persist = true ∧ Waits o.now blind c r → Paged c r'.alerts ∨
        w'.blind.lookup c.slug = some (sinceOf o.now w.blind c.slug) ∧
          o.now - sinceOf o.now w.blind c.slug < blindGraceMs - blindStartSlackMs := by
    intro w' r' hpaged hwaits c hc
    rcases hc with hc | ⟨hpersist, hc⟩
    · exact .inl (hpaged c hc)
    · rw [← hblind hc.known]
      exact (hwaits c hpersist hc).imp_right fun hstart => ⟨hstart, hc.grace⟩
  rw [saveBlind, wp_ite]
  constructor
  · intro hsave
    rw [question_bind]
    intro a w' hstep
    cases a with
    | true =>
      obtain rfl : w' = { w with blind := r.blindNow } := hstep.resolve_right (fun h => nomatch h.1)
      exact ⟨⟨rfl, rfl, rfl⟩, r, rfl, htitled, hkept (fun _ => id) fun c _ hc => .inr hc.start⟩
    | false =>
      have hsame : SameMail w w' := by
        rcases hstep with rfl | ⟨-, rfl⟩
        · exact ⟨rfl, rfl, rfl⟩
        · exact ⟨rfl, rfl, rfl⟩
      refine ⟨hsame, _, rfl, ?_, hkept ?_ ?_⟩
      · intro a ha
        obtain ⟨e', he', rfl⟩ := List.mem_map.mp ha
        obtain ⟨e, he, rfl⟩ := List.mem_map.mp he'
        rw [unsaved_title]
        exact htitled _ (List.mem_map_of_mem he)
      · rintro c ⟨a, ha, hpage, htitle⟩
        obtain ⟨e, he, rfl⟩ := List.mem_map.mp ha
        exact ⟨_, List.mem_map_of_mem (List.mem_map_of_mem he), unsaved_page hpage, unsaved_title.trans htitle⟩
      · intro c _ hc
        obtain ⟨e, he, htitle, wait, hwait, hslug, hsince⟩ := hc.entry
        by_cases hbefore : blind.before.lookup wait.slug = some wait.since
        · -- The start was there before, and a write that is refused leaves it or writes it again.
          rw [hslug, hsince] at hbefore
          rcases hstep with rfl | ⟨-, rfl⟩
          · exact .inr hc.start
          · exact .inr (by rw [← hblind hc.known, hbefore])
        · refine .inl ⟨_, List.mem_map_of_mem (List.mem_map_of_mem he), ?_, unsaved_title.trans htitle⟩
          rw [Entry.unsaved, hwait]
          dsimp only
          rw [if_neg hbefore]
  · intro hsame
    refine ⟨⟨rfl, rfl, rfl⟩, r, rfl, htitled, hkept (fun _ => id) fun c hpersist hc => .inr ?_⟩
    have heq : r.blindNow = blind.before := by
      by_contra hne
      simp [hpersist, hc.known, hne] at hsame
    rw [← hblind hc.known]
    exact (congrArg (Finmap.lookup c.slug) heq).symm.trans hc.start

end

/-! ## Delivery -/

section

variable {cfg : Config} {o : Occasion} {w w₀ w' : World} {c : Check} {force : Alert → Bool}
  {alerts new : List Alert} {slug : String} {list : List String}

/-- A page of the check is held. -/
def Held (cfg : Config) (now last : ℕ) : Prop := 0 < last ∧ now - last < cfg.alertCooldownMs

/-- The cooldown is at most cut short. -/
structure Shortened (w w' : World) : Prop where
  mails : w'.mails = w.mails
  blind : w'.blind = w.blind
  alerted : ∀ slug, w'.alerted slug = w.alerted slug ∨ w'.alerted slug = 0

theorem Shortened.refl : Shortened w w := ⟨rfl, rfl, fun _ => .inl rfl⟩

theorem Shortened.trans (h : Shortened w₀ w) (h' : Shortened w w') : Shortened w₀ w' where
  mails := h'.mails.trans h.mails
  blind := h'.blind.trans h.blind
  alerted slug := by
    rcases h'.alerted slug with hs | hs
    · rw [hs]
      exact h.alerted slug
    · exact .inr hs

theorem Shortened.not_held (h : Shortened w w') {now : ℕ} (hheld : ¬Held cfg now (w.alerted slug)) :
    ¬Held cfg now (w'.alerted slug) := by
  rcases h.alerted slug with hs | hs
  · rwa [hs]
  · rw [hs]
    exact fun hpos => absurd hpos.1 (lt_irrefl 0)

theorem wp_resetCleared : (resetCleared list previous).wp (Steps o) (fun a w' => a = .ok () ∧
    Shortened w w' ∧ w'.alerting = w.alerting ∧
      (o.steady = true → ∀ slug ∉ list, (slug ∈ previous ∨ w.alerted slug = 0) → w'.alerted slug = 0)) w := by
  induction previous generalizing w with
  | nil => exact ⟨rfl, .refl, rfl, fun _ slug _ h => h.resolve_left List.not_mem_nil⟩
  | cons slug previous ih =>
    rw [resetCleared]
    split
    · rename_i hactive
      refine wp_mono (fun a w' h => ?_) ih
      obtain ⟨ha, hshort, halerting, hreset⟩ := h
      refine ⟨ha, hshort, halerting, fun hsteady s hs hmem => hreset hsteady s hs ?_⟩
      rcases hmem with hmem | hzero
      · rcases List.mem_cons.mp hmem with rfl | hmem
        · exact absurd hactive hs
        · exact .inl hmem
      · exact .inr hzero
    · rw [question_bind]
      intro a w₁ hstep
      have hone : Shortened w w₁ ∧ w₁.alerting = w.alerting ∧ (o.steady = true → w₁.alerted slug = 0 ∧
          ∀ s, w.alerted s = 0 → w₁.alerted s = 0) := by
        rcases hstep with rfl | ⟨hunsteady, rfl⟩
        · have hupdate : ∀ s, (w.stamp slug 0).alerted s = w.alerted s ∨ (w.stamp slug 0).alerted s = 0 := by
            intro s
            rcases eq_or_ne s slug with rfl | hne
            · exact .inr (Function.update_self ..)
            · exact .inl (Function.update_of_ne hne ..)
          refine ⟨⟨rfl, rfl, hupdate⟩, rfl, fun _ => ⟨Function.update_self .., fun s hs => ?_⟩⟩
          exact (hupdate s).elim (fun h => h.trans hs) id
        · exact ⟨.refl, rfl, fun h => absurd h (Bool.eq_false_iff.mp hunsteady)⟩
      obtain ⟨hshort₁, halerting₁, hreset₁⟩ := hone
      refine wp_mono (fun a w' h => ?_) ih
      obtain ⟨ha, hshort, halerting, hreset⟩ := h
      refine ⟨ha, hshort₁.trans hshort, halerting.trans halerting₁, fun hsteady s hs hmem => hreset hsteady s hs ?_⟩
      rcases hmem with hmem | hzero
      · rcases List.mem_cons.mp hmem with rfl | hmem
        · exact .inr (hreset₁ hsteady).1
        · exact .inl hmem
      · exact .inr ((hreset₁ hsteady).2 s hzero)

/-- What is not held is due. -/
theorem wp_dueOf : (dueOf cfg o.now force alerts).wp (Steps o) (fun a w' => w' = w ∧ ∃ due, a = .ok due ∧
    due ⊆ alerts ∧ ∀ a ∈ alerts, ¬Held cfg o.now (w.alerted (alertSlug a.title)) → a ∈ due) w := by
  induction alerts with
  | nil => exact ⟨rfl, [], rfl, List.Subset.refl _, nofun⟩
  | cons a alerts ih =>
    have htake : (dueOf cfg o.now force alerts >>= fun due => return a :: due).wp (Steps o)
        (fun r w' => w' = w ∧ ∃ due, r = .ok due ∧ due ⊆ a :: alerts ∧
          ∀ a' ∈ a :: alerts, ¬Held cfg o.now (w.alerted (alertSlug a'.title)) → a' ∈ due) w := by
      rw [wp_bind]
      refine wp_mono (fun r w' h => ?_) ih
      obtain ⟨rfl, due, rfl, hsub, hdue⟩ := h
      refine ⟨rfl, a :: due, rfl, List.cons_subset_cons a hsub, fun a' ha' hheld => ?_⟩
      rcases List.mem_cons.mp ha' with rfl | ha'
      · exact List.mem_cons_self
      · exact List.mem_cons_of_mem _ (hdue a' ha' hheld)
    rw [dueOf, wp_ite]
    refine ⟨fun _ => htake, fun _ => ?_⟩
    rw [question_bind]
    rintro last w' ⟨rfl, hlast⟩
    rw [wp_ite]
    refine ⟨fun hheld => ?_, fun _ => htake⟩
    refine wp_mono (fun r w' h => ?_) ih
    obtain ⟨rfl, due, rfl, hsub, hdue⟩ := h
    refine ⟨rfl, due, rfl, List.subset_cons_of_subset a hsub, fun a' ha' hnot => ?_⟩
    rcases List.mem_cons.mp ha' with rfl | ha'
    · rcases hlast with rfl | rfl
      · exact absurd hheld hnot
      · exact absurd hheld.1 (lt_irrefl 0)
    · exact hdue a' ha' hnot

/-- A slug that has a cooldown is one of the list. -/
def Listed (w : World) (slug : String) : Prop := w.alerted slug ≠ 0 → slug ∈ w.alerting

theorem mem_slugs : slug ∈ slugs alerts ↔ ∃ a ∈ alerts, alertSlug a.title = slug := by
  rw [slugs, List.mem_eraseDups, List.mem_map]

theorem wp_withoutRepeats : (withoutRepeats cfg o.now force alerts).wp (Steps o) (fun a w' =>
    Shortened w w' ∧ ∃ due, a = .ok due ∧ due ⊆ alerts ∧
      (∀ a ∈ alerts, ¬Held cfg o.now (w.alerted (alertSlug a.title)) → a ∈ due) ∧
      (o.steady = true → w'.alerting = slugs alerts ∧
        ∀ slug ∉ slugs alerts, slug ≠ "" → Listed w slug → w'.alerted slug = 0)) w := by
  rw [withoutRepeats, question_bind]
  rintro previous w₀ ⟨rfl, hprevious⟩
  rw [wp_bind]
  refine wp_mono (fun a w₁ h => ?_) wp_resetCleared
  obtain ⟨rfl, hshort, -, hreset⟩ := h
  rw [onValue_ok, question_bind]
  intro answer w₂ hstep
  have hlist : Shortened w₁ w₂ ∧ (o.steady = true → w₂.alerting = slugs alerts ∧ w₂.alerted = w₁.alerted) := by
    rcases hstep with rfl | ⟨hunsteady, rfl⟩
    · exact ⟨⟨rfl, rfl, fun _ => .inl rfl⟩, fun _ => ⟨rfl, rfl⟩⟩
    · exact ⟨.refl, fun h => absurd h (Bool.eq_false_iff.mp hunsteady)⟩
  have hshort₂ := hshort.trans hlist.1
  refine wp_mono (fun r w' h => ?_) wp_dueOf
  obtain ⟨rfl, due, rfl, hsub, hdue⟩ := h
  refine ⟨hshort₂, due, rfl, hsub, fun a ha hheld => hdue a ha (hshort₂.not_held hheld), fun hsteady => ?_⟩
  obtain ⟨halerting, halerted⟩ := hlist.2 hsteady
  refine ⟨halerting, fun slug hslug hne hlisted => ?_⟩
  rw [halerted]
  apply hreset hsteady slug hslug
  rcases Nat.eq_zero_or_pos (w₀.alerted slug) with hzero | hpos
  · exact .inr hzero
  · rcases hprevious with rfl | ⟨hnot, -⟩
    · exact .inl (List.mem_filter.mpr ⟨hlisted hpos.ne', decide_eq_true hne⟩)
    · exact absurd hsteady (Bool.eq_false_iff.mp hnot)

theorem wp_setAlerted : (setAlerted o.now list).wp (Steps o) (fun a w' => a = .ok () ∧
    w'.mails = w.mails ∧ w'.blind = w.blind ∧ w'.alerting = w.alerting ∧
      ∀ slug, w'.alerted slug = w.alerted slug ∨ w'.alerted slug = o.now ∧ slug ∈ list) w := by
  induction list generalizing w with
  | nil => exact ⟨rfl, rfl, rfl, rfl, fun _ => .inl rfl⟩
  | cons slug rest ih =>
    rw [setAlerted, question_bind]
    intro a w₁ hstep
    have hone : w₁.mails = w.mails ∧ w₁.blind = w.blind ∧ w₁.alerting = w.alerting ∧
        ∀ s, w₁.alerted s = w.alerted s ∨ w₁.alerted s = o.now ∧ s = slug := by
      rcases hstep with rfl | ⟨-, rfl⟩
      · refine ⟨rfl, rfl, rfl, fun s => ?_⟩
        rcases eq_or_ne s slug with rfl | hne
        · exact .inr ⟨Function.update_self .., rfl⟩
        · exact .inl (Function.update_of_ne hne ..)
      · exact ⟨rfl, rfl, rfl, fun _ => .inl rfl⟩
    obtain ⟨hmails, hblind, halerting, hone⟩ := hone
    refine wp_mono (fun r w' h => ?_) ih
    obtain ⟨hr, hmails', hblind', halerting', hrest⟩ := h
    refine ⟨hr, hmails'.trans hmails, hblind'.trans hblind, halerting'.trans halerting, fun s => ?_⟩
    rcases hrest s with hs | ⟨hs, hmem⟩
    · rw [hs]
      rcases hone s with hs | ⟨hs, rfl⟩
      · exact .inl hs
      · exact .inr ⟨hs, List.mem_cons_self⟩
    · exact .inr ⟨hs, List.mem_cons_of_mem _ hmem⟩

/-- What a run has sent, and what it leaves of the cooldown. -/
structure Delivered (cfg : Config) (o : Occasion) (alerts : List Alert) (new : List Mail)
    (w w' : World) : Prop where
  mails : w'.mails = w.mails ++ new
  blind : w'.blind = w.blind
  sent : ∀ m ∈ new, m.sent = o.now ∧ m.alerts ⊆ alerts.filter (·.severity = .page)
  alerted : ∀ slug, w'.alerted slug = w.alerted slug ∨ w'.alerted slug = 0 ∨
    w'.alerted slug = o.now ∧ ∃ m ∈ new, m.accepted = true ∧ ∃ a ∈ m.alerts, alertSlug a.title = slug
  attempted : ∀ a ∈ alerts, a.severity = .page → ¬Held cfg o.now (w.alerted (alertSlug a.title)) →
    ∃ m ∈ new, a ∈ m.alerts
  cleared : o.steady = true → w'.alerting = slugs (alerts.filter (·.severity = .page)) ∧
    ∀ slug ∉ slugs (alerts.filter (·.severity = .page)), slug ≠ "" → Listed w slug → w'.alerted slug = 0

theorem wp_deliver {freshHalt : Bool} (hpersist : cfg.persist = true) (hconf : cfg.configured = true) :
    (deliver cfg o.now freshHalt alerts).wp (Steps o)
      (fun a w' => a = .ok () ∧ ∃ new, Delivered cfg o alerts new w w') w := by
  rw [deliver, wp_ite]
  refine ⟨fun _ => ?_, fun hnot => absurd (by rw [hpersist, hconf]; rfl) hnot⟩
  rw [wp_bind]
  refine wp_mono (fun a w₁ h => ?_) wp_withoutRepeats
  obtain ⟨hshort, due, rfl, hsub, hdue, hcleared⟩ := h
  rw [onValue_ok, wp_ite]
  constructor
  · intro _
    rw [question_bind]
    rintro a w₂ rfl
    have hattempted : ∀ b ∈ alerts, b.severity = .page → ¬Held cfg o.now (w.alerted (alertSlug b.title)) →
        ∃ m ∈ [(⟨o.now, due, a⟩ : Mail)], b ∈ m.alerts :=
      fun b hb hpage hheld => ⟨_, List.mem_singleton_self _,
        hdue b (List.mem_filter.mpr ⟨hb, decide_eq_true hpage⟩) hheld⟩
    have hsent : ∀ m ∈ [(⟨o.now, due, a⟩ : Mail)],
        m.sent = o.now ∧ m.alerts ⊆ alerts.filter (·.severity = .page) := by
      intro m hm
      rw [List.mem_singleton.mp hm]
      exact ⟨rfl, hsub⟩
    cases a with
    | false =>
      exact ⟨rfl, _, congrArg (· ++ _) hshort.mails, hshort.blind, hsent,
        fun slug => (hshort.alerted slug).imp_right .inl, hattempted, hcleared⟩
    | true =>
      refine wp_mono (fun r w' h => ?_) wp_setAlerted
      obtain ⟨rfl, hmails, hblind, halerting, hmarked⟩ := h
      refine ⟨rfl, _, hmails.trans (congrArg (· ++ _) hshort.mails), hblind.trans hshort.blind, hsent,
        fun slug => ?_, hattempted, fun hsteady => ⟨halerting.trans (hcleared hsteady).1, fun slug hslug hne hlisted => ?_⟩⟩
      · rcases hmarked slug with hs | ⟨hs, hmem⟩
        · exact (hs ▸ hshort.alerted slug).imp_right .inl
        · exact .inr (.inr ⟨hs, _, List.mem_singleton_self _, rfl, mem_slugs.mp hmem⟩)
      · rcases hmarked slug with hs | ⟨-, hmem⟩
        · exact hs.trans ((hcleared hsteady).2 slug hslug hne hlisted)
        · obtain ⟨b, hb, htitle⟩ := mem_slugs.mp hmem
          exact absurd (mem_slugs.mpr ⟨b, hsub hb, htitle⟩) hslug
  · intro hnil
    obtain rfl : due = [] := not_ne_iff.mp hnil
    exact ⟨rfl, [], by rw [hshort.mails, List.append_nil], hshort.blind, nofun,
      fun slug => (hshort.alerted slug).imp_right .inl,
      fun b hb hpage hheld => absurd (hdue b (List.mem_filter.mpr ⟨hb, decide_eq_true hpage⟩) hheld)
        List.not_mem_nil, hcleared⟩

end

/-! ## A run -/

section

variable {cfg : Config} {o : Occasion} {w w' : World} {c : Check} {alerts : List Alert}

/-- An attempt to mail the page of the check. -/
def Attempted (c : Check) (mails : List Mail) : Prop := ∃ m ∈ mails, Paged c m.alerts

/-- What a run is for a check. -/
structure Watched (cfg : Config) (o : Occasion) (c : Check) (new : List Mail) (w w' : World) :
    Prop where
  /-- A failure is mailed unless a cooldown holds it or the store keeps since when it waits. -/
  fails : (o.check c).failure.isSome → Attempted c new ∨ Held cfg o.now (w.alerted c.slug) ∨
    w'.blind.lookup c.slug = some (sinceOf o.now w.blind c.slug) ∧
      o.now - sinceOf o.now w.blind c.slug < blindGraceMs - blindStartSlackMs
  /-- A cooldown that is new is one of an attempt. -/
  alerted : Attempted c new ∨ w'.alerted c.slug = w.alerted c.slug ∨ w'.alerted c.slug = 0
  /-- Where the check has completed there is no cooldown afterwards. -/
  cleared : o.steady = true → Listed w c.slug →
    Listed w' c.slug ∧ ((o.check c).failure = none → w'.alerted c.slug = 0)

theorem Delivered.watched {r : Report} {new : List Mail} (hd : Delivered cfg o r.alerts new w w')
    (htitled : Titled o.check r.alerts) {since : ℕ}
    (hfails : (o.check c).failure.isSome → Paged c r.alerts ∨ w.blind.lookup c.slug = some since ∧
      o.now - since < blindGraceMs - blindStartSlackMs) :
    ((o.check c).failure.isSome → Attempted c new ∨ Held cfg o.now (w.alerted c.slug) ∨
      w'.blind.lookup c.slug = some since ∧ o.now - since < blindGraceMs - blindStartSlackMs) ∧
    (Attempted c new ∨ w'.alerted c.slug = w.alerted c.slug ∨ w'.alerted c.slug = 0) ∧
    (o.steady = true → Listed w c.slug → Listed w' c.slug ∧ ((o.check c).failure = none → w'.alerted c.slug = 0)) := by
  refine ⟨fun hc => ?_, ?_, fun hsteady hlisted => ?_⟩
  · rcases hfails hc with ⟨a, ha, hpage, htitle⟩ | hwaits
    · by_cases hheld : Held cfg o.now (w.alerted c.slug)
      · exact .inr (.inl hheld)
      · obtain ⟨m, hm, ham⟩ := hd.attempted a ha hpage (by rwa [htitle])
        exact .inl ⟨m, hm, a, ham, hpage, htitle⟩
    · exact .inr (.inr (hd.blind ▸ hwaits))
  · rcases hd.alerted c.slug with hs | hs | ⟨-, m, hm, -, a, ha, hslug⟩
    · exact .inr (.inl hs)
    · exact .inr (.inr hs)
    · obtain ⟨hmem, hpage⟩ := List.mem_filter.mp ((hd.sent m hm).2 ha)
      exact .inl ⟨m, hm, a, ha, of_decide_eq_true hpage, (htitled.of_slug hmem hslug).1⟩
  · obtain ⟨halerting, hcleared⟩ := hd.cleared hsteady
    constructor
    · intro hne
      rw [halerting]
      by_contra hslug
      exact hne (hcleared _ hslug slug_ne_empty hlisted)
    · intro hcompletes
      refine hcleared _ (fun hmem => ?_) slug_ne_empty hlisted
      obtain ⟨a, ha, hslug⟩ := mem_slugs.mp hmem
      have hfailed := (htitled.of_slug (List.mem_filter.mp ha).1 hslug).2
      rw [hcompletes] at hfailed
      cases hfailed

/-- One run: a mail, or a start that the store keeps. -/
theorem wp_runWatchdog (hpersist : cfg.persist = true) (hconf : cfg.configured = true) :
    (runWatchdog cfg o.now).wp (Steps o) (fun _ w' => ∃ new, w'.mails = w.mails ++ new ∧
      (∀ m ∈ new, m.sent = o.now) ∧ (∀ slug, w'.alerted slug = w.alerted slug ∨ w'.alerted slug = 0 ∨
        w'.alerted slug = o.now ∧ ∃ m ∈ new, m.accepted = true ∧ ∃ a ∈ m.alerts, alertSlug a.title = slug) ∧
      ∀ c, Watched cfg o c new w w') w := by
  rw [runWatchdog, wp_bind]
  refine wp_mono (fun a w₁ h => ?_) wp_readBlind
  obtain ⟨rfl, blind, rfl, hblind⟩ := h
  rw [onValue_ok, wp_bind]
  apply wp_runChecks
  rw [onValue_ok, question_bind]
  rintro halt w₂ ⟨rfl, rfl⟩
  obtain ⟨r, hr⟩ : ∃ r, checksReport o.now cfg.persist blind o.check Check.all ⟨[], ∅⟩ = r := ⟨_, rfl⟩
  have htitled : Titled o.check r.alerts := hr ▸ checksReport_titled nofun
  have hfails : ∀ c, (o.check c).failure.isSome → Paged c r.alerts ∨ Waits o.now blind c r :=
    fun c hc => hr ▸ checksReport_fails mem_all hc
  have halts : (r.pushAll o.halt.alerts).alerts = r.alerts ++ o.halt.alerts.map (·.val) := by
    rw [Report.alerts, Report.pushAll, List.map_append, List.map_map]
    rfl
  have htitled' : Titled o.check (r.pushAll o.halt.alerts).alerts := by
    intro a ha
    rw [halts] at ha
    rcases List.mem_append.mp ha with ha | ha
    · exact htitled a ha
    · obtain ⟨b, -, rfl⟩ := List.mem_map.mp ha
      exact .inl b.property
  have hfails' : ∀ c, (o.check c).failure.isSome → Paged c (r.pushAll o.halt.alerts).alerts ∨
      cfg.persist = true ∧ Waits o.now blind c (r.pushAll o.halt.alerts) := by
    intro c hc
    rcases hfails c hc with hpaged | hwaits
    · exact .inl (hpaged.mono (halts ▸ List.subset_append_left ..))
    · refine .inr ⟨hpersist, hwaits.known, ?_, hwaits.start, hwaits.grace⟩
      obtain ⟨e, he, hentry⟩ := hwaits.entry
      exact ⟨e, List.mem_append_left _ he, hentry⟩
  rw [hr, wp_bind]
  refine wp_mono (fun a w₃ h => ?_) (wp_saveBlind hblind htitled')
  obtain ⟨hsame, r', rfl, htitled₃, hfails₃⟩ := h
  rw [onValue_ok, hconf, if_pos rfl, List.append_nil, wp_bind]
  refine wp_mono (fun a w' h => ?_) (wp_deliver hpersist hconf)
  obtain ⟨rfl, new, hd⟩ := h
  refine ⟨new, hsame.mails ▸ hd.mails, fun m hm => (hd.sent m hm).1, hsame.alerted ▸ hd.alerted, fun c => ?_⟩
  have hwatched := hd.watched (c := c) htitled₃ fun hc => hfails₃ c (hfails' c hc)
  rw [hsame.alerted, Listed, hsame.alerted, hsame.alerting] at hwatched
  exact ⟨hwatched.1, hwatched.2.1, hwatched.2.2⟩

end

/-! ## Any number of runs -/

section

variable {cfg : Config} {w w' : World} {c : Check} {o : Occasion} {os : List Occasion} {alerts : List Alert}
  {t interval : ℕ} {slug : String}

/-- Runs that are at most so far apart. -/
abbrev Spaced (interval : ℕ) (os : List Occasion) : Prop :=
  os.IsChain fun o o' => o.now ≤ o'.now ∧ o'.now ≤ o.now + interval

theorem Series.mails (hpersist : cfg.persist = true) (hconf : cfg.configured = true) (h : Series cfg w os w') :
    ∃ new, w'.mails = w.mails ++ new := by
  induction h with
  | nil => exact ⟨[], (List.append_nil _).symm⟩
  | cons hrun _ ih =>
    obtain ⟨new, hnew, -⟩ := hrun.sound (wp_runWatchdog hpersist hconf)
    obtain ⟨more, hmore⟩ := ih
    exact ⟨new ++ more, by rw [hmore, hnew, List.append_assoc]⟩

theorem sinceOf_pos (ho : 0 < t) {before : Ledger} : 0 < sinceOf t before slug := by
  unfold sinceOf
  split
  · split
    · rename_i h
      exact h.1
    · exact ho
  · exact ho

theorem sinceOf_le {before : Ledger} : sinceOf t before slug ≤ t := by
  unfold sinceOf
  split
  · split
    · rename_i h
      exact h.2
    · exact le_rfl
  · exact le_rfl

theorem sinceOf_kept {before : Ledger} {since : ℕ} (h : before.lookup slug = some since) (hpos : 0 < since)
    (hle : since ≤ t) : sinceOf t before slug = since := by
  unfold sinceOf
  rw [h]
  exact if_pos ⟨hpos, hle⟩

/-- While it is not mailed, the check has failed since a time that the store keeps. -/
theorem Series.attempted (hpersist : cfg.persist = true) (hconf : cfg.configured = true) (h : Series cfg w os w')
    (hfails : ∀ o ∈ os, (o.check c).failure.isSome) (hspaced : Spaced interval os)
    (hlast : ∃ o ∈ os, t + blindGraceMs ≤ o.now)
    (hfirst : ∀ o ∈ os.head?, t ≤ o.now ∧ o.now ≤ t + blindGraceMs + interval ∧
      sinceOf o.now w.blind c.slug ≤ t)
    (hheld : ∀ now, t ≤ now → ¬Held cfg now (w.alerted c.slug)) :
    ∃ new, w'.mails = w.mails ++ new ∧
      ∃ m ∈ new, Paged c m.alerts ∧ t ≤ m.sent ∧ m.sent ≤ t + blindGraceMs + interval := by
  induction h with
  | nil =>
    obtain ⟨o, ho, -⟩ := hlast
    cases ho
  | @cons o os w w₁ w' _ hrun rest ih =>
    obtain ⟨new, hnew, hsent, -, hwatched⟩ := hrun.sound (wp_runWatchdog hpersist hconf)
    obtain ⟨hstart, hsoon, hsince⟩ := hfirst o rfl
    obtain ⟨more, hmore⟩ := rest.mails hpersist hconf
    have hdone : Attempted c new → ∃ new, w'.mails = w.mails ++ new ∧
        ∃ m ∈ new, Paged c m.alerts ∧ t ≤ m.sent ∧ m.sent ≤ t + blindGraceMs + interval := by
      rintro ⟨m, hm, hpaged⟩
      have htime := hsent m hm
      exact ⟨new ++ more, by rw [hmore, hnew, List.append_assoc], m, List.mem_append_left _ hm, hpaged,
        by omega, by omega⟩
    rcases (hwatched c).fails (hfails o List.mem_cons_self) with hattempt | hrunning | ⟨hkept, hgrace⟩
    · exact hdone hattempt
    · exact absurd hrunning (hheld o.now hstart)
    rcases (hwatched c).alerted with hattempt | halerted
    · exact hdone hattempt
    have hearly : o.now < t + blindGraceMs := by
      rw [blindStartSlackMs] at hgrace
      omega
    have hpos : 0 < sinceOf o.now w.blind c.slug := sinceOf_pos o.pos
    have hlater : ∃ o' ∈ os, t + blindGraceMs ≤ o'.now := by
      obtain ⟨o', ho', hlate⟩ := hlast
      rcases List.mem_cons.mp ho' with rfl | ho'
      · omega
      · exact ⟨o', ho', hlate⟩
    have hnext : ∀ o' ∈ os.head?, t ≤ o'.now ∧ o'.now ≤ t + blindGraceMs + interval ∧
        sinceOf o'.now w₁.blind c.slug ≤ t := by
      intro o' ho'
      obtain ⟨hle, hgap⟩ := (List.isChain_cons.mp hspaced).1 o' ho'
      refine ⟨hstart.trans hle, by omega, ?_⟩
      rw [sinceOf_kept hkept hpos (hsince.trans (hstart.trans hle))]
      exact hsince
    obtain ⟨later, hlaterMails, hmail⟩ := ih (fun o' ho' => hfails o' (List.mem_cons_of_mem _ ho'))
      hspaced.of_cons hlater hnext fun now hnow => by
        rcases halerted with hs | hs
        · rw [hs]
          exact hheld now hnow
        · rw [hs]
          exact fun hrunning => absurd hrunning.1 (lt_irrefl 0)
    obtain ⟨m, hm, hpage⟩ := hmail
    exact ⟨new ++ later, by rw [hlaterMails, hnew, List.append_assoc], m, List.mem_append_right _ hm, hpage⟩

/-- A check that has completed has no cooldown. -/
theorem Series.cleared (hpersist : cfg.persist = true) (hconf : cfg.configured = true) (h : Series cfg w os w')
    (hsteady : ∀ o ∈ os, o.steady = true) (hlisted : Listed w c.slug) (hstart : os = [] → w.alerted c.slug = 0)
    (hlast : ∀ o ∈ os.getLast?, (o.check c).failure = none) : w'.alerted c.slug = 0 := by
  induction h with
  | nil => exact hstart rfl
  | @cons o os w w₁ w' _ hrun rest ih =>
    obtain ⟨new, -, -, -, hwatched⟩ := hrun.sound (wp_runWatchdog hpersist hconf)
    obtain ⟨hlisted₁, hcompletes⟩ := (hwatched c).cleared (hsteady o List.mem_cons_self) hlisted
    refine ih (fun o' ho' => hsteady o' (List.mem_cons_of_mem _ ho')) hlisted₁ (fun hnil => ?_) fun o' ho' => ?_
    · rw [hnil] at hlast
      exact hcompletes (hlast o rfl)
    · exact hlast o' (List.mem_getLast?_cons ho')

/-- A cooldown is one of a mail that was accepted. -/
theorem Series.accepted (hpersist : cfg.persist = true) (hconf : cfg.configured = true) (h : Series cfg w os w')
    (hw : ∀ slug, w.alerted slug ≠ 0 → ∃ m ∈ w.mails, m.accepted = true ∧ m.sent = w.alerted slug ∧
      ∃ a ∈ m.alerts, alertSlug a.title = slug) :
    ∀ slug, w'.alerted slug ≠ 0 → ∃ m ∈ w'.mails, m.accepted = true ∧ m.sent = w'.alerted slug ∧
      ∃ a ∈ m.alerts, alertSlug a.title = slug := by
  induction h with
  | nil => exact hw
  | cons hrun _ ih =>
    obtain ⟨new, hnew, hsent, halerted, -⟩ := hrun.sound (wp_runWatchdog hpersist hconf)
    apply ih
    intro slug hne
    rw [hnew]
    rcases halerted slug with hs | hs | ⟨hs, m, hm, haccepted, hslug⟩
    · rw [hs] at hne ⊢
      obtain ⟨m, hm, hmail⟩ := hw slug hne
      exact ⟨m, List.mem_append_left _ hm, hmail⟩
    · exact absurd hs hne
    · exact ⟨m, List.mem_append_right _ hm, haccepted, (hsent m hm).trans hs.symm, hslug⟩

/-- What holds of the scheduled runs of a Worker that has an address to mail to. -/
structure Vigilant (cfg : Config) : Prop where
  /-- A check that fails on every run of a series, with which a mail of it is attempted in time. Before, it
  has completed, and the cooldown has been reset, or there was no run. -/
  attempted : ∀ {before rest : List Occasion} {first : Occasion} {w w' : World} {interval : ℕ} {c : Check},
    Series cfg .fresh before w → (∀ o ∈ before, o.steady = true) →
    (∀ o ∈ before.getLast?, (o.check c).failure = none) →
    Series cfg w (first :: rest) w' → (∀ o ∈ first :: rest, (o.check c).failure.isSome) →
    Spaced interval (first :: rest) → (∃ o ∈ first :: rest, first.now + blindGraceMs ≤ o.now) →
    ∃ new, w'.mails = w.mails ++ new ∧ ∃ m ∈ new, Paged c m.alerts ∧ first.now ≤ m.sent ∧
      m.sent ≤ first.now + blindGraceMs + interval
  /-- A cooldown began with a mail that was accepted. -/
  cooldown : ∀ {os : List Occasion} {w : World} {slug : String}, Series cfg .fresh os w → w.alerted slug ≠ 0 →
    ∃ m ∈ w.mails, m.accepted = true ∧ m.sent = w.alerted slug ∧ ∃ a ∈ m.alerts, alertSlug a.title = slug

/-- **No check stays blind in silence.** -/
theorem blind_checks_alerted (hpersist : cfg.persist = true) (hconf : cfg.configured = true) : Vigilant cfg where
  attempted {before rest first w w' interval c} hbefore hsteady hcompleted hseries hfails hspaced hlast := by
    have hclear : w.alerted c.slug = 0 :=
      hbefore.cleared hpersist hconf hsteady (fun hne => absurd rfl hne) (fun _ => rfl) hcompleted
    refine hseries.attempted hpersist hconf hfails hspaced hlast (fun o ho => ?_) fun now _ hheld => ?_
    · obtain rfl : first = o := Option.some.inj ho
      exact ⟨le_rfl, by omega, sinceOf_le⟩
    · rw [hclear] at hheld
      exact absurd hheld.1 (lt_irrefl 0)
  cooldown hseries := hseries.accepted hpersist hconf (fun _ hne => absurd rfl hne) _

end

namespace Demo

def worker : Config := ⟨true, true, none, some "key", none, some "ops"⟩

/-- Horizon is busy whenever the sponsor's account is looked at. -/
def busy (c : Check) : Outcome := if c = .sponsorAccount then ⟨[], some ⟨true, "429"⟩⟩ else ⟨[], none⟩

/-- A run at each quarter of an hour. -/
def quarter (n : ℕ) : Occasion := ⟨n * 900000 + 1, Nat.succ_pos _, busy, ⟨[], false⟩, true⟩

def quarters : List Occasion := (List.range 4).map quarter

/-- A store that does what it is told, and a mail service that accepts. -/
def meet (o : Occasion) (w : World) : (q : Ask) → q.Answer × World
  | .check c => (o.check c, w)
  | .halt => (o.halt, w)
  | .kvReadBlind => (some w.blind, w)
  | .kvSetBlind ledger => (true, { w with blind := ledger })
  | .kvGetAlerting => (some w.alerting, w)
  | .kvSetAlerting slugs => (true, { w with alerting := slugs })
  | .kvGetAlerted slug => (some (w.alerted slug), w)
  | .kvSetAlerted slug value => (true, w.stamp slug value)
  | .email alerts => (true, { w with mails := w.mails ++ [⟨o.now, alerts, true⟩] })

theorem steps_meet {o : Occasion} {w : World} {q : Ask} : Steps o w q (meet o w q).1 (meet o w q).2 := by
  cases q with
  | check c => exact ⟨rfl, rfl⟩
  | halt => exact ⟨rfl, rfl⟩
  | kvReadBlind => exact ⟨rfl, .inl rfl⟩
  | kvSetBlind ledger => exact .inl rfl
  | kvGetAlerting => exact ⟨rfl, .inl rfl⟩
  | kvSetAlerting slugs => exact .inl rfl
  | kvGetAlerted slug => exact ⟨rfl, .inl rfl⟩
  | kvSetAlerted slug value => exact .inl rfl
  | email alerts => exact rfl

def after (os : List Occasion) (w : World) : World :=
  os.foldl (fun w o => ((runWatchdog worker o.now).runIn (meet o) w).2) w

theorem series_after {os : List Occasion} {w : World} : Series worker w os (after os w) := by
  induction os generalizing w with
  | nil => exact .nil
  | cons o os ih =>
    have hrun := @runs_runIn _ _ _ _ _ (Steps o) (runWatchdog worker o.now) w (meet o) fun _ _ => steps_meet
    match hresult : ((runWatchdog worker o.now).runIn (meet o) w).1 with
    | .ok alerts =>
      rw [hresult] at hrun
      exact .cons hrun ih
    | .error e => exact e.elim

end Demo

/-- Horizon stays busy for three quarters of an hour: there is a mail of it, and the cooldown that it begins. -/
theorem blind_checks_alerted_worker :
    (∃ new, (Demo.after Demo.quarters .fresh).mails = [] ++ new ∧ ∃ m ∈ new, Paged .sponsorAccount m.alerts ∧
      1 ≤ m.sent ∧ m.sent ≤ 1 + blindGraceMs + 900000) ∧
    ∃ m ∈ (Demo.after Demo.quarters .fresh).mails, m.accepted = true ∧
      m.sent = (Demo.after Demo.quarters .fresh).alerted Check.sponsorAccount.slug ∧
      ∃ a ∈ m.alerts, alertSlug a.title = Check.sponsorAccount.slug := by
  have hvigilant : Vigilant Demo.worker := blind_checks_alerted rfl (by decide)
  have hquarters : Demo.quarters = Demo.quarter 0 :: [Demo.quarter 1, Demo.quarter 2, Demo.quarter 3] := rfl
  refine ⟨?_, hvigilant.cooldown Demo.series_after (by decide +kernel)⟩
  rw [hquarters]
  apply hvigilant.attempted .nil (List.forall_mem_nil _) nofun Demo.series_after
  · decide
  · simp [Spaced, Demo.quarter]
  · exact ⟨Demo.quarter 3, by simp, by decide⟩

end Lumenia.Sponsor.Watchdog.Paging

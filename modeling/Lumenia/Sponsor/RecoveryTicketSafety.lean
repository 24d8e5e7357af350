import Lumenia.Sponsor.RecoveryOtpSafety

/-!
# Recovery tickets

A ticket is minted for a call that a code has let in, is taken in one command, and lets one more call
in. So each accepted code lets in two calls at most, over every run.
-/

namespace Lumenia.Sponsor.Recovery

open Dialogue

variable {ι : Type}

/-! ## Who is let in -/

/-- The code that `m` had accepted for the id lets `j` in: itself, or by the ticket it was given. -/
def LetsIn (journal : List (Event ι)) (id : String) (m j : ι) : Prop :=
  (∃ issuer, .accepted m id issuer ∈ journal) ∧
    (j = m ∨ ∃ t, .minted m t id ∈ journal ∧ .took j t id (some m) ∈ journal)

/-- What reads, writes and tickets owe to the calls before them. A call reads and writes a row once,
a ticket is taken once, and a call that has taken a ticket is given none. -/
def Economy (requests : ι → Request) (before : List (Event ι)) : Event ι → Prop
  | .readRow i id _ => (requests i).gated = true →
    (∃ m, LetsIn before id m i) ∧ ∀ id' row', .readRow i id' row' ∉ before
  | .wroteRow i id _ => (∃ m, LetsIn before id m i) ∧ ∀ id' row', .wroteRow i id' row' ∉ before
  | .minted i _ id => (∃ issuer, .accepted i id issuer ∈ before) ∧
    (∀ t' id', .minted i t' id' ∉ before) ∧ ∀ t' id' m, .took i t' id' m ∉ before
  | .took i t id minter => ∃ m, minter = some m ∧ .minted m t id ∈ before ∧
    (∀ j t' id', .took j t' id' (some m) ∉ before) ∧ (∀ t' id', .minted i t' id' ∉ before) ∧
    ∀ t' id' m', .took i t' id' m' ∉ before
  | _ => True

/-- The law asks nothing of the event. -/
def Event.free : Event ι → Bool
  | readRow .. | wroteRow .. | minted .. | took .. => false
  | _ => true

/-- The event is about a ticket. -/
def Event.ofTicket : Event ι → Bool
  | minted .. | took .. => true
  | _ => false

section

variable {requests : ι → Request} {journal journal' : List (Event ι)} {id id' t t' : String}
  {i j m : ι}

theorem LetsIn.mono (h : LetsIn journal id m j) : LetsIn (journal ++ journal') id m j := by
  obtain ⟨⟨issuer, hmem⟩, hown | ⟨t, hminted, htook⟩⟩ := h
  · exact ⟨⟨issuer, List.mem_append_left _ hmem⟩, .inl hown⟩
  · exact ⟨⟨issuer, List.mem_append_left _ hmem⟩,
      .inr ⟨t, List.mem_append_left _ hminted, List.mem_append_left _ htook⟩⟩

/-- A call is given one ticket. -/
theorem minted_once (h : Lawful (Economy requests) journal) (hm : .minted m t id ∈ journal)
    (hm' : .minted m t' id' ∈ journal) : t = t' ∧ id = id' := by
  by_contra hne
  have hevents : (Event.minted m t id : Event ι) ≠ .minted m t' id' := fun heq => by
    cases heq
    exact hne ⟨rfl, rfl⟩
  rcases h.order hm hm' hevents with ⟨before, hmem, -, hnone, -⟩ | ⟨before, hmem, -, hnone, -⟩
  · exact hnone t id hmem
  · exact hnone t' id' hmem

/-- A ticket is taken once. -/
theorem took_once (h : Lawful (Economy requests) journal) (hi : .took i t id (some m) ∈ journal)
    (hj : .took j t' id' (some m) ∈ journal) : i = j ∧ t = t' ∧ id = id' := by
  by_contra hne
  have hevents : (Event.took i t id (some m) : Event ι) ≠ .took j t' id' (some m) := fun heq => by
    cases heq
    exact hne ⟨rfl, rfl, rfl⟩
  rcases h.order hi hj hevents with ⟨before, hmem, m', hm', -, hnone, -⟩ |
    ⟨before, hmem, m', hm', -, hnone, -⟩
  · cases hm'
    exact hnone i t id hmem
  · cases hm'
    exact hnone j t' id' hmem

/-- A ticket is taken after it was minted, and with what it was minted for. -/
theorem minted_of_took {minter : Option ι} (h : Lawful (Economy requests) journal)
    (hi : .took i t id minter ∈ journal) : ∃ m, minter = some m ∧ .minted m t id ∈ journal := by
  obtain ⟨before, after, rfl, m, hm, hminted, -⟩ := h.of_mem hi
  exact ⟨m, hm, List.mem_append_left _ hminted⟩

theorem accepted_of_minted (h : Lawful (Economy requests) journal) (hm : .minted m t id ∈ journal) :
    ∃ issuer, .accepted m id issuer ∈ journal := by
  obtain ⟨before, after, rfl, ⟨issuer, hmem⟩, -⟩ := h.of_mem hm
  exact ⟨issuer, List.mem_append_left _ hmem⟩

/-- A call that has taken a ticket is given none. -/
theorem not_minted_of_took {minter : Option ι} (h : Lawful (Economy requests) journal)
    (hi : .took i t id minter ∈ journal) : .minted i t' id' ∉ journal := by
  intro hm
  rcases h.order hi hm nofun with ⟨before, hmem, -, -, hnone⟩ | ⟨before, hmem, -, -, -, -, hnone, -⟩
  · exact hnone t id minter hmem
  · exact hnone t' id' hmem

/-- An accepted code lets in two calls at most. -/
theorem letsIn_le_two {calls : List ι} (h : Lawful (Economy requests) journal)
    (hnodup : calls.Nodup) (hcalls : ∀ j ∈ calls, LetsIn journal id m j) : calls.length ≤ 2 := by
  have hothers : ∀ j ∈ calls, ∀ j' ∈ calls, j ≠ m → j' ≠ m → j = j' := by
    intro j hj j' hj' hjm hjm'
    obtain ⟨-, hown | ⟨t, -, htook⟩⟩ := hcalls j hj
    · exact absurd hown hjm
    · obtain ⟨-, hown | ⟨t', -, htook'⟩⟩ := hcalls j' hj'
      · exact absurd hown hjm'
      · exact (took_once h htook htook').1
  match calls, hnodup, hothers with
  | [], _, _ => exact Nat.zero_le 2
  | [_], _, _ => exact Nat.le_succ 1
  | [_, _], _, _ => exact le_rfl
  | a :: b :: c :: rest, hnodup, hothers =>
    simp only [List.nodup_cons, List.mem_cons, not_or] at hnodup
    obtain ⟨⟨hab, hac, -⟩, ⟨hbc, -⟩, -⟩ := hnodup
    by_cases ha : a = m
    · subst ha
      exact absurd (hothers b (by simp) c (by simp) (Ne.symm hab) (Ne.symm hac)) hbc
    · by_cases hb : b = m
      · subst hb
        exact absurd (hothers a (by simp) c (by simp) ha (Ne.symm hbc)) hac
      · exact absurd (hothers a (by simp) b (by simp) ha hb) hab

end

/-! ## The invariant -/

section

variable {requests : ι → Request} {w w' : World ι} {i : ι} {id t : String}

structure TicketsSound (requests : ι → Request) (w : World ι) : Prop where
  lawful : Lawful (Economy requests) w.journal
  /-- A ticket in the store was minted, and not taken since. -/
  held : ∀ t id, w.held (.ticket t) = some id → ∃ m, w.minter t = some m ∧
    .minted m t id ∈ w.journal ∧ ∀ j t' id', .took j t' id' (some m) ∉ w.journal

theorem ticketsSound_empty : TicketsSound requests .empty where
  lawful := lawful_nil
  held := nofun

/-- A step that mints and takes no ticket. -/
theorem TicketsSound.aside {es : List (Event ι)} (h : TicketsSound requests w)
    (hjournal : w'.journal = w.journal ++ es) (hlaw : Lawful (Economy requests) (w.journal ++ es))
    (hes : ∀ e ∈ es, e.ofTicket = false)
    (hheld : ∀ t id, w'.held (.ticket t) = some id → w.held (.ticket t) = some id)
    (hminter : w'.minter = w.minter) : TicketsSound requests w' := by
  constructor
  · rw [hjournal]
    exact hlaw
  · intro t id hid
    obtain ⟨m, hm, hminted, hnone⟩ := h.held t id (hheld t id hid)
    rw [hjournal, hminter]
    refine ⟨m, hm, List.mem_append_left _ hminted, fun j t' id' hmem => ?_⟩
    rcases List.mem_append.mp hmem with hmem | hmem
    · exact hnone j t' id' hmem
    · cases hes _ hmem

/-- A step of which the law asks nothing. -/
theorem TicketsSound.free {es : List (Event ι)} (h : TicketsSound requests w)
    (hjournal : w'.journal = w.journal ++ es) (hes : ∀ e ∈ es, e.free = true)
    (hheld : ∀ t id, w'.held (.ticket t) = some id → w.held (.ticket t) = some id)
    (hminter : w'.minter = w.minter) : TicketsSound requests w' := by
  refine h.aside hjournal ?_ (fun e he => ?_) hheld hminter
  · clear hjournal
    induction es using List.reverseRecOn with
    | nil =>
      rw [List.append_nil]
      exact h.lawful
    | append_singleton es e ih =>
      rw [← List.append_assoc]
      refine (ih fun e he => hes e (by simp [he])).concat ?_
      have he := hes e (by simp)
      cases e with
      | readRow => cases he
      | wroteRow => cases he
      | minted => cases he
      | took => cases he
      | _ => trivial
  · have hfree := hes e he
    cases e with
    | minted => cases hfree
    | took => cases hfree
    | _ => rfl

theorem TicketsSound.expires (h : TicketsSound requests w) (hw : World.Expires w w') :
    TicketsSound requests w' := by
  have hjournal : w'.journal = w.journal ++ [] := by rw [hw.journal, List.append_nil]
  refine h.free hjournal nofun (fun t id hid => ?_) (by cases hw <;> rfl)
  cases hw with
  | @otp id' =>
    have hne : Key.ticket t ≠ .otp id' := nofun
    rwa [World.held_put_of_ne hne] at hid
  | @ticket t' =>
    by_cases ht : t = t'
    · subst ht
      rw [World.held_put] at hid
      cases hid
    · rwa [World.held_put_of_ne fun heq => ht (Key.ticket.inj heq)] at hid
  | otpreq => exact hid
  | otptry => exact hid
  | proof => exact hid

/-- A ticket is stored. -/
theorem TicketsSound.mint (h : TicketsSound requests w)
    (hlaw : Economy requests w.journal (.minted i t id)) :
    TicketsSound requests { (w.put (.ticket t) (some id)).log (.minted i t id) with
      minter := Function.update w.minter t (some i) } := by
  have hlawful : Lawful (Economy requests) (w.journal ++ [.minted i t id]) := h.lawful.concat hlaw
  constructor
  · exact hlawful
  · intro t' id' hid
    by_cases ht : t' = t
    · subst ht
      obtain rfl : id = id' := by simpa [World.log] using hid
      refine ⟨i, Function.update_self .., by simp, fun j t'' id'' hmem => ?_⟩
      have hold : .took j t'' id'' (some i) ∈ w.journal := by simpa using hmem
      obtain ⟨m, hm, hminted⟩ := minted_of_took h.lawful hold
      cases hm
      exact hlaw.2.1 t'' id'' hminted
    · have hheld : w.held (.ticket t') = some id' := by
        simpa [World.log, World.held_put_of_ne fun heq => ht (Key.ticket.inj heq)] using hid
      obtain ⟨m, hm, hminted, hnone⟩ := h.held t' id' hheld
      refine ⟨m, by simpa [Function.update_of_ne ht] using hm, by simp [hminted], ?_⟩
      intro j t'' id'' hmem
      have hold : .took j t'' id'' (some m) ∈ w.journal := by simpa using hmem
      exact hnone j t'' id'' hold

/-- A ticket is taken. -/
theorem TicketsSound.take (h : TicketsSound requests w)
    (hnew : ∀ t' id', .minted i t' id' ∉ w.journal)
    (hnew' : ∀ t' id' m, .took i t' id' m ∉ w.journal) : TicketsSound requests (w.take i t) := by
  cases hheld : w.held (.ticket t) with
  | none =>
    have hsame : w.take i t = w := by simp only [World.take, hheld]
    rw [hsame]
    exact h
  | some id =>
    obtain ⟨m, hm, hminted, hnone⟩ := h.held t id hheld
    have htake : w.take i t = (w.put (.ticket t) none).log (.took i t id (some m)) := by
      simp only [World.take, hheld, hm]
    rw [htake]
    constructor
    · exact h.lawful.concat ⟨m, rfl, hminted, hnone, hnew, hnew'⟩
    · intro t' id' hid
      by_cases ht : t' = t
      · subst ht
        simp [World.log] at hid
      · have hheld' : w.held (.ticket t') = some id' := by
          simpa [World.log, World.held_put_of_ne fun heq => ht (Key.ticket.inj heq)] using hid
        obtain ⟨m', hm', hminted', hnone'⟩ := h.held t' id' hheld'
        refine ⟨m', hm', by simp [hminted'], fun j t'' id'' hmem => ?_⟩
        rcases List.mem_append.mp hmem with hmem | hmem
        · exact hnone' j t'' id'' hmem
        · cases List.mem_singleton.mp hmem
          exact ht (minted_once h.lawful hminted' hminted).1

end

/-! ## What a call is let in by -/

section

variable {L : List (Event ι)} {i : ι} {id : String}

theorem Budgeted.free (h : Budgeted i id L) : ∀ e ∈ L, e.free = true := by
  cases h <;> simp [Event.free]

/-- A call that a code has let in has touched no row and no ticket. -/
theorem Verified.free (h : Verified i id L) : ∀ e ∈ L, e.free = true := by
  obtain ⟨_, record, issuer, issuer', ⟨_, window, ⟨L₀, hbudget, rfl⟩, rfl⟩, rfl⟩ := h
  intro e he
  simp only [List.mem_append, List.mem_singleton] at he
  obtain ((he | rfl) | rfl) | rfl := he
  · exact hbudget.free e he
  · rfl
  · rfl
  · rfl

theorem Verified.accepted (h : Verified i id L) : ∃ issuer, .accepted i id issuer ∈ L := by
  obtain ⟨L₀, record, issuer, issuer', -, rfl⟩ := h
  exact ⟨issuer', by simp⟩

/-- A call that was let in has not written, and has not read before it reads. -/
theorem not_wrote_of_admitted (h : Verified i id L ∨ Redeemed i id L) {id' : String}
    {row : StoredRow} : .wroteRow i id' row ∉ L := by
  intro hmem
  rcases h with hverified | ⟨t, minter, rfl⟩
  · cases hverified.free _ hmem
  · simp at hmem

theorem not_read_of_admitted (h : Verified i id L ∨ Redeemed i id L) {id' : String}
    {row : Option StoredRow} : .readRow i id' row ∉ L := by
  intro hmem
  rcases h with hverified | ⟨t, minter, rfl⟩
  · cases hverified.free _ hmem
  · simp at hmem

variable [DecidableEq ι] {requests : ι → Request} {w : World ι}

/-- What lets a call in has been accepted. -/
theorem TicketsSound.letsIn (h : TicketsSound requests w) (hL : ∀ e ∈ L, e ∈ deeds i w.journal)
    (hadmitted : Verified i id L ∨ Redeemed i id L) : ∃ m, LetsIn w.journal id m i := by
  rcases hadmitted with hverified | ⟨t, minter, rfl⟩
  · obtain ⟨issuer, hmem⟩ := hverified.accepted
    exact ⟨i, ⟨issuer, (mem_deeds.mp (hL _ hmem)).1⟩, .inl rfl⟩
  · have htook : .took i t id minter ∈ w.journal := (mem_deeds.mp (hL _ (by simp))).1
    obtain ⟨m, rfl, hminted⟩ := minted_of_took h.lawful htook
    exact ⟨m, accepted_of_minted h.lawful hminted, .inr ⟨t, hminted, htook⟩⟩

end

/-! ## Over runs -/

section

variable [DecidableEq ι] {env : Env} {requests : ι → Request} {w : World ι} {i : ι} {d : Chance}
  {q : Ask}

/-- A call that has done nothing is new to the journal. -/
theorem not_mem_of_deeds {e : Event ι} (hi : e.actor = i) (he : e ∉ deeds i w.journal) :
    e ∉ w.journal :=
  fun hmem => he (mem_deeds.mpr ⟨hmem, hi⟩)

theorem TicketsSound.mints {t id : String} {ex : Option ℕ} (h : TicketsSound requests w)
    (hdue : Due env (requests i) i (deeds i w.journal) (.set (.ticket t) id ex)) :
    TicketsSound requests (react env.sha256Hex i d w (.set (.ticket t) id ex)).2 := by
  obtain ⟨L₀, row, hverified, hL⟩ := hdue
  have hfree : ∀ e ∈ deeds i w.journal, e.ofTicket = false := by
    intro e he
    rw [hL, List.mem_append, List.mem_singleton] at he
    rcases he with he | rfl
    · have hfree := hverified.free e he
      cases e with
      | minted => cases hfree
      | took => cases hfree
      | _ => rfl
    · rfl
  change TicketsSound requests (if d.executed = true then w.store i (.ticket t) id else w)
  split
  · refine h.mint ⟨?_, fun t' id' => not_mem_of_deeds rfl fun hmem => ?_,
      fun t' id' m => not_mem_of_deeds rfl fun hmem => ?_⟩
    · obtain ⟨issuer, hmem⟩ := hverified.accepted
      exact ⟨issuer, (mem_deeds.mp (hL ▸ List.mem_append_left _ hmem)).1⟩
    · cases hfree _ hmem
    · cases hfree _ hmem
  · exact h

theorem TicketsSound.reads {id : String} (h : TicketsSound requests w)
    (hdue : Due env (requests i) i (deeds i w.journal) (.get (.email id))) :
    TicketsSound requests (react env.sha256Hex i d w (.get (.email id))).2 := by
  have hlaw : Economy requests w.journal (.readRow i id (w.held (.email id))) := by
    intro hgated
    have hadmitted : Verified i id (deeds i w.journal) ∨ Redeemed i id (deeds i w.journal) := by
      simpa [Due, hgated] using hdue
    exact ⟨h.letsIn (fun e he => he) hadmitted,
      fun id' row' => not_mem_of_deeds rfl (not_read_of_admitted hadmitted)⟩
  exact h.aside rfl (h.lawful.concat hlaw) (by simp [Event.ofTicket]) (fun _ _ hid => hid) rfl

theorem TicketsSound.writes {id : String} {row : StoredRow} {ex : Option ℕ}
    (h : TicketsSound requests w)
    (hdue : Due env (requests i) i (deeds i w.journal) (.set (.email id) row ex)) :
    TicketsSound requests (react env.sha256Hex i d w (.set (.email id) row ex)).2 := by
  obtain ⟨L₀, old, hL, hadmitted, -⟩ := hdue
  have hlaw : Economy requests w.journal (.wroteRow i id row) := by
    refine ⟨h.letsIn (fun e he => hL ▸ List.mem_append_left _ he) hadmitted, fun id' row' => ?_⟩
    refine not_mem_of_deeds (i := i) rfl fun hmem => ?_
    rw [hL, List.mem_append, List.mem_singleton] at hmem
    rcases hmem with hmem | hmem
    · exact not_wrote_of_admitted hadmitted hmem
    · cases hmem
  change TicketsSound requests (if d.executed = true then w.store i (.email id) row else w)
  split
  · refine h.aside rfl (h.lawful.concat hlaw) (by simp [Event.ofTicket]) (fun t id' hid => ?_) rfl
    have hne : Key.ticket t ≠ .email id := nofun
    have hput : (w.put (.email id) (some row)).held (.ticket t) = some id' := hid
    rwa [World.held_put_of_ne hne] at hput
  · exact h

/-- The other questions. -/
theorem TicketsSound.rest (h : TicketsSound requests w)
    (hfree : ∀ e : Event ι, e.arises q → e.free = true) (hq : ∀ t, q.changes (.ticket t) = false) :
    TicketsSound requests (react env.sha256Hex i d w q).2 := by
  have hframe : Frame q w (react env.sha256Hex i d w q).2 := frame_react
  obtain ⟨es, hes, harises⟩ : Adds i q w (react env.sha256Hex i d w q).2 := adds_react
  exact h.free hes (fun e he => hfree e (harises e he).2)
    (fun t id hid => (hframe.held (.ticket t) (hq t)).symm.trans hid)
    (funext fun t => hframe.minter t (hq t))

theorem TicketsSound.step (h : TicketsSound requests w)
    (hdue : Due env (requests i) i (deeds i w.journal) q) :
    TicketsSound requests (react env.sha256Hex i d w q).2 := by
  by_cases hmints : ∃ t id ex, q = .set (.ticket t) id ex
  · obtain ⟨t, id, ex, rfl⟩ := hmints
    exact h.mints hdue
  by_cases htakes : ∃ t, q = .getdel t
  · obtain ⟨t, rfl⟩ := htakes
    have hdeeds : deeds i w.journal = [] := hdue
    change TicketsSound requests (if d.executed = true then w.take i t else w)
    split
    · exact h.take (fun t' id' => not_mem_of_deeds (i := i) rfl (by simp [hdeeds]))
        fun t' id' m => not_mem_of_deeds (i := i) rfl (by simp [hdeeds])
    · exact h
  by_cases hreads : ∃ id, q = .get (.email id)
  · obtain ⟨id, rfl⟩ := hreads
    exact h.reads hdue
  by_cases hwrites : ∃ id row ex, q = .set (.email id) row ex
  · obtain ⟨id, row, ex, rfl⟩ := hwrites
    exact h.writes hdue
  by_cases hdeletes : ∃ t, q = .del (.ticket t)
  · obtain ⟨t, rfl⟩ := hdeletes
    change TicketsSound requests (if d.executed = true then w.put (.ticket t) none else w)
    split
    · exact h.expires .ticket
    · exact h
  refine h.rest (fun e harises => ?_) fun t => ?_
  · cases e with
    | readRow j id row => exact absurd ⟨id, harises⟩ hreads
    | wroteRow j id row =>
      obtain ⟨ex, rfl⟩ := harises
      exact absurd ⟨id, row, ex, rfl⟩ hwrites
    | minted j t id =>
      obtain ⟨ex, rfl⟩ := harises
      exact absurd ⟨t, id, ex, rfl⟩ hmints
    | took j t id minter => exact absurd ⟨t, harises⟩ htakes
    | _ => rfl
  · cases q with
    | set key v ex =>
      refine decide_eq_false fun heq => hmints ?_
      subst heq
      exact ⟨t, v, ex, rfl⟩
    | del key =>
      refine decide_eq_false fun heq => hdeletes ?_
      subst heq
      exact ⟨t, rfl⟩
    | getdel t' => exact absurd ⟨t', rfl⟩ htakes
    | _ => rfl

variable {x : Crowd ι Ask.Answer Thrown Served (World ι)}

/-- **The ticket economy**, in every run: a read or write of a row behind the gate follows a code
accepted for its id, by the call itself or by the one whose ticket it has taken; an accepted code lets
in two calls at most, each of which reads and writes a row once; a ticket is taken once, for the id it
was minted for; and a call that has taken a ticket is given none. -/
theorem ticket_economy (hrun : Run env .none requests x) :
    Lawful (Economy requests) x.world.journal ∧
      (∀ id m (calls : List ι), calls.Nodup → (∀ j ∈ calls, LetsIn x.world.journal id m j) →
        calls.length ≤ 2) ∧
      (∀ i j m t t' id id', .took i t id (some m) ∈ x.world.journal →
        .took j t' id' (some m) ∈ x.world.journal → i = j ∧ t = t' ∧ id = id') ∧
      (∀ i t id minter, .took i t id minter ∈ x.world.journal →
        ∃ m, minter = some m ∧ .minted m t id ∈ x.world.journal) ∧
      ∀ i t t' id id' minter, .took i t id minter ∈ x.world.journal →
        .minted i t' id' ∉ x.world.journal := by
  obtain ⟨hsound, -⟩ := served ticketsSound_empty (fun w w' h => h.expires)
    (fun i w d q h hdue _ _ => h.step hdue) (fun i => behaves_serve) hrun
  exact ⟨hsound.lawful, fun id m calls => letsIn_le_two hsound.lawful,
    fun i j m t t' id id' => took_once hsound.lawful, fun i t id minter => minted_of_took hsound.lawful,
    fun i t t' id id' minter => not_minted_of_took hsound.lawful⟩

end

namespace Demo

def ticket : String := .ofList (List.replicate 64 'b')

def unsigned : RecoveryBody where
  id := some (.str boxId)
  box := none
  code := some (.str "123456")
  ticket := none
  owner := none
  replace := false
  aliasId := none
  aliasProof := none

/-- A row is stored unsigned, a fetch with a second code is given a ticket, and a write takes it. -/
def fetches : ℕ → Request
  | 0 | 2 => .recoveryOtp (some (.str "a@b.c")) .recovery
  | 1 => .recovery unsigned
  | 3 => .recoveryFetch (some (.str boxId)) (some (.str "123456"))
  | 4 => .recovery { unsigned with code := none, ticket := some (.str ticket) }
  | _ => .verify none none

def ticketed : List (ℕ × Chance) :=
  steps 0 6 ++ steps 1 8 ++ steps 2 6 ++ steps 3 7 ++ [(3, { chance with text := ticket })] ++
    steps 3 1 ++ steps 4 3

abbrev afterFetches : Crowd ℕ Ask.Answer Thrown Served (World ℕ) :=
  (opening env fetches).play (react env.sha256Hex) ticketed

end Demo

theorem ticket_economy_in_turn : Run Demo.env .none Demo.fetches Demo.afterFetches ∧
    .took 4 Demo.ticket Demo.boxId (some 3) ∈ Demo.afterFetches.world.journal ∧
    .minted 3 Demo.ticket Demo.boxId ∈ Demo.afterFetches.world.journal := by
  obtain ⟨hfair, htook⟩ :
      (opening Demo.env Demo.fetches).fairly (react Demo.env.sha256Hex) (fun _ d _ q => d.fair q)
        Demo.ticketed = true ∧
      .took 4 Demo.ticket Demo.boxId (some 3) ∈ Demo.afterFetches.world.journal := by
    decide +kernel
  have hrun : Run Demo.env .none Demo.fetches Demo.afterFetches :=
    leads_play (fun _ d _ _ hd => ⟨d, hd, trivial, rfl⟩) hfair
  obtain ⟨-, -, -, hminted, -⟩ := ticket_economy hrun
  obtain ⟨m, hm, hmem⟩ := hminted 4 Demo.ticket Demo.boxId (some 3) htook
  cases hm
  exact ⟨hrun, htook, hmem⟩

end Lumenia.Sponsor.Recovery

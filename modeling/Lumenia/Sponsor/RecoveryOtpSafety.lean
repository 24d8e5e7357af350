import Lumenia.Sponsor.RecoveryCalls
import Mathlib.Tactic.Common

/-!
# Recovery codes: single use

A code is accepted at the deletion of its record, and a wrong guess counts when it is written back.
Both are separate from the read before them, so what holds over every run holds where no other call
has touched the record in between (`Undisturbed`).
-/

namespace Lumenia.Sponsor.Recovery

open Dialogue

variable {ι : Type}

/-! ## What a code owes to the past -/

/-- A newer code was issued for the id after that of `m`. -/
def Superseded (journal : List (Event ι)) (id : String) (m : ι) : Prop :=
  ∃ before i after, journal = before ++ .issued i id :: after ∧ .issued m id ∈ before

section

variable [DecidableEq ι]

/-- A wrong guess at the code of `m`. -/
def isMiss (id : String) (m : ι) : Event ι → Bool
  | .missed _ id' issuer => id' = id && issuer = some m
  | _ => false

def misses (journal : List (Event ι)) (id : String) (m : ι) : ℕ := journal.countP (isMiss id m)

/-- The code of `m` was accepted, was superseded or has exhausted its tries. -/
def Spent (journal : List (Event ι)) (id : String) (m : ι) : Prop :=
  (∃ j, .accepted j id (some m) ∈ journal) ∨ Superseded journal id m ∨ maxTries ≤ misses journal id m

/-- Only an issued code is accepted, and only while it is not spent. -/
def SingleUse (before : List (Event ι)) : Event ι → Prop
  | .accepted _ id issuer => ∃ m, issuer = some m ∧ .issued m id ∈ before ∧ ¬Spent before id m
  | _ => True

/-- The record that the call has read is still there, and the command is executed. -/
def intact (i : ι) (d : Chance) (w : World ι) (id : String) : Bool :=
  (lastSeen (deeds i w.journal)).all fun s =>
    d.executed && decide (w.held (.otp id) = some s.1) && decide (w.issuer id = s.2)

/-- No other call has touched the record between the look that a call has taken at it and the moment
it accepts the code or writes a wrong guess back. -/
def Undisturbed : Condition ι := fun i d w q =>
  match q with
  | .set (.otp id) _ _ => intact i d w id = true
  | .del (.otp id) => matched (deeds i w.journal) = true → intact i d w id = true
  | _ => True

/-- The code of `m` can be accepted, after so many wrong guesses. -/
structure Live (journal : List (Event ι)) (id : String) (m : ι) (tries : ℕ) : Prop where
  issued : .issued m id ∈ journal
  unused : ∀ j, .accepted j id (some m) ∉ journal
  newest : ¬Superseded journal id m
  tries : misses journal id m = tries

end

/-- The id of the code that an event changes. -/
def Event.codeId : Event ι → Option String
  | issued _ id | missed _ id _ | accepted _ id _ => some id
  | _ => none

section

variable {journal : List (Event ι)} {e : Event ι} {id : String} {m : ι}

theorem superseded_concat : Superseded (journal ++ [e]) id m ↔
    Superseded journal id m ∨ (∃ i, e = .issued i id) ∧ .issued m id ∈ journal := by
  constructor
  · rintro ⟨before, i, after, heq, hm⟩
    rcases List.eq_nil_or_concat after with rfl | ⟨rest, last, rfl⟩
    · obtain ⟨rfl, hlast⟩ := List.append_inj' heq rfl
      exact .inr ⟨⟨i, List.singleton_inj.mp hlast⟩, hm⟩
    · have hsplit : journal ++ [e] = (before ++ .issued i id :: rest) ++ [last] := by simpa using heq
      exact .inl ⟨before, i, rest, (List.append_inj' hsplit rfl).1, hm⟩
  · rintro (⟨before, i, after, rfl, hm⟩ | ⟨⟨i, rfl⟩, hm⟩)
    · exact ⟨before, i, after ++ [e], by simp, hm⟩
    · exact ⟨journal, i, [], rfl, hm⟩

variable [DecidableEq ι]

theorem misses_concat :
    misses (journal ++ [e]) id m = misses journal id m + if isMiss id m e then 1 else 0 := by
  simp [misses, List.countP_append, List.countP_singleton]

/-- An event about another code, or about none, leaves this one as it is. -/
theorem Live.concat {tries : ℕ} (h : Live journal id m tries) (he : e.codeId ≠ some id) :
    Live (journal ++ [e]) id m tries where
  issued := List.mem_append_left _ h.issued
  unused j hj := by
    rcases List.mem_append.mp hj with hj | hj
    · exact h.unused j hj
    · rw [← List.mem_singleton.mp hj] at he
      exact he rfl
  newest hs := by
    rcases superseded_concat.mp hs with hs | ⟨⟨i, rfl⟩, -⟩
    · exact h.newest hs
    · exact he rfl
  tries := by
    have hno : isMiss id m e = false := by
      cases e with
      | missed j id' issuer =>
        have hid : id' ≠ id := fun heq => he (congrArg some heq)
        simp [isMiss, hid]
      | _ => rfl
    rw [misses_concat, hno, h.tries]
    rfl

theorem Live.append {tries : ℕ} {es : List (Event ι)} (h : Live journal id m tries)
    (hes : ∀ e ∈ es, e.codeId ≠ some id) : Live (journal ++ es) id m tries := by
  induction es using List.reverseRecOn with
  | nil => simpa using h
  | append_singleton es e ih =>
    rw [← List.append_assoc]
    exact (ih fun e he => hes e (by simp [he])).concat (hes e (by simp))

/-- One more wrong guess. -/
theorem Live.missed {tries : ℕ} {i : ι} (h : Live journal id m tries) :
    Live (journal ++ [.missed i id (some m)]) id m (tries + 1) where
  issued := List.mem_append_left _ h.issued
  unused j hj := by
    rcases List.mem_append.mp hj with hj | hj
    · exact h.unused j hj
    · simp at hj
  newest hs := by
    rcases superseded_concat.mp hs with hs | ⟨⟨i, hi⟩, -⟩
    · exact h.newest hs
    · cases hi
  tries := by
    rw [misses_concat, h.tries]
    simp [isMiss]

/-- A code that can still be accepted is not spent. -/
theorem Live.not_spent {tries : ℕ} (h : Live journal id m tries) (htries : tries < maxTries) :
    ¬Spent journal id m := by
  rintro (⟨j, hj⟩ | hs | hmax)
  · exact h.unused j hj
  · exact h.newest hs
  · rw [h.tries] at hmax
    omega

end

/-! ## The invariant -/

section

variable {w w' : World ι} {i : ι}

/-- The codes are as before, except for records that are gone. -/
structure Aside (w w' : World ι) : Prop where
  journal : ∃ es : List (Event ι), w'.journal = w.journal ++ es ∧ ∀ e ∈ es, e.codeId = none
  issuer : w'.issuer = w.issuer
  held : ∀ id record, w'.held (.otp id) = some record → w.held (.otp id) = some record

/-- A record goes. -/
theorem aside_drop {id : String} : Aside w (w.put (.otp id) none) := by
  refine ⟨⟨[], by simp, by simp⟩, rfl, fun id' record h => ?_⟩
  by_cases hid : id' = id
  · subst hid
    rw [World.held_put] at h
    cases h
  · rwa [World.held_put_of_ne fun heq => hid (Key.otp.inj heq)] at h

variable [DecidableEq ι]

structure CodesSound (w : World ι) : Prop where
  lawful : Lawful SingleUse w.journal
  /-- A record under a key is that of the code that can still be accepted. -/
  live : ∀ id record, w.held (.otp id) = some record →
    ∃ m, w.issuer id = some m ∧ Live w.journal id m record.tries
  missed : ∀ j id m, .missed j id (some m) ∈ w.journal → .issued m id ∈ w.journal

theorem codesSound_empty : CodesSound (World.empty : World ι) where
  lawful := lawful_nil
  live := nofun
  missed := nofun

theorem CodesSound.aside (h : CodesSound w) (hw : Aside w w') : CodesSound w' := by
  obtain ⟨⟨es, hjournal, hes⟩, hissuer, hheld⟩ := hw
  constructor
  · rw [hjournal]
    clear hjournal
    induction es using List.reverseRecOn with
    | nil => simpa using h.lawful
    | append_singleton es e ih =>
      rw [← List.append_assoc]
      refine (ih fun e he => hes e (by simp [he])).concat ?_
      have he := hes e (by simp)
      cases e with
      | accepted j id issuer => cases he
      | _ => trivial
  · intro id record hrecord
    obtain ⟨m, hm, hlive⟩ := h.live id record (hheld id record hrecord)
    refine ⟨m, (congrFun hissuer id).trans hm, ?_⟩
    rw [hjournal]
    refine hlive.append fun e he hid => ?_
    rw [hes e he] at hid
    cases hid
  · intro j id m hmem
    rw [hjournal] at hmem ⊢
    rcases List.mem_append.mp hmem with hmem | hmem
    · exact List.mem_append_left _ (h.missed j id m hmem)
    · cases hes _ hmem

theorem CodesSound.expires (h : CodesSound w) (hw : World.Expires w w') : CodesSound w' := by
  refine h.aside ⟨⟨[], by simp [hw.journal], by simp⟩, ?_, fun id record hrecord => ?_⟩
  · cases hw <;> rfl
  · cases hw with
    | otp => exact aside_drop.held id record hrecord
    | @ticket t =>
      have hne : Key.otp id ≠ .ticket t := nofun
      rwa [World.held_put_of_ne hne] at hrecord
    | otpreq => exact hrecord
    | otptry => exact hrecord
    | proof => exact hrecord

/-- Of all steps only those that store or delete a record touch the codes. -/
theorem aside_react {sha256Hex : String → String} {d : Chance} {q : Ask}
    (hq : ∀ id, q.changes (.otp id) = false) : Aside w (react sha256Hex i d w q).2 := by
  obtain ⟨es, hes, harises⟩ : Adds i q w (react sha256Hex i d w q).2 := adds_react
  have hframe : Frame q w (react sha256Hex i d w q).2 := frame_react
  refine ⟨⟨es, hes, fun e he => ?_⟩, funext fun id => hframe.issuer id (hq id),
    fun id record h => (hframe.held (.otp id) (hq id)).symm.trans h⟩
  have hfrom := (harises e he).2
  cases e with
  | issued j id =>
    obtain ⟨v, ex, rfl⟩ := hfrom
    simp [Ask.changes] at hq
  | missed j id issuer =>
    obtain ⟨v, ex, rfl⟩ := hfrom
    simp [Ask.changes] at hq
  | accepted j id issuer =>
    cases hfrom
    simp [Ask.changes] at hq
  | _ => rfl

variable {env : Env} {requests : ι → Request} {d : Chance} {q : Ask}

theorem of_intact {id : String} {record : OtpRecord} {issuer : Option ι}
    (h : intact i d w id = true) (hseen : lastSeen (deeds i w.journal) = some (record, issuer)) :
    d.executed = true ∧ w.held (.otp id) = some record ∧ w.issuer id = issuer := by
  simpa [intact, hseen, and_assoc] using h

/-- A fresh code takes the place of the one before. -/
theorem CodesSound.issue {id : String} {record : OtpRecord} (h : CodesSound w)
    (hdeeds : deeds i w.journal = []) (htries : record.tries = 0) :
    CodesSound (w.store i (.otp id) record) := by
  have hnone : lastSeen (deeds i w.journal) = none := by
    rw [hdeeds]
    rfl
  have hnew : ∀ id', .issued i id' ∉ w.journal := fun id' hmem => by
    have hdeed : .issued i id' ∈ deeds i w.journal := mem_deeds.mpr ⟨hmem, rfl⟩
    rw [hdeeds] at hdeed
    cases hdeed
  have hstore : w.store i (.otp id) record =
      { (w.put (.otp id) (some record)).log (.issued i id) with
        issuer := Function.update w.issuer id (some i) } := by
    simp only [World.store, hnone]
  rw [hstore]
  constructor
  · exact h.lawful.concat trivial
  · intro id' record' hrecord
    by_cases hid : id' = id
    · subst hid
      obtain rfl : record = record' := by simpa [World.log] using hrecord
      refine ⟨i, Function.update_self .., by simp, fun j hj => ?_, fun hs => ?_, ?_⟩
      · rcases List.mem_append.mp hj with hj | hj
        · obtain ⟨before, after, heq, m, hm, hissued, -⟩ := h.lawful.of_mem hj
          cases hm
          exact hnew id' (heq ▸ List.mem_append_left _ hissued)
        · simp at hj
      · rcases superseded_concat.mp hs with ⟨before, j, after, heq, hissued⟩ | ⟨-, hissued⟩
        · exact hnew id' (heq ▸ List.mem_append_left _ hissued)
        · exact hnew id' hissued
      · rw [htries, misses, List.countP_eq_zero]
        intro e he hmiss
        cases e with
        | missed j id'' issuer =>
          obtain ⟨rfl, rfl⟩ : id'' = id' ∧ issuer = some i := by simpa [isMiss] using hmiss
          rcases List.mem_append.mp he with he | he
          · exact hnew id'' (h.missed j id'' i he)
          · simp at he
        | _ => cases hmiss
    · have hheld : w.held (.otp id') = some record' := by
        simpa [World.log, World.held_put_of_ne fun heq => hid (Key.otp.inj heq)] using hrecord
      obtain ⟨m, hm, hlive⟩ := h.live id' record' hheld
      refine ⟨m, by simpa [Function.update_of_ne hid] using hm, hlive.concat fun heq => hid ?_⟩
      exact (Option.some.inj heq).symm
  · intro j id' m hmem
    rcases List.mem_append.mp hmem with hmem | hmem
    · exact List.mem_append_left _ (h.missed j id' m hmem)
    · simp at hmem

/-- A wrong guess is written back over the record it was compared with. -/
theorem CodesSound.miss {id : String} {record : OtpRecord} {issuer : Option ι} (h : CodesSound w)
    (hseen : lastSeen (deeds i w.journal) = some (record, issuer))
    (hheld : w.held (.otp id) = some record) (hissuer : w.issuer id = issuer) :
    CodesSound (w.store i (.otp id) { record with tries := record.tries + 1 }) := by
  obtain ⟨m, hm, hlive⟩ := h.live id record hheld
  obtain rfl : issuer = some m := hissuer.symm.trans hm
  have hstore : w.store i (.otp id) { record with tries := record.tries + 1 } =
      { (w.put (.otp id) (some { record with tries := record.tries + 1 })).log
        (.missed i id (some m)) with issuer := Function.update w.issuer id (some m) } := by
    simp only [World.store, hseen]
  rw [hstore]
  constructor
  · exact h.lawful.concat trivial
  · intro id' record' hrecord
    by_cases hid : id' = id
    · subst hid
      obtain rfl : _ = record' := by simpa [World.log] using hrecord
      exact ⟨m, Function.update_self .., hlive.missed⟩
    · have hheld' : w.held (.otp id') = some record' := by
        simpa [World.log, World.held_put_of_ne fun heq => hid (Key.otp.inj heq)] using hrecord
      obtain ⟨m', hm', hlive'⟩ := h.live id' record' hheld'
      refine ⟨m', by simpa [Function.update_of_ne hid] using hm', hlive'.concat fun heq => hid ?_⟩
      exact (Option.some.inj heq).symm
  · intro j id' m' hmem
    rcases List.mem_append.mp hmem with hmem | hmem
    · exact List.mem_append_left _ (h.missed j id' m' hmem)
    · obtain ⟨rfl, rfl, rfl⟩ : j = i ∧ id' = id ∧ m' = m := by simpa using hmem
      exact List.mem_append_left _ hlive.issued

/-- A right guess consumes the record it was compared with. -/
theorem CodesSound.accept {id : String} {record : OtpRecord} {issuer : Option ι} (h : CodesSound w)
    (hmatched : matched (deeds i w.journal) = true)
    (hseen : lastSeen (deeds i w.journal) = some (record, issuer))
    (hheld : w.held (.otp id) = some record) (hissuer : w.issuer id = issuer)
    (htries : record.tries < maxTries) :
    CodesSound ((w.judge i (.otp id)).remove i (.otp id)) := by
  obtain ⟨m, hm, hlive⟩ := h.live id record hheld
  obtain rfl : issuer = some m := hissuer.symm.trans hm
  have hjudge : (w.judge i (.otp id)).remove i (.otp id) =
      (w.put (.otp id) none).log (.accepted i id (some m)) := by
    simp only [World.judge, hmatched, hseen, if_true, World.remove]
    rfl
  rw [hjudge]
  constructor
  · exact h.lawful.concat ⟨m, rfl, hlive.issued, hlive.not_spent htries⟩
  · intro id' record' hrecord
    by_cases hid : id' = id
    · subst hid
      simp [World.log] at hrecord
    · have hheld' : w.held (.otp id') = some record' := by
        simpa [World.log, World.held_put_of_ne fun heq => hid (Key.otp.inj heq)] using hrecord
      obtain ⟨m', hm', hlive'⟩ := h.live id' record' hheld'
      refine ⟨m', hm', hlive'.concat fun heq => hid ?_⟩
      exact (Option.some.inj heq).symm
  · intro j id' m' hmem
    rcases List.mem_append.mp hmem with hmem | hmem
    · exact List.mem_append_left _ (h.missed j id' m' hmem)
    · simp at hmem

theorem CodesSound.step (h : CodesSound w) (hdue : Due env (requests i) i (deeds i w.journal) q)
    (hmet : Undisturbed i d w q) : CodesSound (react env.sha256Hex i d w q).2 := by
  by_cases hset : ∃ id v ex, q = .set (.otp id) v ex
  · obtain ⟨id, value, ex, rfl⟩ := hset
    change CodesSound (if d.executed = true then w.store i (.otp id) value else w)
    rcases hdue with ⟨hdeeds, htries⟩ | ⟨record, issuer, hcompared, rfl⟩
    · split
      · exact h.issue hdeeds htries
      · exact h
    · obtain ⟨hexec, hheld, hissuer⟩ := of_intact hmet hcompared.lastSeen
      rw [if_pos hexec]
      exact h.miss hcompared.lastSeen hheld hissuer
  by_cases hdel : ∃ id, q = .del (.otp id)
  · obtain ⟨id, rfl⟩ := hdel
    change CodesSound (if d.executed = true then (w.judge i (.otp id)).remove i (.otp id)
      else w.judge i (.otp id))
    obtain ⟨record, issuer, hlooked | ⟨htries, hcompared⟩⟩ := hdue
    · have hjudge : w.judge i (.otp id) = w := by
        simp only [World.judge, hlooked.not_matched, Bool.false_eq_true, if_false]
      rw [hjudge]
      split
      · exact h.aside aside_drop
      · exact h
    · obtain ⟨hexec, hheld, hissuer⟩ := of_intact (hmet hcompared.matched) hcompared.lastSeen
      rw [if_pos hexec]
      exact h.accept hcompared.matched hcompared.lastSeen hheld hissuer htries
  refine h.aside (aside_react fun id => ?_)
  cases q with
  | set key v ex =>
    refine decide_eq_false fun heq => hset ?_
    subst heq
    exact ⟨id, v, ex, rfl⟩
  | del key =>
    refine decide_eq_false fun heq => hdel ?_
    subst heq
    exact ⟨id, rfl⟩
  | getdel t => simp [Ask.changes]
  | _ => rfl

end

/-! ## Over runs -/

section

variable [DecidableEq ι] {env : Env} {requests : ι → Request}
  {x : Crowd ι Ask.Answer Thrown Served (World ι)}

/-- **Codes are for one use**, in every run where no other call touches the record between a call's
look at it and what the call makes of it: only issued codes are accepted, none once it is spent, none
twice, and a verification that says yes has accepted one. -/
theorem codes_single_use (hrun : Run env Undisturbed requests x) :
    Lawful SingleUse x.world.journal ∧
      (∀ i j id m, .accepted i id (some m) ∈ x.world.journal →
        .accepted j id (some m) ∈ x.world.journal → i = j) ∧
      ∀ i id code, requests i = .verify id code → x.prog i = .ret (.ok (.verdict .ok)) →
        ∃ s m, text id = some s ∧ .accepted i s (some m) ∈ x.world.journal := by
  obtain ⟨hsound, htold⟩ := served codesSound_empty (fun w w' h => h.expires)
    (fun i w d q h hdue _ hmet => h.step hdue hmet) (fun i => behaves_serve) hrun
  refine ⟨hsound.lawful, fun i j id m hi hj => ?_, fun i id code hreq hret => ?_⟩
  · by_contra hne
    rcases hsound.lawful.order hi hj (fun heq => hne (Event.accepted.inj heq).1) with
      ⟨before, hmem, m', hm, -, hspent⟩ | ⟨before, hmem, m', hm, -, hspent⟩
    · cases hm
      exact hspent (.inl ⟨i, hmem⟩)
    · cases hm
      exact hspent (.inl ⟨j, hmem⟩)
  · have hverified := htold i _ hret
    rw [hreq] at hverified
    obtain ⟨s, hs, L₀, record, issuer, issuer', -, hL⟩ := hverified
    have hmem : .accepted i s issuer' ∈ x.world.journal := by
      refine (mem_deeds.mp (?_ : _ ∈ deeds i x.world.journal)).1
      rw [hL]
      simp
    obtain ⟨before, after, -, m, rfl, -⟩ := hsound.lawful.of_mem hmem
    exact ⟨s, m, hs, hmem⟩

end

namespace Demo

def boxId : String := .ofList (List.replicate 64 'a')

/-- Stands for a hash: short, and the id of the one email. -/
def digest (s : String) : String :=
  if s = "a@b.c" then boxId else if s = boxId ++ ":" ++ "123456" then "c0de" else s

def env : Env where
  sha256Hex := digest
  toLowerCase s := s
  verifies _ _ _ := true
  validateBox _ := .ok "\x7b\x7d"
  network := "testnet"
  requireOwner := false

/-- One code is mailed, and two calls verify with it. -/
def requests : ℕ → Request
  | 0 => .recoveryOtp (some (.str "a@b.c")) .recovery
  | 1 | 2 => .verify (some (.str boxId)) (some (.str "123456"))
  | _ => .verify none none

/-- All goes well, and the code that is drawn. -/
def chance : Chance := { Chance.fine with text := "123456" }

def steps (i n : ℕ) : List (ℕ × Chance) := List.replicate n (i, chance)

abbrev after (schedule : List (ℕ × Chance)) : Crowd ℕ Ask.Answer Thrown Served (World ℕ) :=
  (opening env requests).play (react env.sha256Hex) schedule

/-- Both calls compare before either deletes. -/
def together : List (ℕ × Chance) := steps 0 6 ++ steps 1 4 ++ steps 2 4 ++ steps 1 1 ++ steps 2 1

def inTurn : List (ℕ × Chance) := steps 0 6 ++ steps 1 5 ++ steps 2 2

/-- A fair step of a run without disturbance. -/
def calm (i : ℕ) (d : Chance) (w : World ℕ) (q : Ask) : Bool :=
  d.fair q &&
    match q with
    | .set (.otp id) _ _ => intact i d w id
    | .del (.otp id) => !matched (deeds i w.journal) || intact i d w id
    | _ => true

theorem undisturbed_of_calm {i : ℕ} {d : Chance} {w : World ℕ} {q : Ask} (h : calm i d w q = true) :
    d.fair q = true ∧ Undisturbed i d w q := by
  obtain ⟨hfair, hcalm⟩ := Bool.and_eq_true_iff.mp h
  refine ⟨hfair, ?_⟩
  unfold Undisturbed
  split
  · exact hcalm
  · intro hmatched
    simpa [hmatched] using hcalm
  · trivial

theorem run_of_fairly {schedule : List (ℕ × Chance)}
    (h : (opening env requests).fairly (react env.sha256Hex) (fun _ d _ q => d.fair q) schedule = true) :
    Run env .none requests (after schedule) :=
  leads_play (fun _ d _ _ hd => ⟨d, hd, trivial, rfl⟩) h

theorem run_of_calm {schedule : List (ℕ × Chance)}
    (h : (opening env requests).fairly (react env.sha256Hex) calm schedule = true) :
    Run env Undisturbed requests (after schedule) :=
  leads_play (fun _ d _ _ hd => ⟨d, (undisturbed_of_calm hd).1, (undisturbed_of_calm hd).2, rfl⟩) h

end Demo

theorem codes_single_use_in_turn : Run Demo.env Undisturbed Demo.requests (Demo.after Demo.inTurn) ∧
    ∃ m, .accepted 1 Demo.boxId (some m) ∈ (Demo.after Demo.inTurn).world.journal := by
  have hrun : Run Demo.env Undisturbed Demo.requests (Demo.after Demo.inTurn) :=
    Demo.run_of_calm (by decide +kernel)
  refine ⟨hrun, ?_⟩
  obtain ⟨-, -, hverify⟩ := codes_single_use hrun
  obtain ⟨s, m, hs, hmem⟩ := hverify 1 _ _ rfl (eq_ret_of_result (by decide +kernel))
  cases hs
  exact ⟨m, hmem⟩

/-- Two verifications accept one code. -/
theorem code_accepted_twice : ¬∀ (env : Env) (requests : ℕ → Request) x,
    Run env .none requests x → ∀ i j id m, .accepted i id (some m) ∈ x.world.journal →
      .accepted j id (some m) ∈ x.world.journal → i = j := by
  intro h
  obtain ⟨hfair, hone, htwo⟩ :
      (opening Demo.env Demo.requests).fairly (react Demo.env.sha256Hex) (fun _ d _ q => d.fair q)
        Demo.together = true ∧
      .accepted 1 Demo.boxId (some 0) ∈ (Demo.after Demo.together).world.journal ∧
      .accepted 2 Demo.boxId (some 0) ∈ (Demo.after Demo.together).world.journal := by
    decide +kernel
  cases h Demo.env Demo.requests _ (Demo.run_of_fairly hfair) 1 2 Demo.boxId 0 hone htwo

end Lumenia.Sponsor.Recovery

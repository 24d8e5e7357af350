import Lumenia.Sponsor.RecoveryOtpSafety

/-!
# Recovery rows: one email, one account

A row is bound to the account whose signature wrote it. The binding is checked on what a call has
read, and the row is written or deleted by a later command, so what holds over every run holds where
the binding has not changed in between (`SameOwner`).
-/

namespace Lumenia.Sponsor.Recovery

open Dialogue

variable {ι : Type}

/-! ## The rows of a journal -/

/-- The row of the id after the event. -/
def Event.onRow (id : String) (row : Option StoredRow) : Event ι → Option StoredRow
  | .wroteRow _ id' row' => if id' = id then some row' else row
  | .deletedRow _ id' => if id' = id then none else row
  | _ => row

def rowAfter (journal : List (Event ι)) (id : String) : Option StoredRow :=
  journal.foldl (Event.onRow id) none

/-- The hash of the account that the row of the id is bound to. -/
def boundTo (journal : List (Event ι)) (id : String) : Option String :=
  (rowAfter journal id).bind StoredRow.ownerHash

/-- A bound row is replaced by a row of the same account, and deleted, only by requests that this
account has signed. -/
def OneAccount (env : Env) (requests : ι → Request) (before : List (Event ι)) : Event ι → Prop
  | .wroteRow i id row => (∀ h, boundTo before id = some h → row.ownerHash = some h) ∧
    ∀ h, row.ownerHash = some h → Signs env (requests i) id h
  | .deletedRow i id => ∃ h, boundTo before id = some h ∧ Signs env (requests i) ("release:" ++ id) h
  | _ => True

/-- The account has let go of the id. -/
def Released (env : Env) (requests : ι → Request) (journal : List (Event ι)) (id h : String) : Prop :=
  ∃ k, .deletedRow k id ∈ journal ∧ Signs env (requests k) ("release:" ++ id) h

section

variable {env : Env} {requests : ι → Request} {journal : List (Event ι)} {e : Event ι}
  {id h h' : String} {i j : ι} {row row' : StoredRow}

theorem rowAfter_concat : rowAfter (journal ++ [e]) id = e.onRow id (rowAfter journal id) := by
  rw [rowAfter, List.foldl_append]
  rfl

theorem boundTo_concat :
    boundTo (journal ++ [e]) id = (e.onRow id (rowAfter journal id)).bind StoredRow.ownerHash := by
  rw [boundTo, rowAfter_concat]

theorem Released.mono {journal' : List (Event ι)} (hr : Released env requests journal id h) :
    Released env requests (journal ++ journal') id h := by
  obtain ⟨k, hmem, hsigned⟩ := hr
  exact ⟨k, List.mem_append_left _ hmem, hsigned⟩

/-- An account to which a row was bound has it, or has let go of it. -/
theorem bound_or_released (hlaw : Lawful (OneAccount env requests) journal)
    (hwrote : .wroteRow i id row ∈ journal) (hrow : row.ownerHash = some h) :
    boundTo journal id = some h ∨ Released env requests journal id h := by
  induction journal using List.reverseRecOn with
  | nil => cases hwrote
  | append_singleton journal e ih =>
    obtain ⟨hbefore, he⟩ := lawful_concat.mp hlaw
    rcases List.mem_append.mp hwrote with hmem | hmem
    · rcases ih hbefore hmem with hbound | hreleased
      · rw [boundTo_concat]
        cases e with
        | wroteRow j id' row' =>
          by_cases hid : id' = id
          · subst hid
            rw [Event.onRow, if_pos rfl]
            exact .inl (he.1 h hbound)
          · rw [Event.onRow, if_neg hid]
            exact .inl hbound
        | deletedRow j id' =>
          by_cases hid : id' = id
          · subst hid
            obtain ⟨h', hbound', hsigned⟩ := he
            obtain rfl : h' = h := Option.some.inj (hbound'.symm.trans hbound)
            exact .inr ⟨j, by simp, hsigned⟩
          · rw [Event.onRow, if_neg hid]
            exact .inl hbound
        | _ => exact .inl hbound
      · exact .inr hreleased.mono
    · obtain rfl := List.mem_singleton.mp hmem
      rw [boundTo_concat, Event.onRow, if_pos rfl]
      exact .inl hrow

/-- Of two accounts that have both bound the row of an id one has let go of it. -/
theorem one_account (hlaw : Lawful (OneAccount env requests) journal)
    (hi : .wroteRow i id row ∈ journal) (hj : .wroteRow j id row' ∈ journal)
    (hrow : row.ownerHash = some h) (hrow' : row'.ownerHash = some h') :
    h = h' ∨ Released env requests journal id h ∨ Released env requests journal id h' := by
  rcases bound_or_released hlaw hi hrow with hbound | hreleased
  · rcases bound_or_released hlaw hj hrow' with hbound' | hreleased
    · exact .inl (Option.some.inj (hbound.symm.trans hbound'))
    · exact .inr (.inr hreleased)
  · exact .inr (.inl hreleased)

end

/-! ## The invariant -/

section

variable [DecidableEq ι]

/-- The row that the call has read is still bound to the account it was bound to. -/
def sameOwner (i : ι) (w : World ι) (id : String) : Bool :=
  (lastRow (deeds i w.journal)).all fun old =>
    decide ((w.held (.email id)).bind StoredRow.ownerHash = old.bind StoredRow.ownerHash)

/-- The binding of a row has not changed between the look that a call has taken at it and the moment
the call writes or deletes it. -/
def SameOwner : Condition ι := fun i _ w q =>
  match q with
  | .set (.email id) _ _ | .del (.email id) => sameOwner i w id = true
  | _ => True

end

def Event.deletes : Event ι → Bool
  | deletedRow .. => true
  | _ => false

/-- The event writes or deletes a row. -/
def Event.ofRow : Event ι → Bool
  | wroteRow .. => true
  | e => e.deletes

structure RowsSound (env : Env) (requests : ι → Request) (w : World ι) : Prop where
  lawful : Lawful (OneAccount env requests) w.journal
  held : ∀ id, rowAfter w.journal id = w.held (.email id)

section

variable {env : Env} {requests : ι → Request} {w w' : World ι} {i : ι} {id : String}

theorem rowsSound_empty : RowsSound env requests .empty where
  lawful := lawful_nil
  held _ := rfl

/-- A step that writes and deletes no row. -/
theorem RowsSound.aside {es : List (Event ι)} (h : RowsSound env requests w)
    (hjournal : w'.journal = w.journal ++ es) (hes : ∀ e ∈ es, e.ofRow = false)
    (hheld : ∀ id, w'.held (.email id) = w.held (.email id)) : RowsSound env requests w' := by
  have hafter : Lawful (OneAccount env requests) (w.journal ++ es) ∧
      ∀ id, rowAfter (w.journal ++ es) id = w.held (.email id) := by
    clear hjournal
    induction es using List.reverseRecOn with
    | nil =>
      rw [List.append_nil]
      exact ⟨h.lawful, h.held⟩
    | append_singleton es e ih =>
      obtain ⟨hlaw, hrow⟩ := ih fun e he => hes e (by simp [he])
      have he := hes e (by simp)
      rw [← List.append_assoc]
      cases e with
      | wroteRow j id row => cases he
      | deletedRow j id => cases he
      | _ => exact ⟨hlaw.concat trivial, fun id => rowAfter_concat.trans (hrow id)⟩
  constructor
  · rw [hjournal]
    exact hafter.1
  · intro id
    rw [hjournal, hheld]
    exact hafter.2 id

theorem RowsSound.expires (h : RowsSound env requests w) (hw : World.Expires w w') :
    RowsSound env requests w' := by
  have hjournal : w'.journal = w.journal ++ [] := by rw [hw.journal, List.append_nil]
  refine h.aside hjournal nofun fun id => ?_
  cases hw with
  | @otp id' =>
    have hne : Key.email id ≠ .otp id' := nofun
    exact World.held_put_of_ne hne
  | @ticket t =>
    have hne : Key.email id ≠ .ticket t := nofun
    exact World.held_put_of_ne hne
  | otpreq => rfl
  | otptry => rfl
  | proof => rfl

theorem RowsSound.boundTo (h : RowsSound env requests w) :
    boundTo w.journal id = (w.held (.email id)).bind StoredRow.ownerHash := by
  rw [Recovery.boundTo, h.held]

theorem RowsSound.write {row : StoredRow} (h : RowsSound env requests w)
    (hsame : ∀ o, (w.held (.email id)).bind StoredRow.ownerHash = some o → row.ownerHash = some o)
    (hsigned : ∀ o, row.ownerHash = some o → Signs env (requests i) id o) :
    RowsSound env requests ((w.put (.email id) (some row)).log (.wroteRow i id row)) where
  lawful := by
    refine h.lawful.concat ⟨fun o ho => hsame o ?_, hsigned⟩
    rw [← h.boundTo]
    exact ho
  held id' := by
    rw [World.journal_log, World.journal_put, rowAfter_concat, Event.onRow, World.held_log]
    by_cases hid : id = id'
    · subst hid
      rw [if_pos rfl, World.held_put]
    · rw [if_neg hid, World.held_put_of_ne fun heq => hid (Key.email.inj heq).symm, h.held]

theorem RowsSound.delete {o : String} (h : RowsSound env requests w)
    (hbound : (w.held (.email id)).bind StoredRow.ownerHash = some o)
    (hsigned : Signs env (requests i) ("release:" ++ id) o) :
    RowsSound env requests ((w.put (.email id) none).log (.deletedRow i id)) where
  lawful := by
    refine h.lawful.concat ⟨o, ?_, hsigned⟩
    rw [← h.boundTo] at hbound
    exact hbound
  held id' := by
    rw [World.journal_log, World.journal_put, rowAfter_concat, Event.onRow, World.held_log]
    by_cases hid : id = id'
    · subst hid
      rw [if_pos rfl, World.held_put]
    · rw [if_neg hid, World.held_put_of_ne fun heq => hid (Key.email.inj heq).symm, h.held]

variable [DecidableEq ι] {d : Chance} {q : Ask}

theorem of_sameOwner {old : Option StoredRow} (h : sameOwner i w id = true)
    (hlast : lastRow (deeds i w.journal) = some old) :
    (w.held (.email id)).bind StoredRow.ownerHash = old.bind StoredRow.ownerHash := by
  simpa [sameOwner, hlast] using h

theorem RowsSound.step (h : RowsSound env requests w)
    (hdue : Due env (requests i) i (deeds i w.journal) q) (hmet : SameOwner i d w q) :
    RowsSound env requests (react env.sha256Hex i d w q).2 := by
  by_cases hset : ∃ id row ex, q = .set (.email id) row ex
  · obtain ⟨id, row, ex, rfl⟩ := hset
    obtain ⟨L₀, old, hL, -, hsigned, hkept⟩ := hdue
    have hlast : lastRow (deeds i w.journal) = some old := by rw [hL, lastRow_concat]
    change RowsSound env requests (if d.executed = true then w.store i (.email id) row else w)
    split
    · refine h.write (fun o ho => hkept o ?_) hsigned
      rwa [← of_sameOwner hmet hlast]
    · exact h
  by_cases hdel : ∃ id, q = .del (.email id)
  · obtain ⟨id, rfl⟩ := hdel
    obtain ⟨old, o, hL, howner, hsigned⟩ := hdue
    have hlast : lastRow (deeds i w.journal) = some (some old) := by
      rw [hL]
      rfl
    change RowsSound env requests (if d.executed = true then w.remove i (.email id) else w)
    split
    · refine h.delete ?_ hsigned
      rw [of_sameOwner hmet hlast]
      exact howner
    · exact h
  obtain ⟨es, hes, harises⟩ : Adds i q w (react env.sha256Hex i d w q).2 := adds_react
  have hframe : Frame q w (react env.sha256Hex i d w q).2 := frame_react
  refine h.aside hes (fun e he => ?_) fun id => hframe.held (.email id) ?_
  · have hfrom := (harises e he).2
    cases e with
    | wroteRow j id row =>
      obtain ⟨ex, rfl⟩ := hfrom
      exact absurd ⟨id, row, ex, rfl⟩ hset
    | deletedRow j id => exact absurd ⟨id, hfrom⟩ hdel
    | _ => rfl
  · cases q with
    | set key v ex =>
      refine decide_eq_false fun heq => hset ?_
      subst heq
      exact ⟨id, v, ex, rfl⟩
    | del key =>
      refine decide_eq_false fun heq => hdel ?_
      subst heq
      exact ⟨id, rfl⟩
    | getdel t => simp [Ask.changes]
    | _ => rfl

end

/-! ## Over runs -/

/-- What `/recovery` answers when the row is bound to the account that has signed. -/
def boundResponse : Response := ⟨200, [("ok", .bool true), ("bound", .bool true)]⟩

section

variable [DecidableEq ι] {env : Env} {requests : ι → Request}
  {x : Crowd ι Ask.Answer Thrown Served (World ι)}

/-- **One email, one account**, in every run where a binding does not change between a call's look at
the row and its write: a bound row is replaced and deleted only by requests of its account, and of two
accounts that are both told that the id is bound to them one has released it. -/
theorem one_email_one_account (hrun : Run env SameOwner requests x) :
    Lawful (OneAccount env requests) x.world.journal ∧
      (∀ id, rowAfter x.world.journal id = x.world.held (.email id)) ∧
      ∀ i j body body' id, requests i = .recovery body → requests j = .recovery body' →
        text body.id = some id → text body'.id = some id →
        x.prog i = .ret (.ok (.response boundResponse)) →
        x.prog j = .ret (.ok (.response boundResponse)) →
        ∃ owner owner', body.owner = some owner ∧ body'.owner = some owner' ∧
          (env.sha256Hex owner.pubkey = env.sha256Hex owner'.pubkey ∨
            Released env requests x.world.journal id (env.sha256Hex owner.pubkey) ∨
            Released env requests x.world.journal id (env.sha256Hex owner'.pubkey)) := by
  obtain ⟨hsound, htold⟩ := served rowsSound_empty (fun w w' h => h.expires)
    (fun i w d q h hdue _ hmet => h.step hdue hmet) (fun i => behaves_serve) hrun
  refine ⟨hsound.lawful, hsound.held, fun i j body body' id hi hj hid hid' hret hret' => ?_⟩
  have hbound {k : ι} {b : RecoveryBody} (hk : requests k = .recovery b) (hb : text b.id = some id)
      (hr : x.prog k = .ret (.ok (.response boundResponse))) : ∃ row owner,
      b.owner = some owner ∧ .wroteRow k id row ∈ x.world.journal ∧
      row.ownerHash = some (env.sha256Hex owner.pubkey) := by
    have htold' := htold k _ hr
    rw [hk] at htold'
    obtain ⟨id', row, o, hid', hwrote, hrow, owner, howner, rfl, -⟩ := htold' rfl
    obtain rfl : id' = id := Option.some.inj (hid'.symm.trans hb)
    exact ⟨row, owner, howner, (mem_deeds.mp hwrote).1, hrow⟩
  obtain ⟨row, owner, howner, hwrote, hrow⟩ := hbound hi hid hret
  obtain ⟨row', owner', howner', hwrote', hrow'⟩ := hbound hj hid' hret'
  exact ⟨owner, owner', howner, howner', one_account hsound.lawful hwrote hwrote' hrow hrow'⟩

end

namespace Demo

def alice : String := "GAAAAAAAAAAAAAAAAAAAAAAAAAAAAAAAAAAAAAAAAAAAAAAAAAAAAWHF"

def bob : String := "GAAQCAIBAEAQCAIBAEAQCAIBAEAQCAIBAEAQCAIBAEAQCAIBAEAQDZ7H"

def signedBy (pubkey : String) : OwnerProof := ⟨pubkey, some 0, "0", "00000000", ""⟩

def backup (pubkey : String) : RecoveryBody where
  id := some (.str boxId)
  box := none
  code := some (.str "123456")
  ticket := none
  owner := some (signedBy pubkey)
  replace := false
  aliasId := none
  aliasProof := none

/-- Two codes are mailed for one email, two accounts back up with them, and the first releases. -/
def backups : ℕ → Request
  | 0 | 2 => .recoveryOtp (some (.str "a@b.c")) .recovery
  | 1 => .recovery (backup alice)
  | 3 => .recovery (backup bob)
  | 4 => .recoveryRelease (some (.str boxId)) (some (signedBy alice))
  | _ => .verify none none

abbrev afterBackups (schedule : List (ℕ × Chance)) :
    Crowd ℕ Ask.Answer Thrown Served (World ℕ) :=
  (opening env backups).play (react env.sha256Hex) schedule

/-- Both backups find no row before either writes one. -/
def firstWrites : List (ℕ × Chance) := steps 0 6 ++ steps 1 9 ++ steps 2 6 ++ steps 3 10 ++ steps 1 1

def releaseBetween : List (ℕ × Chance) :=
  steps 0 6 ++ steps 1 10 ++ steps 4 5 ++ steps 2 6 ++ steps 3 10

/-- A fair step that finds the binding as it was read. -/
def steady (i : ℕ) (d : Chance) (w : World ℕ) (q : Ask) : Bool :=
  d.fair q &&
    match q with
    | .set (.email id) _ _ | .del (.email id) => sameOwner i w id
    | _ => true

theorem sameOwner_of_steady {i : ℕ} {d : Chance} {w : World ℕ} {q : Ask}
    (h : steady i d w q = true) : d.fair q = true ∧ SameOwner i d w q := by
  obtain ⟨hfair, hsame⟩ := Bool.and_eq_true_iff.mp h
  refine ⟨hfair, ?_⟩
  unfold SameOwner
  split
  · exact hsame
  · exact hsame
  · trivial

theorem run_of_steady {schedule : List (ℕ × Chance)}
    (h : (opening env backups).fairly (react env.sha256Hex) steady schedule = true) :
    Run env SameOwner backups (afterBackups schedule) :=
  leads_play (fun _ d _ _ hd => ⟨d, (sameOwner_of_steady hd).1, (sameOwner_of_steady hd).2, rfl⟩) h

end Demo

theorem one_email_one_account_in_turn :
    Run Demo.env SameOwner Demo.backups (Demo.afterBackups Demo.releaseBetween) ∧
      (Released Demo.env Demo.backups (Demo.afterBackups Demo.releaseBetween).world.journal
          Demo.boxId Demo.alice ∨
        Released Demo.env Demo.backups (Demo.afterBackups Demo.releaseBetween).world.journal
          Demo.boxId Demo.bob) := by
  obtain ⟨hsteady, hone, htwo⟩ :
      (opening Demo.env Demo.backups).fairly (react Demo.env.sha256Hex) Demo.steady
        Demo.releaseBetween = true ∧
      ((Demo.afterBackups Demo.releaseBetween).prog 1).result = some (.ok (.response boundResponse)) ∧
      ((Demo.afterBackups Demo.releaseBetween).prog 3).result =
        some (.ok (.response boundResponse)) := by
    decide +kernel
  have hrun := Demo.run_of_steady hsteady
  refine ⟨hrun, ?_⟩
  obtain ⟨owner, owner', howner, howner', hkeys⟩ := (one_email_one_account hrun).2.2 1 3 _ _
    Demo.boxId rfl rfl rfl rfl (eq_ret_of_result hone) (eq_ret_of_result htwo)
  cases howner
  cases howner'
  exact hkeys.resolve_left (by decide +kernel)

/-- Two accounts are told that one email backs them up, and neither has released it. -/
theorem two_accounts_bound : ¬∀ (env : Env) (requests : ℕ → Request) x, Run env .none requests x →
    ∀ i j body body' id, requests i = .recovery body → requests j = .recovery body' →
      text body.id = some id → text body'.id = some id →
      x.prog i = .ret (.ok (.response boundResponse)) →
      x.prog j = .ret (.ok (.response boundResponse)) →
      ∃ owner owner', body.owner = some owner ∧ body'.owner = some owner' ∧
        (env.sha256Hex owner.pubkey = env.sha256Hex owner'.pubkey ∨
          ∃ k, .deletedRow k id ∈ x.world.journal) := by
  intro h
  obtain ⟨hfair, hone, htwo, hkept⟩ :
      (opening Demo.env Demo.backups).fairly (react Demo.env.sha256Hex)
        (fun _ d _ q => d.fair q) Demo.firstWrites = true ∧
      ((Demo.afterBackups Demo.firstWrites).prog 1).result = some (.ok (.response boundResponse)) ∧
      ((Demo.afterBackups Demo.firstWrites).prog 3).result = some (.ok (.response boundResponse)) ∧
      (Demo.afterBackups Demo.firstWrites).world.journal.all (fun e => e.deletes = false) = true := by
    decide +kernel
  have hrun : Run Demo.env .none Demo.backups (Demo.afterBackups Demo.firstWrites) :=
    leads_play (fun _ d _ _ hd => ⟨d, hd, trivial, rfl⟩) hfair
  obtain ⟨owner, owner', howner, howner', hkeys | ⟨k, hdeleted⟩⟩ := h Demo.env Demo.backups _ hrun 1 3
    _ _ Demo.boxId rfl rfl rfl rfl (eq_ret_of_result hone) (eq_ret_of_result htwo)
  · cases howner
    cases howner'
    exact absurd hkeys (by decide +kernel)
  · cases List.all_eq_true.mp hkept _ hdeleted

end Lumenia.Sponsor.Recovery

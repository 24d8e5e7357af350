import Lumenia.Web.Claim

/-!
# Settling an undecided claim

`settleUnconfirmedClaim` against a clock that goes on and two readers that answer as they like. It
ends, and says "claimed" only on a report of success or on dollars seen. Where the relay has built the
transaction with its time bound before it answered, and the reports are true and not staler than the
margin, "did not land" is true as well. What the claim around it says, and what a device says that comes
back to it, rests on the same grounds.
-/

namespace Lumenia.Web.Claim

open Dialogue

/-! ## The claim's transaction -/

/-- The time bound that `relayClaimHandler` builds a claim with, in seconds. -/
def relayMaxTime (builtAt : ℕ) : ℕ := builtAt / 1000 + 60

/-- A relayed claim, and what becomes of it on the ledger: the close time of the ledger that includes
it, and whether it succeeds there. -/
structure ClaimTx where
  builtAt : ℕ
  included : Option (ℕ × Bool)
  inTime : ∀ r ∈ included, r.1 ≤ relayMaxTime builtAt

/-- A true report of the transaction, asked for at the moment `at_` of a clock that is `skew` ahead of
the ledger's: it shows all ledgers but those of the last `margin`. -/
structure ClaimTx.Reported (tx : ClaimTx) (skew : ℤ) (margin : ℕ) (at_ : ℕ) (status : String) : Prop where
  success : status = "SUCCESS" → ∃ t, tx.included = some (t, true)
  failed : status = "FAILED" → ∃ t, tx.included = some (t, false)
  notFound : status = "NOT_FOUND" → ∀ r ∈ tx.included, (at_ : ℤ) < r.1 * 1000 + skew + margin

/-- A claim that is not found that late is not on the ledger, and its time is over. -/
theorem ClaimTx.Reported.expired {tx : ClaimTx} {skew : ℤ} {margin at_ acceptedAt : ℕ}
    (h : tx.Reported skew margin at_ "NOT_FOUND") (hbuilt : tx.builtAt + skew ≤ acceptedAt)
    (hlate : acceptedAt + 60000 + margin ≤ at_) : tx.included = none := by
  apply Option.eq_none_iff_forall_not_mem.mpr
  intro r hr
  have htime : r.1 * 1000 ≤ tx.builtAt + 60000 := by
    have hle := tx.inTime r hr
    unfold relayMaxTime at hle
    omega
  have hfound := h.notFound rfl r hr
  omega

/-! ## A clock and two readers -/

/-- What is reported of the transaction with this hash, and when it was asked for. -/
structure Report where
  at_ : ℕ
  hash : String
  status : String

/-- What an account is seen to hold. -/
structure Balance where
  address : String
  held : ℤ

/-- An answer of the relay. -/
structure Reply where
  status : ℕ
  text : String

/-- The clock, what has been reported, the balances seen and the answers of the relay. -/
structure Watch where
  now : ℕ
  reports : List Report
  balances : List Balance
  replies : List Reply

/-- The answer is kept, or tells the time. -/
def Ask.isWatched : Ask → Bool
  | now | getTransaction _ | payoutStroops _ | text .. | sleep _ => true
  | _ => false

/-- Time passes at each step, and for certain while the app sleeps. -/
inductive Observes : Watch → (q : Ask) → q.Answer → Watch → Prop
  | now {w : Watch} {t : ℕ} (h : w.now ≤ t) : Observes w .now w.now { w with now := t }
  | report {w : Watch} {hash status : String} {t : ℕ} (h : w.now ≤ t) :
    Observes w (.getTransaction hash) (.ok status)
      { w with now := t, reports := w.reports ++ [⟨w.now, hash, status⟩] }
  | noReport {w : Watch} {hash message : String} {t : ℕ} (h : w.now ≤ t) :
    Observes w (.getTransaction hash) (.error message) { w with now := t }
  | balance {w : Watch} {address : String} {held : ℤ} {t : ℕ} (h : w.now ≤ t) :
    Observes w (.payoutStroops address) (.ok (some held))
      { w with now := t, balances := w.balances ++ [⟨address, held⟩] }
  | noBalance {w : Watch} {address : String} {t : ℕ} (h : w.now ≤ t) :
    Observes w (.payoutStroops address) (.ok none) { w with now := t }
  | balanceThrown {w : Watch} {address message : String} {t : ℕ} (h : w.now ≤ t) :
    Observes w (.payoutStroops address) (.error message) { w with now := t }
  | reply {w : Watch} {contract payout text : String} {kind : V2LinkKind} {status t : ℕ} (h : w.now ≤ t) :
    Observes w (.text contract kind payout status) (.ok text)
      { w with now := t, replies := w.replies ++ [⟨status, text⟩] }
  | noReply {w : Watch} {contract payout message : String} {kind : V2LinkKind} {status t : ℕ}
    (h : w.now ≤ t) :
    Observes w (.text contract kind payout status) (.error message) { w with now := t }
  | sleep {w : Watch} {ms t : ℕ} (h : w.now < t) : Observes w (.sleep ms) () { w with now := t }
  | other {w : Watch} {q : Ask} {a : q.Answer} {t : ℕ} (hq : q.isWatched = false) (h : w.now ≤ t) :
    Observes w q a { w with now := t }

/-- Nothing that was seen is forgotten. -/
structure Watch.Grows (w w' : Watch) : Prop where
  reports : w.reports ⊆ w'.reports
  balances : w.balances ⊆ w'.balances
  replies : w.replies ⊆ w'.replies

section

variable {w w' : Watch} {hash payout : String} {opts : SettleOptions}

/-- A verdict comes from a report; no verdict, and no time is lost. -/
theorem wp_askTransaction {post : Except Thrown (Settled ⊕ Bool) → Watch → Prop}
    (hsuccess : ∀ w', ⟨w.now, hash, "SUCCESS"⟩ ∈ w'.reports → post (.ok (.inl .claimed)) w')
    (hfailed : ∀ w', isHash hash = true → ⟨w.now, hash, "FAILED"⟩ ∈ w'.reports →
      post (.ok (.inl .notLanded)) w')
    (hopen : ∀ w' notFound, w.now ≤ w'.now →
      (notFound = true → isHash hash = true ∧ ⟨w.now, hash, "NOT_FOUND"⟩ ∈ w'.reports) →
      post (.ok (.inr notFound)) w') :
    (askTransaction hash).wp Observes post w := by
  unfold askTransaction
  split
  · next hnamed =>
    rw [wp_bind, wp_question]
    intro a w' hobserves
    cases hobserves with
    | @report _ status t ht =>
      have hmem : ⟨w.now, hash, status⟩ ∈ w.reports ++ [⟨w.now, hash, status⟩] := by simp
      rw [onValue_ok]
      dsimp only
      split
      · next hstatus =>
        subst hstatus
        exact hsuccess _ hmem
      · split
        · next hstatus =>
          subst hstatus
          exact hfailed _ hnamed hmem
        · refine hopen _ _ ht fun hfound => ⟨hnamed, ?_⟩
          rw [decide_eq_true_eq] at hfound
          subst hfound
          exact hmem
    | noReport ht => exact hopen _ _ ht nofun
    | other hq => cases hq
  · exact hopen w false le_rfl nofun

theorem wp_askBalance {post : Except Thrown Bool → Watch → Prop} {useBalance : Bool}
    (hyes : ∀ w' held, useBalance = true → ⟨payout, held⟩ ∈ w'.balances → 0 < held → post (.ok true) w')
    (hno : ∀ w', w.now ≤ w'.now → w.reports ⊆ w'.reports → post (.ok false) w') :
    (askBalance payout useBalance).wp Observes post w := by
  unfold askBalance
  split
  · next huse =>
    rw [wp_bind, wp_question]
    intro a w' hobserves
    cases hobserves with
    | @balance _ held t ht =>
      rw [onValue_ok]
      dsimp only
      by_cases hheld : 0 < held
      · rw [decide_eq_true hheld]
        exact hyes _ held huse (by simp) hheld
      · rw [decide_eq_false hheld]
        exact hno _ ht (List.Subset.refl _)
    | noBalance ht => exact hno _ ht (List.Subset.refl _)
    | balanceThrown ht => exact hno _ ht (List.Subset.refl _)
    | other hq => cases hq
  · exact hno w le_rfl (List.Subset.refl _)

/-- What a verdict rests on. -/
def Grounds (opts : SettleOptions) (hash payout : String) (w : Watch) : Settled → Prop
  | .claimed => (∃ t, ⟨t, hash, "SUCCESS"⟩ ∈ w.reports) ∨
    opts.useBalance.getD true = true ∧ ∃ held, ⟨payout, held⟩ ∈ w.balances ∧ 0 < held
  | .notLanded => isHash hash = true ∧ ((∃ t, ⟨t, hash, "FAILED"⟩ ∈ w.reports) ∨
    ∃ t, opts.deadline ≤ t ∧ ⟨t, hash, "NOT_FOUND"⟩ ∈ w.reports)
  | .unknown => True

/-- A verdict has its grounds; and there is one when the rounds are enough for the clock to pass the
deadline. -/
theorem wp_settleUnconfirmedClaim {rounds : ℕ} :
    (settleUnconfirmedClaim hash payout opts rounds).wp Observes (fun r w' =>
      match r with
      | .ok v => Grounds opts hash payout w' v
      | .error _ => rounds ≤ opts.deadline - w.now) w := by
  induction rounds generalizing w with
  | zero => exact Nat.zero_le _
  | succ rounds ih =>
    rw [settleUnconfirmedClaim, wp_bind, wp_question]
    intro a w₁ hobserves
    cases hobserves with
    | other hq => cases hq
    | @now t ht =>
    rw [onValue_ok, wp_bind]
    refine wp_askTransaction (fun w₂ hmem => ?_) (fun w₂ hnamed hmem => ?_)
      fun w₂ notFound hw₂ hfound => ?_
    · exact .inl ⟨_, hmem⟩
    · exact ⟨hnamed, .inl ⟨_, hmem⟩⟩
    · rw [onValue_ok]
      dsimp only
      rw [wp_bind]
      refine wp_askBalance (fun w₃ held huse hmem hheld => ?_) fun w₃ hw₃ hreports => ?_
      · exact .inr ⟨huse, held, hmem, hheld⟩
      · rw [onValue_ok, if_neg Bool.false_ne_true]
        split
        · next hlate =>
          cases notFound with
          | true =>
            obtain ⟨hnamed, hmem⟩ := hfound rfl
            exact ⟨hnamed, .inr ⟨_, le_trans hlate ht, hreports hmem⟩⟩
          | false => trivial
        · next hearly =>
          rw [wp_bind]
          intro a w₄ hobserves
          cases hobserves with
          | other hq => cases hq
          | @sleep _ t' ht' =>
          change (settleUnconfirmedClaim hash payout opts rounds).wp Observes _ _
          refine wp_mono (fun r w₅ hends => ?_) ih
          cases r with
          | ok v => exact hends
          | error e =>
            change t ≤ w₂.now at hw₂
            change rounds ≤ opts.deadline - t' at hends
            dsimp only
            omega

end

/-- **Settling never guesses.** However the readers answer, enough rounds end it; it says "claimed"
only where the transaction with this hash is reported as a success, or where the payout account is seen
with dollars and these count; it says "did not land" of no claim without a proper hash; and of a claim
that was built with its time bound before the relay answered, with true reports of its hash not staler
than the margin, it says so only where the claim failed, or is not on the ledger when its time is over. -/
theorem settle_never_guesses {w w' : Watch} {hash payout : String} {opts : SettleOptions}
    {rounds : ℕ} {r : Except Thrown Settled} (hrounds : opts.deadline - w.now < rounds)
    (hrun : Runs Observes (settleUnconfirmedClaim hash payout opts rounds) w r w') :
    ∃ v, r = .ok v ∧
      (v = .claimed → (∃ t, ⟨t, hash, "SUCCESS"⟩ ∈ w'.reports) ∨
        opts.useBalance.getD true = true ∧ ∃ held, ⟨payout, held⟩ ∈ w'.balances ∧ 0 < held) ∧
      (v = .notLanded → isHash hash = true ∧ ∀ (tx : ClaimTx) (skew : ℤ),
        tx.builtAt + skew ≤ opts.acceptedAt → 60000 ≤ opts.timeboundMs.getD timeboundMs →
        (∀ e ∈ w'.reports, e.hash = hash →
          tx.Reported skew (opts.marginMs.getD marginMs) e.at_ e.status) →
        (∃ t, tx.included = some (t, false)) ∨ tx.included = none) := by
  have hends := hrun.sound wp_settleUnconfirmedClaim
  obtain ⟨v, rfl⟩ : ∃ v, r = .ok v := by
    cases r with
    | ok v => exact ⟨v, rfl⟩
    | error e => exact absurd hrounds (not_lt.mpr hends)
  have hgrounds : Grounds opts hash payout w' v := hends
  refine ⟨v, rfl, ?_, ?_⟩
  · rintro rfl
    exact hgrounds
  · rintro rfl
    obtain ⟨hnamed, hgrounds⟩ := hgrounds
    refine ⟨hnamed, fun tx skew hbuilt hbound htrue => ?_⟩
    rcases hgrounds with ⟨t, hmem⟩ | ⟨t, hlate, hmem⟩
    · exact .inl ((htrue _ hmem rfl).failed rfl)
    · refine .inr ((htrue _ hmem rfl).expired hbuilt ?_)
      unfold SettleOptions.deadline at hlate
      dsimp only
      omega

namespace Demo

def hash : String := .ofList (List.replicate 64 'a')

/-- A claim built as the clock started, and never included. -/
def lost : ClaimTx := ⟨0, none, nofun⟩

def resumed : SettleOptions := { acceptedAt := 1000, useBalance := some false }

def late : Watch := ⟨81000, [], [], []⟩

/-- Asked for once, past the deadline. -/
theorem run_late : Runs Observes (settleUnconfirmedClaim hash "" resumed 1) late (.ok .notLanded)
    ⟨81000, [⟨81000, hash, "NOT_FOUND"⟩], [], []⟩ := by
  have hnamed : isHash hash = true := by decide +kernel
  simp only [settleUnconfirmedClaim, askTransaction, if_pos hnamed]
  exact .ask _ (.now le_rfl) (.ask (.ok "NOT_FOUND") (.report le_rfl) .ret)

end Demo

theorem settle_never_guesses_late :
    Demo.lost.included = none ∧ isHash Demo.hash = true := by
  obtain ⟨v, hv, -, hlanded⟩ := settle_never_guesses (by decide) Demo.run_late
  cases hv
  obtain ⟨hnamed, hfate⟩ := hlanded rfl
  have htrue : ∀ e ∈ [(⟨81000, Demo.hash, "NOT_FOUND"⟩ : Report)], e.hash = Demo.hash →
      Demo.lost.Reported 0 20000 e.at_ e.status := by
    intro e he _
    cases List.mem_singleton.mp he
    exact ⟨nofun, nofun, fun _ r hr => nomatch hr⟩
  refine ⟨(hfate Demo.lost 0 (by decide) (by decide) htrue).resolve_left ?_, hnamed⟩
  intro h
  obtain ⟨t, ht⟩ := h
  cases ht

/-! ## The claim around it -/

section

variable {w w' : Watch} {payout : String} {net : NetworkConfig} {kind : V2LinkKind} {fresh : Bool}
  {rounds : ℕ} {redact : String → String}

theorem Watch.Grows.refl : w.Grows w := ⟨List.Subset.refl _, List.Subset.refl _, List.Subset.refl _⟩

theorem Watch.Grows.trans {w'' : Watch} (h : w.Grows w') (h' : w'.Grows w'') : w.Grows w'' where
  reports := List.Subset.trans h.reports h'.reports
  balances := List.Subset.trans h.balances h'.balances
  replies := List.Subset.trans h.replies h'.replies

theorem Observes.grows {q : Ask} {a : q.Answer} (h : Observes w q a w') : w.Grows w' := by
  cases h with
  | report => exact ⟨List.subset_append_left _ _, List.Subset.refl _, List.Subset.refl _⟩
  | balance => exact ⟨List.Subset.refl _, List.subset_append_left _ _, List.Subset.refl _⟩
  | reply => exact ⟨List.Subset.refl _, List.Subset.refl _, List.subset_append_left _ _⟩
  | _ => exact ⟨List.Subset.refl _, List.Subset.refl _, List.Subset.refl _⟩

theorem wp_grows {α : Type} (p : Call α) : p.wp Observes (fun _ w' => w.Grows w') w := by
  induction p generalizing w with
  | ret r => exact .refl
  | ask q k ih => exact fun a w₁ hstep => wp_mono (fun _ _ hgrows => hstep.grows.trans hgrows) (ih a)

/-- What a claim rests on that is said to have gone through: the relay's word, a report of success of the
transaction that it named, or dollars in an account that was made for this claim. -/
def WentThrough (hash : Option Json) (payout : String) (fresh : Bool) (w : Watch) : Prop :=
  (∃ reply ∈ w.replies, readAnswer reply.status reply.text = .ok (.confirmed hash)) ∨
    ∃ named, hash = some (.str named) ∧ ((∃ t, ⟨t, named, "SUCCESS"⟩ ∈ w.reports) ∨
      fresh = true ∧ ∃ held, ⟨payout, held⟩ ∈ w.balances ∧ 0 < held)

theorem WentThrough.grow {hash : Option Json} (h : WentThrough hash payout fresh w) (hgrows : w.Grows w') :
    WentThrough hash payout fresh w' := by
  rcases h with ⟨reply, hreply, hread⟩ | ⟨named, hhash, ⟨t, hreport⟩ | ⟨hfresh, held, hheld, hpos⟩⟩
  · exact .inl ⟨reply, hgrows.replies hreply, hread⟩
  · exact .inr ⟨named, hhash, .inl ⟨t, hgrows.reports hreport⟩⟩
  · exact .inr ⟨named, hhash, .inr ⟨hfresh, held, hgrows.balances hheld, hpos⟩⟩

/-- What comes last in a sequence. -/
theorem wp_last {α β : Type} {p : Call α} {f : α → Call β} {post : Except Thrown β → Watch → Prop}
    (herror : ∀ e w', post (.error e) w') (hf : ∀ a w', (f a).wp Observes post w') :
    (p >>= f).wp Observes post w := by
  rw [wp_bind]
  refine wp_mono (fun r w' _ => ?_) (wp_of_forall fun _ _ => trivial)
  cases r with
  | ok a => exact hf a w'
  | error e => exact herror e w'

theorem wp_orThrow {α : Type} {a : Except String α} {post : Except Thrown α → Watch → Prop}
    (herror : ∀ e w', post (.error e) w') (hok : ∀ v, a = .ok v → post (.ok v) w) :
    (orThrow a).wp Observes post w := by
  cases a with
  | ok v => exact hok v rfl
  | error message => exact herror _ w

/-- A confirmed claim is one that the relay has answered so. -/
theorem wp_claimV2 : (claimV2 net kind payout).wp Observes (fun r w' =>
    ∀ hash, r = .ok (.confirmed hash) →
      ∃ reply ∈ w'.replies, readAnswer reply.status reply.text = .ok (.confirmed hash)) w := by
  unfold claimV2
  refine wp_last nofun fun contract w => ?_
  refine wp_last nofun fun message w => ?_
  refine wp_last nofun fun _ w => ?_
  refine wp_last nofun fun answer w => ?_
  refine wp_last nofun fun status w => ?_
  rw [wp_bind, wp_question]
  intro a w' hobserves
  rw [onValue_ok, wp_bind]
  refine wp_orThrow nofun fun text htext hash hread => ?_
  cases hobserves with
  | other hq => cases hq
  | reply ht =>
    obtain rfl := Except.ok.inj htext
    exact ⟨_, List.mem_append_right _ (List.mem_singleton_self _), hread⟩
  | noReply ht => cases htext

theorem wp_relayAndSettle : (relayAndSettle net kind payout fresh rounds).wp Observes (fun r w' =>
    ∀ hash, r = .ok hash → WentThrough hash payout fresh w') w := by
  unfold relayAndSettle
  rw [wp_bind]
  refine wp_mono (fun r w₁ hconfirmed => ?_) wp_claimV2
  cases r with
  | error e => exact nofun
  | ok relayed =>
    rw [onValue_ok]
    cases relayed with
    | confirmed hash =>
      intro hash' heq
      obtain rfl := Except.ok.inj heq
      exact .inl (hconfirmed hash rfl)
    | undecided named =>
      dsimp only
      refine wp_last nofun fun acceptedAt w₂ => ?_
      rw [wp_bind]
      refine wp_mono (fun r w₃ hsettled => ?_) wp_settleUnconfirmedClaim
      match r with
      | .error e => exact nofun
      | .ok .notLanded => exact nofun
      | .ok .unknown => exact nofun
      | .ok .claimed =>
        intro hash heq
        obtain rfl := Except.ok.inj heq
        exact .inr ⟨named, rfl, hsettled⟩

theorem wp_claimTo : (claimTo redact net kind payout fresh rounds).wp Observes (fun r w' =>
    ∀ hash publicKey seeded link, r = .ok (.claimed hash publicKey seeded link) →
      WentThrough hash publicKey seeded w') w := by
  unfold claimTo
  refine wp_last nofun fun _ w₁ => ?_
  rw [wp_bind, wp_outcome]
  refine wp_mono (fun r w₂ hthrough => ?_) wp_relayAndSettle
  rw [onValue_ok]
  cases r with
  | ok hash =>
    dsimp only
    rw [wp_bind]
    refine wp_mono (fun r w₃ hgrows => ?_) (wp_grows _)
    cases r with
    | error e => exact nofun
    | ok u =>
      intro hash' publicKey seeded link heq
      cases heq
      exact (hthrough hash rfl).grow hgrows
  | error e =>
    dsimp only
    split
    · exact wp_last nofun fun _ _ => nofun
    · exact nofun

/-- **A claim is said to have gone through on these grounds only.** -/
theorem claimed_on_grounds {group : Bool} {hash : Option Json} {publicKey : String} {seeded : Bool}
    {link : V2LinkKind} (hrun : Runs Observes (claimV2ToSponsoredAccount redact net group rounds) w
      (.ok (.claimed hash publicKey seeded link)) w') : WentThrough hash publicKey seeded w' := by
  have hwp : (claimV2ToSponsoredAccount redact net group rounds).wp Observes (fun r w' =>
      ∀ hash publicKey seeded link, r = .ok (.claimed hash publicKey seeded link) →
        WentThrough hash publicKey seeded w') w := by
    unfold claimV2ToSponsoredAccount
    refine wp_last nofun fun latch w₁ => ?_
    split
    · exact nofun
    refine wp_last nofun fun state w₂ => ?_
    obtain ⟨state, kind⟩ := state
    dsimp only
    split
    · rename_i outcome hrefusal
      intro hash publicKey seeded link heq
      cases state <;> cases hrefusal <;> cases heq
    · exact wp_last nofun fun payout w₃ => wp_claimTo
  exact hrun.sound hwp _ _ _ _ rfl

/-! ## A device that comes back -/

/-- What a device says rests on what the account of its claim was seen to hold. -/
def SeenToHold (w : Watch) (payout : String) : ResumeDecision → Prop
  | .taken stroops => 0 < stroops ∧ ⟨payout, stroops⟩ ∈ w.balances
  | .resume | .missed => ⟨payout, 0⟩ ∈ w.balances
  | .nothing => False
  | .unsure => True

theorem SeenToHold.grow {decision : ResumeDecision} (h : SeenToHold w payout decision)
    (hgrows : w.Grows w') : SeenToHold w' payout decision := by
  cases decision with
  | taken stroops => exact ⟨h.1, hgrows.balances h.2⟩
  | resume => exact hgrows.balances h
  | missed => exact hgrows.balances h
  | nothing => exact h
  | unsure => trivial

/-- The link is only asked where the account came back empty. -/
theorem wp_probeLink {group : Bool} {payoutUsd : Option ℤ} :
    (probeLink net group payoutUsd).wp Observes (fun r w' =>
      w.Grows w' ∧ ∀ claimable, r = .ok (some claimable) → payoutUsd = some 0) w := by
  unfold probeLink
  split
  · rename_i hempty
    exact wp_mono (fun _ _ hgrows => ⟨hgrows, fun _ _ => hempty⟩) (wp_grows _)
  · exact ⟨.refl, nofun⟩

/-- **A device says that the money came only where it was seen, and that it went elsewhere, or can still
be claimed, only where its account was seen empty.** -/
theorem progress_on_grounds {group : Option Bool} {decision : ResumeDecision} {latch : ClaimLatch}
    (hrun : Runs Observes (readClaimProgress net group) w (.ok (decision, some latch)) w') :
    SeenToHold w' latch.payout decision := by
  have hwp : (readClaimProgress net group).wp Observes (fun r w' =>
      ∀ decision latch, r = .ok (decision, some latch) → SeenToHold w' latch.payout decision) w := by
    unfold readClaimProgress
    refine wp_last nofun fun latch? w₁ => ?_
    cases latch? with
    | none => exact nofun
    | some latch =>
      dsimp only
      rw [wp_bind, wp_question]
      intro held w₂ hobserves
      have hheld : ∀ stroops, held.toOption.join = some stroops → ⟨latch.payout, stroops⟩ ∈ w₂.balances := by
        intro stroops heq
        cases hobserves with
        | other hq => cases hq
        | balance ht =>
          obtain rfl := Option.some.inj heq
          exact List.mem_append_right _ (List.mem_singleton_self _)
        | noBalance ht => cases heq
        | balanceThrown ht => cases heq
      rw [onValue_ok, wp_bind]
      refine wp_mono (fun r w₃ hprobe => ?_) wp_probeLink
      obtain ⟨hgrows, hempty⟩ := hprobe
      cases r with
      | error e => exact nofun
      | ok claimable =>
        have hseen : SeenToHold w₂ latch.payout
            (resumeDecision (some latch) held.toOption.join claimable) := by
          cases hpayout : held.toOption.join with
          | none => trivial
          | some usd =>
            unfold resumeDecision
            dsimp only
            split
            · rename_i hpos
              exact ⟨hpos, hheld usd hpayout⟩
            · cases claimable with
              | none => trivial
              | some open_ =>
                have hzero := hempty open_ rfl
                cases open_ with
                | true => exact hheld 0 hzero
                | false => exact hheld 0 hzero
        rw [onValue_ok]
        have hdone : ∀ w₄, w₃.Grows w₄ →
            (pure (resumeDecision (some latch) held.toOption.join claimable, some latch) : Call _).wp Observes
              (fun r w' => ∀ decision latch, r = .ok (decision, some latch) →
                SeenToHold w' latch.payout decision) w₄ := by
          intro w₄ hgrows' decision latch' heq
          cases heq
          exact (hseen.grow hgrows).grow hgrows'
        split
        · split
          · rw [wp_bind]
            refine wp_mono (fun r w₄ hgrows' => ?_) (wp_grows _)
            cases r with
            | error e => exact nofun
            | ok u => exact hdone w₄ hgrows'
          · exact hdone w₃ .refl
        · exact hdone w₃ .refl
  exact hrun.sound hwp _ _ rfl

end

end Lumenia.Web.Claim

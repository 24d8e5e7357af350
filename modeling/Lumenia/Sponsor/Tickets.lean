import Lumenia.Sponsor.Kv
import Lumenia.Theory.Pacts

/-!
# The counters of the store are metered

`Books` ties the store to the tickets its clients hold: every counter is metered by the tickets on
it, and what a client has booked on a counter is the worth of its ticket there. The lemmas say what
each command does to the tickets of the client that sends it.
-/

namespace Lumenia.Sponsor

open Ticket

variable {ι : Type} [DecidableEq ι]

/-- The tickets of one client, by the key of the counter. -/
abbrev Wallet := String → Option Ticket

namespace Store

/-- The key holds no text, so that a counter may live there. -/
def Countable (s : Store ι) (key : String) : Prop := ∀ v, s.kv key ≠ some (.str v)

/-- The store after an `INCRBY` that was not refused. -/
def added (s : Store ι) (i : ι) (key : String) (delta : ℤ) : Store ι where
  kv := Function.update s.kv key (some (.int (s.kv.count key + delta)))
  booked := Function.update s.booked i
    (Function.update (s.booked i) key (s.booked i key + delta))

/-- The store after a `SET` or a `DEL` of a key that counts nothing. -/
def written (s : Store ι) (key : String) (v : Option String) : Store ι :=
  { s with kv := Function.update s.kv key (v.map .str) }

variable {s : Store ι} {i : ι} {key k : String} {delta : ℤ} {v : Option String}

theorem add_of_countable (h : s.Countable key) :
    s.add i key delta = some (s.added i key delta, s.kv.count key + delta) := by
  unfold add Kv.incr added
  split
  · rename_i v hv
    exact absurd hv (h v)
  · rfl

theorem count_added : (s.added i key delta).kv.count k =
    if k = key then s.kv.count key + delta else s.kv.count k := by
  by_cases hk : k = key
  · subst hk
    simp [added, Kv.count]
  · simp [added, Kv.count, hk]

theorem kv_added_of_ne (h : k ≠ key) : (s.added i key delta).kv k = s.kv k :=
  Function.update_of_ne h ..

theorem countable_added (h : s.Countable k) : (s.added i key delta).Countable k := by
  intro v
  by_cases hk : k = key
  · subst hk
    simp [added]
  · rw [kv_added_of_ne hk]
    exact h v

omit [DecidableEq ι] in
@[simp] theorem kv_written : (s.written key v).kv key = v.map .str := Function.update_self ..

omit [DecidableEq ι] in
theorem kv_written_of_ne (h : k ≠ key) : (s.written key v).kv k = s.kv k :=
  Function.update_of_ne h ..

omit [DecidableEq ι] in
theorem countable_written (hk : k ≠ key) (h : s.Countable k) : (s.written key v).Countable k := by
  intro v
  rw [kv_written_of_ne hk]
  exact h v

end Store

/-- Store and tickets agree. -/
structure Books (s : Store ι) [Fintype ι] (t : ι → Wallet) : Prop where
  metered : ∀ key, Metered (s.kv.count key) fun i => t i key
  booked : ∀ i key, s.booked i key = worth (t i key)

namespace Books

variable [Fintype ι] {s : Store ι} {t : ι → Wallet} {i : ι} {key : String} {x : Ticket}

omit [DecidableEq ι] in
theorem empty : Books (Store.empty (ι := ι)) fun _ _ => none where
  metered _ := Metered.zero
  booked _ _ := rfl

omit [Fintype ι] in
theorem wallet_update {o : Option Ticket} {k : String} :
    (fun j => Function.update t i (Function.update (t i) key o) j k) =
      if k = key then Function.update (fun j => t j key) i o else fun j => t j k := by
  funext j
  by_cases hj : j = i
  · subst hj
    by_cases hk : k = key
    · subst hk
      simp
    · simp [hk]
  · by_cases hk : k = key
    · subst hk
      simp [Function.update_of_ne hj]
    · simp [Function.update_of_ne hj, hk]

omit [Fintype ι] in
theorem worth_update {o : Option Ticket} {j : ι} {k : String} :
    worth (Function.update t i (Function.update (t i) key o) j k) =
      if j = i ∧ k = key then worth o else worth (t j k) := by
  by_cases hj : j = i
  · subst hj
    by_cases hk : k = key
    · subst hk
      simp
    · simp [hk]
  · simp [hj]

omit [Fintype ι] in
theorem booked_added {delta : ℤ} {j : ι} {k : String} : (s.added i key delta).booked j k =
    if j = i ∧ k = key then s.booked i key + delta else s.booked j k := by
  by_cases hj : j = i
  · subst hj
    by_cases hk : k = key
    · subst hk
      simp [Store.added]
    · simp [Store.added, hk]
  · simp [Store.added, hj]

/-- An amount added to a counter on which the client holds no ticket. -/
theorem take (h : Books s t) (hnone : t i key = none) {a : ℤ} (ha : 0 ≤ a) :
    Books (s.added i key a) (Function.update t i
      (Function.update (t i) key (some ⟨a, s.kv.count key + a⟩))) where
  metered k := by
    rw [wallet_update, Store.count_added]
    by_cases hk : k = key
    · rw [if_pos hk, if_pos hk]
      exact (h.metered key).take hnone ha
    · rw [if_neg hk, if_neg hk]
      exact h.metered k
  booked j k := by
    rw [worth_update, booked_added]
    split
    · simp [h.booked, hnone]
    · exact h.booked j k

/-- A ticket handed back. -/
theorem drop (h : Books s t) (hsome : t i key = some x) :
    Books (s.added i key (-x.amount)) (Function.update t i (Function.update (t i) key none)) where
  metered k := by
    rw [wallet_update, Store.count_added]
    by_cases hk : k = key
    · rw [if_pos hk, if_pos hk]
      exact (h.metered key).drop hsome
    · rw [if_neg hk, if_neg hk]
      exact h.metered k
  booked j k := by
    rw [worth_update, booked_added]
    split
    · simp [h.booked, hsome]
    · exact h.booked j k

/-- A part of a ticket handed back. -/
theorem lower (h : Books s t) (hsome : t i key = some x) {b : ℤ} (hb : 0 ≤ b)
    (hle : b ≤ x.amount) : Books (s.added i key (-b)) (Function.update t i
      (Function.update (t i) key (some ⟨x.amount - b, x.seen⟩))) where
  metered k := by
    rw [wallet_update, Store.count_added]
    split
    · exact (h.metered key).lower hsome hb hle
    · exact h.metered k
  booked j k := by
    rw [worth_update, booked_added]
    split
    · rw [h.booked, hsome, worth_some, worth_some]
      rfl
    · exact h.booked j k

/-- A counter read again by the owner of a ticket on it. -/
theorem reread (h : Books s t) (hsome : t i key = some x) :
    Books s (Function.update t i
      (Function.update (t i) key (some ⟨x.amount, min x.seen (s.kv.count key)⟩))) where
  metered k := by
    rw [wallet_update]
    by_cases hk : k = key
    · rw [if_pos hk, hk]
      exact (h.metered key).reread hsome
    · rw [if_neg hk]
      exact h.metered k
  booked j k := by
    rw [worth_update]
    split
    · rename_i hjk
      rw [hjk.1, hjk.2, h.booked, hsome]
      rfl
    · exact h.booked j k

omit [DecidableEq ι] in
/-- Text written, or removed, where nothing is counted. -/
theorem written (h : Books s t) (hzero : s.kv.count key = 0) {v : Option String} :
    Books (s.written key v) t where
  metered k := by
    have hcount : (s.written key v).kv.count k = s.kv.count k := by
      by_cases hk : k = key
      · subst hk
        rw [hzero]
        cases v <;> simp [Kv.count]
      · simp [Kv.count, Store.kv_written_of_ne hk]
    rw [hcount]
    exact h.metered k
  booked := h.booked

end Books

/-! ## Rules for counters -/

section

variable {Γ ε : Type} {O : Outline ι (Store ι) Γ Fault ε} {i : ι} {γ : Γ} {key : String} {a : ℤ}
  {rest : List Cmd} {got : List KvReply} {K : List KvReply → Γ → Prop}

/-- An INCRBY + EXPIRE pair whose INCRBY takes the ghost to `γ'` of the new total. -/
theorem wpCmds_incr (γ' : ℤ → Γ)
    (h : ∀ s g, O.inv s g → g i = γ → s.Countable key ∧
      O.inv (s.added i key a) (Function.update g i (γ' (s.kv.count key + a))))
    (hrest : ∀ n m, O.wpCmds (backend ι) i rest (got ++ [.of (.int n), .of (.int m)]) K (γ' n)) :
    O.wpCmds (backend ι) i (incrCmds key a ++ rest) got K γ := by
  intro s g hinv hg
  obtain ⟨hcount, hinv'⟩ := h s g hinv hg
  have hexec : (backend ι).exec i (.incrby key a) s =
      (s.added i key a, .of (.int (s.kv.count key + a))) := by
    simp only [backend, Store.exec, Store.add_of_countable hcount]
  rw [hexec]
  generalize s.kv.count key + a = n at hinv' ⊢
  refine ⟨γ' n, hinv', fun s g hinv hg => ⟨γ' n, Outline.Turns.refl s g hinv hg, ?_⟩⟩
  rw [List.append_assoc]
  exact hrest n _

theorem wp_pipeline {M : Type} {cmds : List Cmd} {Q : Except String (List KvReply) → Γ → Prop}
    (h : O.wpCmds (backend ι) i cmds [] (fun got γ => ∀ d : Fault, O.allowed d → Q (d.deliver got) γ)
      γ) : O.wp (M := M) (backend ι) i (pipeline cmds) Q γ :=
  Outline.wpCmds_mono (fun _ γ h d hd => ⟨γ, Outline.Turns.refl, h d hd⟩) h

end

section

variable {ν M Γ ε α : Type} [DecidableEq ν] {P : Pact ι ν M (Store ι) Γ Fault ε} {home : ι → ν} {i : ι}
  {γ : Γ} {key : String} {a : ℤ} {rest : List Cmd} {got : List KvReply}
  {K : List KvReply → Γ → Prop}

omit [DecidableEq ν] in
/-- The same for a pact. -/
theorem pact_incr (γ' : ℤ → Γ) (hrest : got = [] → P.rest i γ)
    (h : ∀ s μ g, P.inv s μ g → g i = γ → s.Countable key ∧
      P.inv (s.added i key a) μ (Function.update g i (γ' (s.kv.count key + a))) ∧
      P.guar s μ (s.added i key a) μ)
    (hK : ∀ n m, P.wpCmds (backend ι) i rest (got ++ [.of (.int n), .of (.int m)]) K (γ' n)) :
    P.wpCmds (backend ι) i (incrCmds key a ++ rest) got K γ := by
  refine ⟨hrest, fun s μ g hinv hg => ?_⟩
  obtain ⟨hcount, hinv', hguar⟩ := h s μ g hinv hg
  have hexec : (backend ι).exec i (.incrby key a) s =
      (s.added i key a, .of (.int (s.kv.count key + a))) := by
    simp only [backend, Store.exec, Store.add_of_countable hcount]
  rw [hexec]
  generalize s.kv.count key + a = n at hinv' ⊢
  refine ⟨γ' n, hinv', hguar, fun heq => absurd heq (by simp), fun s μ g hinv hg => ?_⟩
  refine ⟨γ' n, Pact.Turns.refl s μ g hinv hg, P.guar_refl s μ, ?_⟩
  rw [List.append_assoc]
  exact hK n _

theorem pact_pipeline {cmds : List Cmd} {Q : Except String (List KvReply) → Γ → Prop}
    (h : P.wpCmds (backend ι) i cmds [] (fun got γ => ∀ d : Fault, P.allowed d → Q (d.deliver got) γ)
      γ) : P.wp (backend ι) home i (pipeline cmds) Q γ :=
  Pact.wpCmds_mono (fun _ γ h d hd => ⟨γ, Pact.Turns.refl, h d hd⟩) h

end

/-- The replies report these totals, from `offset` on. -/
def Reports (rs : List KvReply) : ℕ → List ℤ → Prop
  | _, [] => True
  | offset, n :: ns => rs[offset]? = some (.of (.int n)) ∧ Reports rs (offset + 2) ns

section

variable {rs : List KvReply} {ns : List ℤ} {keys : List String} {offset : ℕ}

theorem incrTotals_of_reports (h : Reports rs offset ns) (hlen : ns.length = keys.length) :
    incrTotals rs keys offset = .ok ns := by
  induction keys generalizing offset ns with
  | nil =>
    obtain rfl := List.length_eq_zero_iff.mp hlen
    rfl
  | cons key keys ih =>
    cases ns with
    | nil => cases hlen
    | cons n ns =>
      obtain ⟨hn, hns⟩ := h
      rw [incrTotals, hn, ih hns (by simpa using hlen)]
      rfl

/-- Totals that are read from a delivery are those of the store. -/
theorem reports_of_incrTotals {out : List KvReply} {ms : List ℤ} {d : Fault}
    (hout : d.deliver rs = .ok out) (h : Reports rs offset ns) (hlen : ns.length = keys.length)
    (hms : incrTotals out keys offset = .ok ms) : ms = ns := by
  induction keys generalizing offset ns ms with
  | nil =>
    obtain rfl := List.length_eq_zero_iff.mp hlen
    cases hms
    rfl
  | cons key keys ih =>
    cases ns with
    | nil => cases hlen
    | cons n ns =>
      obtain ⟨hn, hns⟩ := h
      obtain ⟨m, hm, ms', hms', rfl⟩ : ∃ m, incrTotal out[offset]? = .ok m ∧
          ∃ ms', incrTotals out keys (offset + 2) = .ok ms' ∧ ms = m :: ms' := by
        rw [incrTotals] at hms
        cases hm : incrTotal out[offset]? with
        | error => simp [hm, bind, Except.bind] at hms
        | ok m =>
          cases hms' : incrTotals out keys (offset + 2) with
          | error => simp [hm, hms', bind, Except.bind] at hms
          | ok ms' =>
            simp only [hm, hms', bind, Except.bind, pure, Except.pure, Except.ok.injEq] at hms
            exact ⟨m, rfl, ms', rfl, hms.symm⟩
      rw [ih hns (by simpa using hlen) hms']
      cases hr : out[offset]? with
      | none => simp [incrTotal, hr] at hm
      | some r =>
        by_cases hfail : r.failed = true
        · simp [incrTotal, hr, hfail] at hm
        · have htrue := Fault.reply_of_deliver hout hr (by simpa using hfail)
          obtain rfl := Option.some.inj (hn.symm.trans htrue)
          simp only [incrTotal, hr, KvReply.failed_of, KvReply.result_of, bigInt] at hm
          cases hm
          rfl

/-- A delivery gives the totals of the store, or it is not intact. -/
theorem incrTotals_deliver (keys : List String) {out : List KvReply} {d : Fault}
    (hout : d.deliver rs = .ok out) (h : Reports rs offset ns) (hlen : ns.length = keys.length) :
    incrTotals out keys offset = .ok ns ∨
      (∃ msg, incrTotals out keys offset = .error msg) ∧ d ≠ .intact := by
  cases hms : incrTotals out keys offset with
  | ok ms =>
    obtain rfl := reports_of_incrTotals hout h hlen hms
    exact .inl rfl
  | error msg =>
    refine .inr ⟨⟨msg, rfl⟩, ?_⟩
    rintro rfl
    cases hout
    rw [incrTotals_of_reports h hlen] at hms
    cases hms

/-- An answer that is read from a delivery is the store's. -/
theorem answered_deliver (rs : List KvReply) (n : ℕ) {x : Result} (h : rs[n]? = some (.of x))
    (d : Fault) :
    answered (d.deliver rs) n = some (some x) ∨
      answered (d.deliver rs) n = none ∧ d ≠ .intact := by
  cases hout : d.deliver rs with
  | error msg =>
    refine .inr ⟨rfl, ?_⟩
    rintro rfl
    cases hout
  | ok out =>
    cases hr : out[n]? with
    | none =>
      refine .inr ⟨by simp [answered, hr], ?_⟩
      rintro rfl
      cases hout
      rw [h] at hr
      cases hr
    | some r =>
      by_cases hfail : r.failed = true
      · refine .inr ⟨by simp [answered, hr, hfail], ?_⟩
        rintro rfl
        cases hout
        obtain rfl := Option.some.inj (h.symm.trans hr)
        cases hfail
      · obtain rfl := Option.some.inj
          (h.symm.trans (Fault.reply_of_deliver hout hr (by simpa using hfail)))
        exact .inl (by simp [answered, hr])

end

end Lumenia.Sponsor

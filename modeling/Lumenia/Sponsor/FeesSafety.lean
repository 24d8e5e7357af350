import Lumenia.Sponsor.Fees
import Lumenia.Sponsor.Tickets

/-!
# The fee budget covers what the network charges

Over a store that answers, in every interleaving of charges and of the calls made on them, the net
counter of a day covers the bids that are undecided and the fees that were charged, each charge moves
it at most once after its bid was counted, and the gross counter keeps every bid that was accepted
(`fees_cover_spend`).

A request's ghost is the wallet of its tickets and a copy of its charge. The ticket on the net
counter is the whole bid until the give-back, and what the first call on the charge leaves after it.
-/

namespace Lumenia.Sponsor

open Ticket

namespace Handle

variable (h : Handle)

/-- What the charge has to cover: the whole bid while undecided, the fee the ledger charged once
settled, nothing once provably not included. -/
def counted : ℤ :=
  match h.closedBy with
  | none => h.charge.bidStroops
  | some .notIncluded => 0
  | some (.settled feeCharged) =>
    match chargedStroops feeCharged with
    | none => h.charge.bidStroops
    | some charged => if charged > h.charge.bidStroops then h.charge.bidStroops else charged

/-- The network took `spent` for the transaction, never more than its bid, and the call that closed
the charge told the truth. -/
structure Truthful (spent : ℤ) : Prop where
  bid : spent ≤ h.charge.bidStroops
  notIncluded : h.closedBy = some .notIncluded → spent = 0
  settled : ∀ feeCharged charged, h.closedBy = some (.settled feeCharged) →
    chargedStroops feeCharged = some charged → charged ≤ h.charge.bidStroops → spent = charged

/-- `h'` is the same charge at a later time. -/
def Later (h' : Handle) : Prop :=
  h'.charge = h.charge ∧ (h.closedBy ≠ none → h'.closedBy = h.closedBy)

variable {h}

theorem counted_nonneg (hbid : 0 ≤ h.charge.bidStroops) : 0 ≤ h.counted := by
  unfold counted
  split
  · exact hbid
  · exact le_rfl
  · split
    · exact hbid
    · rename_i hcharged
      split
      · exact hbid
      · exact chargedStroops_nonneg hcharged

theorem counted_le (hbid : 0 ≤ h.charge.bidStroops) : h.counted ≤ h.charge.bidStroops := by
  unfold counted
  split
  · exact le_rfl
  · exact hbid
  · split
    · exact le_rfl
    · split <;> omega

theorem Truthful.le_counted {spent : ℤ} (ht : h.Truthful spent) : spent ≤ h.counted := by
  unfold counted
  split
  · exact ht.bid
  · rename_i hclosed
    exact (ht.notIncluded hclosed).le
  · rename_i hclosed
    split
    · exact ht.bid
    · rename_i hcharged
      split
      · exact ht.bid
      · rename_i hle
        exact (ht.settled _ _ hclosed hcharged (not_lt.mp hle)).le

theorem Later.refl : h.Later h := ⟨rfl, fun _ => rfl⟩

theorem Later.trans {h' h'' : Handle} (h₁ : h.Later h') (h₂ : h'.Later h'') : h.Later h'' := by
  refine ⟨h₂.1.trans h₁.1, fun hclosed => ?_⟩
  have heq := h₁.2 hclosed
  exact (h₂.2 (heq ▸ hclosed)).trans heq

end Handle

/-! ## Requests and their ghosts -/

namespace FeeRequest

variable (env : Env) (r : FeeRequest)

def netKey : String := feeDayKey env r.now

def grossKey : String := feeGrossDayKey env r.now

/-- The request is of the UTC day of `day`. -/
def On (day : Instant) (r : FeeRequest) : Prop := utcDay r.now = utcDay day

instance (day : Instant) : DecidablePred (On day) := fun _ => inferInstanceAs (Decidable (_ = _))

variable {env r} {r' : FeeRequest}

theorem netKey_ne_grossKey : r.netKey env ≠ r'.grossKey env := feeDayKey_ne_feeGrossDayKey

end FeeRequest

/-- What is known of a request: its tickets, and its charge. -/
structure Payer where
  wallet : Wallet
  handle : Option Handle

namespace Payer

def fresh : Payer := ⟨fun _ => none, none⟩

def put (γ : Payer) (key : String) (o : Option Ticket) : Payer :=
  { γ with wallet := Function.update γ.wallet key o }

variable {γ : Payer} {key k : String} {o : Option Ticket}

@[simp] theorem put_handle : (γ.put key o).handle = γ.handle := rfl

@[simp] theorem put_self : (γ.put key o).wallet key = o := Function.update_self ..

theorem put_of_ne (h : k ≠ key) : (γ.put key o).wallet k = γ.wallet k := Function.update_of_ne h ..

end Payer

section

variable {ι ν : Type} [DecidableEq ι] [DecidableEq ν] [Fintype ι] (env : Env) (max : ℕ)
  (home : ι → ν) (req : ι → FeeRequest)

/-- The tickets of a request cover its charge, which was counted within the budget. -/
structure Covered (r : FeeRequest) (γ : Payer) (h : Handle) : Prop where
  handle : γ.handle = some h
  shared : h.charge.shared = true
  key : h.charge.key = r.netKey env
  bid : 0 ≤ h.charge.bidStroops
  net : ∃ a seen, γ.wallet (r.netKey env) = some ⟨a, seen⟩ ∧ seen ≤ max ∧
    (a = h.charge.bidStroops ∨ h.closedBy ≠ none ∧ a = h.counted)
  gross : ∃ seen, γ.wallet (r.grossKey env) = some ⟨h.charge.bidStroops, seen⟩

structure FeeBooks (s : Store ι) (μ : ν → FeeMemory ι) (g : ι → Payer) : Prop where
  books : Books s fun i => (g i).wallet
  countable : ∀ key, s.Countable key
  own : ∀ i key, key ≠ (req i).netKey env → key ≠ (req i).grossKey env → (g i).wallet key = none
  handle : ∀ i, (μ (home i)).handles i = (g i).handle
  covered : ∀ i h, (g i).handle = some h → Covered env max (req i) (g i) h

/-- What a step may do to the charges that were handed out: close them, and lower their part of the
net counter. -/
def OnlyLower (s : Store ι) (μ : ν → FeeMemory ι) (s' : Store ι) (μ' : ν → FeeMemory ι) : Prop :=
  ∀ i h, (μ (home i)).handles i = some h → ∃ h', (μ' (home i)).handles i = some h' ∧ h.Later h' ∧
    s'.booked i ((req i).netKey env) ≤ s.booked i ((req i).netKey env) ∧
    s'.booked i ((req i).grossKey env) = s.booked i ((req i).grossKey env)

def feePact : Pact ι ν (FeeMemory ι) (Store ι) Payer Fault FeeStage where
  inv := FeeBooks env max home req
  guar := OnlyLower env home req
  guar_refl _ _ _ h hh := ⟨h, hh, .refl, le_rfl, rfl⟩
  guar_trans h₁ h₂ i h hh := by
    obtain ⟨h', hh', hlater, hnet, hgross⟩ := h₁ i h hh
    obtain ⟨h'', hh'', hlater', hnet', hgross'⟩ := h₂ i h' hh'
    exact ⟨h'', hh'', hlater.trans hlater', hnet'.trans hnet, hgross'.trans hgross⟩
  rest i γ := worth (γ.wallet ((req i).netKey env)) ≤ worth (γ.wallet ((req i).grossKey env))
  allowed d := d = .intact
  shown _ _ _ := True

variable {env max home req} {s s' : Store ι} {μ : ν → FeeMemory ι} {g : ι → Payer} {i : ι}
  {key : String} {a : ℤ} {h : Handle}

namespace Covered

variable {r : FeeRequest} {γ : Payer}

/-- A covered request is at rest. -/
theorem rest (hc : Covered env max r γ h) :
    worth (γ.wallet (r.netKey env)) ≤ worth (γ.wallet (r.grossKey env)) := by
  obtain ⟨a, seen, hnet, -, ha⟩ := hc.net
  obtain ⟨n, hgross⟩ := hc.gross
  rw [hnet, hgross, worth_some, worth_some]
  have hle := Handle.counted_le hc.bid
  rcases ha with ha | ⟨-, ha⟩ <;> dsimp only <;> omega

/-- Closing a charge leaves it covered. -/
theorem close (hc : Covered env max r γ h) (call : SettleCall) :
    Covered env max r { γ with handle := some { h with closedBy := h.closedBy.or (some call) } }
      { h with closedBy := h.closedBy.or (some call) } where
  handle := rfl
  shared := hc.shared
  key := hc.key
  bid := hc.bid
  net := by
    obtain ⟨a, seen, hnet, hseen, ha⟩ := hc.net
    refine ⟨a, seen, hnet, hseen, ?_⟩
    rcases ha with ha | ⟨hclosed, ha⟩
    · exact .inl ha
    · obtain ⟨c, hc'⟩ := Option.ne_none_iff_exists'.mp hclosed
      have heq : h.closedBy.or (some call) = h.closedBy := by rw [hc', Option.some_or]
      rw [heq]
      exact .inr ⟨hclosed, ha⟩
  gross := hc.gross

end Covered

/-! ## Steps -/

omit [Fintype ι] in
theorem wallet_update_payer {γ' : Payer} : (fun j => (Function.update g i γ' j).wallet) =
    Function.update (fun j => (g j).wallet) i γ'.wallet := by
  funext j
  rcases eq_or_ne j i with rfl | hj
  · rw [Function.update_self, Function.update_self]
  · rw [Function.update_of_ne hj, Function.update_of_ne hj]

omit [Fintype ι] in
/-- The charges after a step of the memory of `i` that may touch the charge of `i`. -/
theorem handles_update {m : FeeMemory ι}
    (hm : ∀ k, k ≠ i → m.handles k = (μ (home i)).handles k) (j : ι) :
    (Function.update μ (home i) m (home j)).handles j =
      if j = i then m.handles i else (μ (home j)).handles j := by
  split
  · rename_i hj
    rw [hj, Function.update_self]
  · rename_i hj
    rcases eq_or_ne (home j) (home i) with hhome | hhome
    · rw [hhome, Function.update_self]
      exact hm j hj
    · rw [Function.update_of_ne hhome]

namespace FeeBooks

omit [DecidableEq ν] in
/-- A request without a charge moves its own tickets. -/
theorem move (hb : FeeBooks env max home req s μ g) (hnone : (g i).handle = none)
    {o : Option Ticket} (hkey : key = (req i).netKey env ∨ key = (req i).grossKey env)
    (hbooks : Books (s.added i key a)
      (Function.update (fun j => (g j).wallet) i (Function.update (g i).wallet key o))) :
    FeeBooks env max home req (s.added i key a) μ (Function.update g i ((g i).put key o)) ∧
      OnlyLower env home req s μ (s.added i key a) μ where
  left :=
    { books := by rwa [wallet_update_payer]
      countable := fun k => Store.countable_added (hb.countable k)
      own := by
        refine (Function.forall_update_iff g fun j γ => ∀ k, k ≠ (req j).netKey env →
          k ≠ (req j).grossKey env → γ.wallet k = none).mpr ⟨fun k hnet hgross => ?_,
          fun j _ => hb.own j⟩
        rw [Payer.put_of_ne]
        · exact hb.own i k hnet hgross
        · rintro rfl
          exact hkey.elim hnet hgross
      handle := (Function.forall_update_iff g fun j γ => (μ (home j)).handles j = γ.handle).mpr
        ⟨hb.handle i, fun j _ => hb.handle j⟩
      covered := by
        refine (Function.forall_update_iff g fun j γ => ∀ h, γ.handle = some h →
          Covered env max (req j) γ h).mpr ⟨fun h hh => ?_, fun j _ => hb.covered j⟩
        rw [Payer.put_handle, hnone] at hh
        cases hh }
  right := by
    intro j h hh
    have hj : j ≠ i := by
      rintro rfl
      rw [hb.handle, hnone] at hh
      cases hh
    have hbooked : ∀ k, (s.added i key a).booked j k = s.booked j k := by
      intro k
      rw [Books.booked_added, if_neg fun hjk => hj hjk.1]
    exact ⟨h, hh, .refl, (hbooked _).le, hbooked _⟩

omit [DecidableEq ν] in
/-- What a give-back does to a closed charge whose whole bid is still counted. -/
theorem lower (hb : FeeBooks env max home req s μ g) (hh : (g i).handle = some h)
    (hclosed : h.closedBy ≠ none) {seen : ℤ}
    (hnet : (g i).wallet ((req i).netKey env) = some ⟨h.charge.bidStroops, seen⟩) (ha : 0 ≤ a)
    (hcounted : h.counted = h.charge.bidStroops - a) :
    FeeBooks env max home req (s.added i ((req i).netKey env) (-a)) μ
        (Function.update g i ((g i).put ((req i).netKey env) (some ⟨h.counted, seen⟩))) ∧
      OnlyLower env home req s μ (s.added i ((req i).netKey env) (-a)) μ := by
  have hc := hb.covered i h hh
  have hle : a ≤ h.charge.bidStroops := by
    have hnonneg := Handle.counted_nonneg hc.bid
    omega
  refine ⟨⟨?_, fun k => Store.countable_added (hb.countable k), ?_, ?_, ?_⟩, ?_⟩
  · rw [wallet_update_payer, hcounted]
    exact hb.books.lower hnet ha hle
  · refine (Function.forall_update_iff g fun j γ => ∀ k, k ≠ (req j).netKey env →
      k ≠ (req j).grossKey env → γ.wallet k = none).mpr ⟨fun k hk hk' => ?_, fun j _ => hb.own j⟩
    rw [Payer.put_of_ne hk]
    exact hb.own i k hk hk'
  · exact (Function.forall_update_iff g fun j γ => (μ (home j)).handles j = γ.handle).mpr
      ⟨hb.handle i, fun j _ => hb.handle j⟩
  · refine (Function.forall_update_iff g fun j γ => ∀ h, γ.handle = some h →
      Covered env max (req j) γ h).mpr ⟨fun h' hh' => ?_, fun j _ => hb.covered j⟩
    rw [Payer.put_handle, hh] at hh'
    cases hh'
    obtain ⟨b, seen', hnet', hseen, -⟩ := hc.net
    obtain ⟨n, hgross⟩ := hc.gross
    obtain rfl : seen' = seen := by
      rw [hnet] at hnet'
      cases hnet'
      rfl
    refine { hc with net := ⟨h.counted, seen', Payer.put_self, hseen, .inr ⟨hclosed, rfl⟩⟩,
                     gross := ⟨n, ?_⟩ }
    rw [Payer.put_of_ne FeeRequest.netKey_ne_grossKey.symm]
    exact hgross
  · intro j h' hh'
    refine ⟨h', hh', .refl, ?_, ?_⟩ <;> rw [Books.booked_added]
    · split
      · rename_i hjk
        rw [hjk.1]
        omega
      · exact le_rfl
    · rw [if_neg fun hjk => FeeRequest.netKey_ne_grossKey hjk.2.symm]

/-- A step of memory that opens or closes the charge of `i`. -/
theorem remember (hb : FeeBooks env max home req s μ g) {m : FeeMemory ι}
    (hm : ∀ k, k ≠ i → m.handles k = (μ (home i)).handles k) {γ' : Payer}
    (hwallet : γ'.wallet = (g i).wallet) (hhandle : m.handles i = γ'.handle)
    (hcovered : ∀ h, γ'.handle = some h → Covered env max (req i) γ' h)
    (hlater : ∀ h, (g i).handle = some h → ∃ h', γ'.handle = some h' ∧ h.Later h') :
    FeeBooks env max home req s (Function.update μ (home i) m) (Function.update g i γ') ∧
      OnlyLower env home req s μ s (Function.update μ (home i) m) where
  left :=
    { books := by
        rw [wallet_update_payer, hwallet, Function.update_eq_self]
        exact hb.books
      countable := hb.countable
      own := by
        refine (Function.forall_update_iff g fun j γ => ∀ k, k ≠ (req j).netKey env →
          k ≠ (req j).grossKey env → γ.wallet k = none).mpr ⟨?_, fun j _ => hb.own j⟩
        rw [hwallet]
        exact hb.own i
      handle := by
        intro j
        rw [handles_update hm]
        split
        · rename_i hj
          rw [hj, Function.update_self]
          exact hhandle
        · rename_i hj
          rw [Function.update_of_ne hj]
          exact hb.handle j
      covered := (Function.forall_update_iff g fun j γ => ∀ h, γ.handle = some h →
        Covered env max (req j) γ h).mpr ⟨hcovered, fun j _ => hb.covered j⟩ }
  right := by
    intro j h hh
    rw [handles_update hm]
    split
    · rename_i hj
      subst hj
      rw [hb.handle] at hh
      obtain ⟨h', hh', hl⟩ := hlater h hh
      exact ⟨h', hhandle.trans hh', hl, le_rfl, rfl⟩
    · exact ⟨h, hh, .refl, le_rfl, rfl⟩

end FeeBooks

/-! ## What the functions do to the tickets -/

/-- The ghost after the bid was counted on both counters, with the new totals. -/
def FeeRequest.paid (env : Env) (r : FeeRequest) (fee n m : ℤ) : Payer :=
  (Payer.fresh.put (r.netKey env) (some ⟨fee, n⟩)).put (r.grossKey env) (some ⟨fee, m⟩)

omit [Fintype ι] in
theorem paid_net {r : FeeRequest} {fee n m : ℤ} :
    (r.paid env fee n m).wallet (r.netKey env) = some ⟨fee, n⟩ := by
  rw [FeeRequest.paid, Payer.put_of_ne FeeRequest.netKey_ne_grossKey, Payer.put_self]

/-- A charge is covered, or the request is at rest without one. -/
def FeeRequest.Charged (env : Env) (max : ℕ) (r : FeeRequest) :
    Except FeeError FeeCharge → Payer → Prop
  | .error _, γ => worth (γ.wallet (r.netKey env)) ≤ worth (γ.wallet (r.grossKey env))
  | .ok charge, γ => Covered env max r γ ⟨charge, none⟩

theorem wp_countBid {fee : ℤ} (hfee : 0 ≤ fee) {Q : Except String (List ℤ) → Payer → Prop}
    (hQ : ∀ n m, Q (.ok [n, m]) ((req i).paid env fee n m)) :
    (feePact env max home req).wp (backend ι) home i
      (addToDays [(req i).netKey env, (req i).grossKey env] fee) Q .fresh := by
  unfold addToDays
  rw [Pact.wp_bind]
  apply pact_pipeline
  refine pact_incr (fun n => Payer.fresh.put ((req i).netKey env) (some ⟨fee, n⟩))
    (fun _ => le_rfl) (fun s μ g hb hg => ⟨hb.countable _, ?_⟩) fun n _ => ?_
  · rw [← hg]
    refine hb.move (by rw [hg]; rfl) (.inl rfl) (hb.books.take ?_ hfee)
    rw [hg]
    rfl
  refine pact_incr (fun m => (req i).paid env fee n m) (by simp)
    (fun s μ g hb hg => ⟨hb.countable _, ?_⟩) fun m _ => ⟨?_, fun d hd => ?_⟩
  · have hput := hb.move (o := some ⟨fee, s.kv.count ((req i).grossKey env) + fee⟩)
      (by rw [hg]; rfl) (.inr rfl) (hb.books.take ?_ hfee)
    · rwa [hg] at hput
    · rw [hg, Payer.put_of_ne FeeRequest.netKey_ne_grossKey.symm]
      rfl
  · change worth _ ≤ worth _
    rw [paid_net, FeeRequest.paid, Payer.put_self]
    exact le_rfl
  · obtain rfl : d = .intact := hd
    exact hQ n m

theorem wp_uncountBid {fee n m : ℤ}
    {Q : Except String (List ℤ) → Payer → Prop}
    (hQ : ∀ r γ, worth (γ.wallet ((req i).netKey env)) ≤ worth (γ.wallet ((req i).grossKey env)) →
      Q r γ) :
    (feePact env max home req).wp (backend ι) home i
      (addToDays [(req i).netKey env, (req i).grossKey env] (-fee)) Q
      ((req i).paid env fee n m) := by
  unfold addToDays
  rw [Pact.wp_bind]
  apply pact_pipeline
  refine pact_incr (fun _ => ((req i).paid env fee n m).put ((req i).netKey env) none) (fun _ => ?_)
    (fun s μ g hb hg => ⟨hb.countable _, ?_⟩) fun _ _ => ?_
  · change worth _ ≤ worth _
    rw [paid_net, FeeRequest.paid, Payer.put_self]
    exact le_rfl
  · have hput := hb.move (o := none) (by rw [hg]; rfl) (.inl rfl)
      (hb.books.drop (x := ⟨fee, n⟩) (by rw [hg]; exact paid_net))
    rwa [hg] at hput
  refine pact_incr (fun _ => (((req i).paid env fee n m).put ((req i).netKey env) none).put
    ((req i).grossKey env) none) (by simp) (fun s μ g hb hg => ⟨hb.countable _, ?_⟩)
    fun _ _ => ⟨?_, fun d _ => hQ _ _ ?_⟩
  · have hgross : (g i).wallet ((req i).grossKey env) = some ⟨fee, m⟩ := by
      rw [hg, Payer.put_of_ne FeeRequest.netKey_ne_grossKey.symm, FeeRequest.paid, Payer.put_self]
    have hput := hb.move (o := none) (by rw [hg]; rfl) (.inr rfl) (hb.books.drop hgross)
    rwa [hg] at hput
  all_goals
    change worth _ ≤ worth _
    rw [Payer.put_of_ne FeeRequest.netKey_ne_grossKey, Payer.put_self, Payer.put_self]

theorem wp_countFee (hkv : env.kv = true) {fee : ℤ} (hfee : 0 ≤ fee) {Q : ℤ × Bool → Payer → Prop}
    (hQ : ∀ n m, Q (n, true) ((req i).paid env fee n m)) :
    (feePact env max home req).wp (backend ι) home i (countFee env fee (req i).now) Q .fresh := by
  unfold countFee
  rw [if_neg (by simp [hkv]), Pact.wp_bind]
  exact wp_countBid hfee fun n m => hQ n m

theorem wp_chargeSponsorFee (hkv : env.kv = true) :
    (feePact env max home req).wp (backend ι) home i
      (chargeSponsorFee env max i (req i).feeBid (req i).now) ((req i).Charged env max) .fresh := by
  unfold chargeSponsorFee
  split
  · exact le_rfl
  rename_i fee hfee
  have hnonneg := toStroops_nonneg hfee
  rw [Pact.wp_bind]
  apply wp_countFee hkv hnonneg
  intro n m
  dsimp only
  split
  · rw [if_pos rfl, Pact.wp_bind]
    exact wp_uncountBid fun _ _ hrest => hrest
  rename_i hwithin
  have hcovered : ∀ charge : FeeCharge, charge.shared = true → charge.key = (req i).netKey env →
      charge.bidStroops = fee →
      Covered env max (req i) { (req i).paid env fee n m with handle := some ⟨charge, none⟩ }
        ⟨charge, none⟩ := by
    intro charge hshared hkey hbid
    exact
      { handle := rfl, shared := hshared, key := hkey
        bid := hbid.symm ▸ hnonneg
        net := ⟨fee, n, paid_net, not_lt.mp hwithin, .inl hbid.symm⟩
        gross := ⟨m, hbid.symm ▸ Payer.put_self⟩ }
  refine ⟨?_, fun s μ g hb hg => ?_⟩
  · change worth _ ≤ worth _
    rw [paid_net, FeeRequest.paid, Payer.put_self]
    exact le_rfl
  let charge : FeeCharge := ⟨n, true, fee, (req i).netKey env⟩
  let paid : Payer := { (req i).paid env fee n m with handle := some ⟨charge, none⟩ }
  have hwallet : paid.wallet = (g i).wallet := by rw [hg]
  have hstep := hb.remember (m := (μ (home i)).openHandle i charge)
    (fun k hk => Function.update_of_ne hk ..) hwallet (Function.update_self ..)
    (fun h hh => by cases hh; exact hcovered _ rfl rfl rfl)
    (fun h hh => by rw [hg] at hh; cases hh)
  exact ⟨paid, hstep.1, hstep.2, hcovered _ rfl rfl rfl⟩

omit [Fintype ι] [DecidableEq ι] in
/-- The charge of the memory is the one of the ghost. -/
theorem isOpen_eq {m : FeeMemory ι} (hm : m.handles i = some h) :
    m.isOpen i = h.closedBy.isNone := by
  rw [FeeMemory.isOpen, hm, Option.any_some]

/-- Closing the charge in memory. -/
theorem FeeBooks.closeStep (hb : FeeBooks env max home req s μ g)
    (hc : Covered env max (req i) (g i) h) (call : SettleCall) {m : FeeMemory ι}
    (hm : m.handles = ((μ (home i)).close i call).handles) :
    FeeBooks env max home req s (Function.update μ (home i) m)
        (Function.update g i
          { g i with handle := some { h with closedBy := h.closedBy.or (some call) } }) ∧
      OnlyLower env home req s μ s (Function.update μ (home i) m) := by
  have hhandle : (μ (home i)).handles i = some h := (hb.handle i).trans hc.handle
  refine hb.remember (fun k hk => ?_) rfl ?_ (fun h' hh' => ?_) fun h' hh' => ?_
  · rw [hm]
    exact Function.update_of_ne hk ..
  · rw [hm, FeeMemory.close, hhandle]
    exact Function.update_self ..
  · cases hh'
    exact hc.close call
  · rw [hc.handle] at hh'
    cases hh'
    refine ⟨_, rfl, rfl, fun hclosed => ?_⟩
    obtain ⟨c, hc'⟩ := Option.ne_none_iff_exists'.mp hclosed
    rw [hc', Option.some_or]

theorem wp_close {γ : Payer} (hc : Covered env max (req i) γ h) (call : SettleCall)
    {Q : Unit → Payer → Prop} (hQ : ∀ γ' h', h'.charge = h.charge → Covered env max (req i) γ' h' →
      Q () γ') :
    (feePact env max home req).wp (backend ι) home i
      (atomically fun m => (m.close i call, ())) Q γ := by
  refine ⟨hc.rest, fun s μ g hb hg => ?_⟩
  subst hg
  have hstep := hb.closeStep hc call rfl
  refine ⟨_, hstep.1, hstep.2, ?_⟩
  exact hQ _ { h with closedBy := h.closedBy.or (some call) } rfl (hc.close call)

/-- A give-back leaves the charge closed and covered. -/
theorem wp_giveBackFee {γ : Payer} (hc : Covered env max (req i) γ h) {call : SettleCall} {stroops : ℤ}
    (hcounted : { h with closedBy := some call }.counted = h.charge.bidStroops - stroops)
    {Q : Unit → Payer → Prop} (hQ : ∀ γ' h', h'.charge = h.charge → Covered env max (req i) γ' h' →
      Q () γ') :
    (feePact env max home req).wp (backend ι) home i (h.charge.giveBack i call stroops) Q γ := by
  unfold FeeCharge.giveBack
  rw [Pact.wp_bind]
  refine ⟨hc.rest, fun s μ g hb hg => ?_⟩
  subst hg
  have hopen : (μ (home i)).isOpen i = h.closedBy.isNone :=
    isOpen_eq ((hb.handle i).trans hc.handle)
  cases hclosed : h.closedBy with
  | some c =>
    refine ⟨g i, ?_⟩
    simp only [hopen, hclosed, Option.isNone_some, Bool.not_false, if_true, Function.update_eq_self]
    exact ⟨hb, (feePact env max home req).guar_refl s μ, hQ _ h rfl hc⟩
  | none =>
    have hstep := hb.closeStep hc call rfl
    have hclose := hc.close call
    rw [hclosed, Option.none_or] at hstep hclose
    refine ⟨{ g i with handle := some { h with closedBy := some call } }, ?_⟩
    simp only [hopen, hclosed, Option.isNone_none, Bool.not_true, if_false, Bool.false_eq_true]
    split
    · exact ⟨hstep.1, hstep.2, hQ _ { h with closedBy := some call } rfl hclose⟩
    rename_i hpos
    rw [hc.shared, if_neg (by simp)]
    refine ⟨hstep.1, hstep.2, ?_⟩
    obtain ⟨a, seen, hnet, hseen, ha⟩ := hc.net
    obtain rfl : a = h.charge.bidStroops := by
      rcases ha with ha | ⟨ha, -⟩
      · exact ha
      · exact absurd hclosed ha
    change (feePact env max home req).wp (backend ι) home i
      (addToDays [h.charge.key] (-stroops) >>= fun _ => pure ()) Q _
    rw [Pact.wp_bind]
    unfold addToDays
    rw [Pact.wp_bind, hc.key]
    apply pact_pipeline
    -- The one INCRBY that moves the ticket from the whole bid to what the call leaves.
    refine pact_incr (fun _ => Payer.put
      { g i with handle := some { h with closedBy := some call } } ((req i).netKey env)
      (some ⟨{ h with closedBy := some call }.counted, seen⟩)) (fun _ => hclose.rest)
      (fun s μ g' hb hg => ⟨hb.countable _, ?_⟩) fun _ _ => ?_
    · have hticket : (g' i).wallet ((req i).netKey env) = some ⟨h.charge.bidStroops, seen⟩ := by
        rw [hg]
        exact hnet
      have hlower := hb.lower (h := { h with closedBy := some call }) (a := stroops) (by rw [hg])
        (by simp) hticket (by omega) hcounted
      rwa [hg] at hlower
    · obtain ⟨n, hgross⟩ := hc.gross
      have hlowered : Covered env max (req i) (Payer.put
          { g i with handle := some { h with closedBy := some call } } ((req i).netKey env)
          (some ⟨{ h with closedBy := some call }.counted, seen⟩))
          { h with closedBy := some call } :=
        { hclose with
          net := ⟨_, seen, Payer.put_self, hseen, .inr ⟨by simp, rfl⟩⟩
          gross := ⟨n, by rw [Payer.put_of_ne FeeRequest.netKey_ne_grossKey.symm]; exact hgross⟩ }
      exact ⟨hlowered.rest, fun d _ => hQ _ { h with closedBy := some call } rfl hlowered⟩

theorem wp_call {γ : Payer} (hc : Covered env max (req i) γ h) (call : SettleCall)
    {Q : Unit → Payer → Prop} (hQ : ∀ γ' h', h'.charge = h.charge → Covered env max (req i) γ' h' →
      Q () γ') :
    (feePact env max home req).wp (backend ι) home i (h.charge.call i call) Q γ := by
  cases call with
  | notIncluded => exact wp_giveBackFee hc (sub_self _).symm hQ
  | settled feeCharged =>
    unfold FeeCharge.call FeeCharge.settled
    dsimp only
    split
    · exact wp_close hc _ hQ
    rename_i charged hcharged
    split
    · exact wp_close hc _ hQ
    rename_i hle
    refine wp_giveBackFee hc ?_ hQ
    rw [Handle.counted]
    simp only [hcharged, if_neg hle, sub_sub_cancel]

theorem wp_calls {γ : Payer} (hc : Covered env max (req i) γ h) (cs : List SettleCall)
    {Q : Unit → Payer → Prop} (hQ : ∀ γ' h', Covered env max (req i) γ' h' → Q () γ') :
    (feePact env max home req).wp (backend ι) home i (h.charge.calls i cs) Q γ := by
  induction cs generalizing γ h with
  | nil => exact hQ γ h hc
  | cons c cs ih =>
    unfold FeeCharge.calls
    rw [Pact.wp_bind]
    apply wp_call hc c
    intro γ' h' hcharge hc'
    rw [← hcharge]
    exact ih hc'

theorem wp_feeRequest (hkv : env.kv = true) :
    (feePact env max home req).wp (backend ι) home i (feeRequest env max i (req i))
      (fun _ => (feePact env max home req).rest i) .fresh := by
  refine ⟨le_rfl, trivial, _, Pact.Turns.refl, ?_⟩
  rw [Pact.wp_bind]
  refine Pact.wp_mono ?_ (wp_chargeSponsorFee hkv)
  intro o γ ho
  cases o with
  | error e => exact ho
  | ok charge =>
    dsimp only
    rw [Pact.wp_bind]
    exact wp_calls (h := ⟨charge, none⟩) ho _ fun γ' h' hc => hc.rest

/-! ## Over runs -/

abbrev FeeCharges (ι ν : Type) :=
  Sys ι ν Cmd KvReply (FeeMemory ι) FeeStage FeeStage (Store ι)

/-- The charge of a request whose bid was accepted. -/
def chargeOf (home : ι → ν) (x : FeeCharges ι ν) (i : ι) : Option Handle :=
  (x.mem (home i)).handles i

/-- The requests of the day whose bid was accepted. -/
def accepted (home : ι → ν) (req : ι → FeeRequest) (x : FeeCharges ι ν) (day : Instant) :
    Finset ι :=
  {i | (chargeOf home x i).isSome = true ∧ (req i).On day}

omit [DecidableEq ι] [DecidableEq ν] in
theorem FeeBooks.empty :
    FeeBooks env max home req Store.empty (fun _ => .fresh) fun _ => .fresh where
  books := Books.empty
  countable _ _ := nofun
  own _ _ _ _ := rfl
  handle _ := rfl
  covered := nofun

variable (max) in
theorem fees_sound (hkv : env.kv = true) (home : ι → ν) (req : ι → FeeRequest)
    (schedule : List ι) :
    let x := (feeCharges env max home req).final (reliably schedule)
    ∃ g, FeeBooks env max home req x.store x.mem g ∧ ∀ i, (x.prog i).midway = false →
      worth ((g i).wallet ((req i).netKey env)) ≤ worth ((g i).wallet ((req i).grossKey env)) := by
  obtain ⟨-, g, hb, hwp⟩ := Pact.sound (P := feePact env max home req)
    ⟨Store.empty, fun _ => .fresh, fun i => feeRequest env max i (req i)⟩
    (Q := fun i _ => (feePact env max home req).rest i) FeeBooks.empty
    (fun i => wp_feeRequest hkv) (intact_of_mem_reliably schedule)
  exact ⟨g, hb, fun i hi => Pact.rest_of_wp (hwp i) (fun _ _ h => h) hi⟩

variable (max) in
theorem fees_later (hkv : env.kv = true) (home : ι → ν) (req : ι → FeeRequest)
    (schedule later : List ι) :
    let x := (feeCharges env max home req).final (reliably schedule)
    let x' := (feeCharges env max home req).final (reliably (schedule ++ later))
    OnlyLower env home req x.store x.mem x'.store x'.mem := by
  have hsplit : reliably (schedule ++ later) = reliably schedule ++ reliably later :=
    List.map_append
  intro x x'
  have hintact := intact_of_mem_reliably (schedule ++ later)
  rw [hsplit] at hintact
  have hrun := Pact.later (P := feePact env max home req)
    ⟨Store.empty, fun _ => .fresh, fun i => feeRequest env max i (req i)⟩
    (Q := fun i _ => (feePact env max home req).rest i) FeeBooks.empty
    (fun i => wp_feeRequest hkv) hintact
  rw [← hsplit] at hrun
  exact hrun

namespace FeeBooks

variable {x x' : FeeCharges ι ν} {day : Instant}

omit [DecidableEq ι] [DecidableEq ν] in
theorem of_accepted (hb : FeeBooks env max home req x.store x.mem g)
    (hi : i ∈ accepted home req x day) : ∃ h, chargeOf home x i = some h ∧
      Covered env max (req i) (g i) h ∧ (req i).netKey env = feeDayKey env day ∧
      (req i).grossKey env = feeGrossDayKey env day := by
  obtain ⟨hsome, hday⟩ := (Finset.mem_filter.mp hi).2
  obtain ⟨h, hh⟩ := Option.isSome_iff_exists.mp hsome
  exact ⟨h, hh, hb.covered i h ((hb.handle i).symm.trans hh), feeDayKey_inj.mpr hday,
    feeGrossDayKey_inj.mpr hday⟩

omit [DecidableEq ι] [DecidableEq ν] in
/-- A ticket on the net counter covers what its charge has to cover. -/
theorem counted_le_worth (hb : FeeBooks env max home req x.store x.mem g)
    (hi : i ∈ accepted home req x day) :
    (chargeOf home x i).elim 0 Handle.counted ≤ worth ((g i).wallet (feeDayKey env day)) := by
  obtain ⟨h, hh, hc, hnet, -⟩ := hb.of_accepted hi
  obtain ⟨a, seen, hticket, -, ha⟩ := hc.net
  rw [← hnet, hticket, hh, Option.elim_some, worth_some]
  rcases ha with ha | ⟨-, ha⟩
  · exact (Handle.counted_le hc.bid).trans ha.ge
  · exact ha.ge

omit [DecidableEq ι] [DecidableEq ν] in
theorem within (hb : FeeBooks env max home req x.store x.mem g) :
    ∑ i ∈ accepted home req x day, worth ((g i).wallet (feeDayKey env day)) ≤ max := by
  refine (hb.books.metered _).sum_le (by omega) fun i hi => ?_
  obtain ⟨h, -, hc, hnet, -⟩ := hb.of_accepted hi
  obtain ⟨a, seen, hticket, hseen, -⟩ := hc.net
  exact ⟨_, hnet ▸ hticket, hseen⟩

omit [DecidableEq ι] [DecidableEq ν] in
theorem bids_le_gross (hb : FeeBooks env max home req x.store x.mem g) :
    ∑ i ∈ accepted home req x day, (chargeOf home x i).elim 0 (·.charge.bidStroops) ≤
      x.store.kv.count (feeGrossDayKey env day) := by
  refine le_trans (Finset.sum_le_sum fun i hi => ?_) ((hb.books.metered _).sum_le_total _)
  obtain ⟨h, hh, hc, -, hgross⟩ := hb.of_accepted hi
  obtain ⟨n, hticket⟩ := hc.gross
  rw [← hgross, hticket, hh, Option.elim_some, worth_some]

omit [DecidableEq ι] [DecidableEq ν] in
theorem net_le_gross (hb : FeeBooks env max home req x.store x.mem g)
    (hrest : ∀ i, worth ((g i).wallet ((req i).netKey env)) ≤
      worth ((g i).wallet ((req i).grossKey env))) :
    x.store.kv.count (feeDayKey env day) ≤ x.store.kv.count (feeGrossDayKey env day) := by
  rw [(hb.books.metered (feeDayKey env day)).total, (hb.books.metered (feeGrossDayKey env day)).total]
  apply Finset.sum_le_sum
  intro i _
  by_cases hday : (req i).On day
  · have hnet : (req i).netKey env = feeDayKey env day := feeDayKey_inj.mpr hday
    have hgross : (req i).grossKey env = feeGrossDayKey env day := feeGrossDayKey_inj.mpr hday
    rw [← hnet, ← hgross]
    exact hrest i
  · have hnone := hb.own i (feeDayKey env day) (fun h => hday (feeDayKey_inj.mp h).symm)
      feeDayKey_ne_feeGrossDayKey
    rw [hnone, worth_none]
    exact (hb.books.metered _).nonneg i

omit [DecidableEq ι] [DecidableEq ν] in
/-- What is booked on the net counter for a charge is its bid, or what the first call left of it. -/
theorem booked_net (hb : FeeBooks env max home req x.store x.mem g)
    (hh : chargeOf home x i = some h) :
    x.store.booked i ((req i).grossKey env) = h.charge.bidStroops ∧
      h.counted ≤ h.charge.bidStroops ∧
      (x.store.booked i ((req i).netKey env) = h.charge.bidStroops ∨
        h.closedBy ≠ none ∧ x.store.booked i ((req i).netKey env) = h.counted) := by
  have hc := hb.covered i h ((hb.handle i).symm.trans hh)
  obtain ⟨a, seen, hnet, -, ha⟩ := hc.net
  obtain ⟨n, hgross⟩ := hc.gross
  refine ⟨?_, Handle.counted_le hc.bid, ?_⟩
  · rw [hb.books.booked, hgross, worth_some]
  · rw [hb.books.booked, hnet, worth_some]
    exact ha

end FeeBooks

/-- **The fee budget covers what is spent.** At any time the net counter of a day covers the day's
accepted charges, and the gross counter their bids; the gross counter is not below the net one unless
some pipeline is half executed. So what the network took for the day's transactions is within the
budget. And later on, whatever is called on a charge, its bid stays on the gross counter, and its
part of the net counter moves at most once, from the bid to what the first call leaves. -/
theorem fees_cover_spend (hkv : env.kv = true) (home : ι → ν) (req : ι → FeeRequest)
    (schedule : List ι) (day : Instant) :
    let x := (feeCharges env max home req).final (reliably schedule)
    let net := x.store.kv.count (feeDayKey env day)
    let gross := x.store.kv.count (feeGrossDayKey env day)
    ∑ i ∈ accepted home req x day, (chargeOf home x i).elim 0 Handle.counted ≤ net ∧
    ∑ i ∈ accepted home req x day, (chargeOf home x i).elim 0 (·.charge.bidStroops) ≤ gross ∧
    ((∀ i, (x.prog i).midway = false) → net ≤ gross) ∧
    (∀ spent : ι → ℤ, (∀ i h, chargeOf home x i = some h → h.Truthful (spent i)) →
      ∑ i ∈ accepted home req x day, spent i ≤ net ∧
      ∑ i ∈ accepted home req x day, spent i ≤ max) ∧
    ∀ later i h, chargeOf home x i = some h →
      let x' := (feeCharges env max home req).final (reliably (schedule ++ later))
      let netOf := fun y : FeeCharges ι ν => y.store.booked i (feeDayKey env (req i).now)
      let grossOf := fun y : FeeCharges ι ν => y.store.booked i (feeGrossDayKey env (req i).now)
      grossOf x = h.charge.bidStroops ∧ grossOf x' = grossOf x ∧
      ∃ h', chargeOf home x' i = some h' ∧ h.Later h' ∧ (netOf x' = netOf x ∨
        netOf x = h.charge.bidStroops ∧ netOf x' = h'.counted ∧ h'.closedBy ≠ none) := by
  intro x net gross
  obtain ⟨g, hb, hrest⟩ := fees_sound max hkv home req schedule
  change FeeBooks env max home req x.store x.mem g at hb
  have hnet : ∑ i ∈ accepted home req x day, worth ((g i).wallet (feeDayKey env day)) ≤ net :=
    (hb.books.metered _).sum_le_total _
  refine ⟨(Finset.sum_le_sum fun i => hb.counted_le_worth).trans hnet, hb.bids_le_gross,
    fun h => hb.net_le_gross fun i => hrest i (h i), fun spent hspent => ?_, ?_⟩
  · have hle : ∑ i ∈ accepted home req x day, spent i ≤
        ∑ i ∈ accepted home req x day, worth ((g i).wallet (feeDayKey env day)) := by
      refine Finset.sum_le_sum fun i hi => le_trans ?_ (hb.counted_le_worth hi)
      obtain ⟨h, hh, -⟩ := hb.of_accepted hi
      rw [hh, Option.elim_some]
      exact (hspent i h hh).le_counted
    exact ⟨hle.trans hnet, hle.trans hb.within⟩
  · intro later i h hh x' netOf grossOf
    obtain ⟨g', hb', -⟩ := fees_sound max hkv home req (schedule ++ later)
    change FeeBooks env max home req x'.store x'.mem g' at hb'
    obtain ⟨h', hh', hlater, hlower, hsame⟩ := fees_later max hkv home req schedule later
      i h hh
    obtain ⟨hgross, hle, hbooked⟩ := hb.booked_net hh
    obtain ⟨-, -, hbooked'⟩ := hb'.booked_net hh'
    refine ⟨hgross, hsame, h', hh', hlater, ?_⟩
    change netOf x = _ ∨ _ ∧ netOf x = _ at hbooked
    change netOf x' = _ ∨ _ ∧ netOf x' = _ at hbooked'
    change netOf x' ≤ netOf x at hlower
    rw [hlater.1] at hbooked'
    rcases hbooked with hwhole | ⟨hclosed, hwhole⟩
    · rcases hbooked' with hwhole' | ⟨hclosed', hwhole'⟩
      · exact .inl (hwhole'.trans hwhole.symm)
      · exact .inr ⟨hwhole, hwhole', hclosed'⟩
    · -- The call that closed the charge has moved the counter, or had nothing to move.
      have heq : h' = h := by
        obtain ⟨hcharge, hcall⟩ := hlater
        have hcall := hcall hclosed
        cases h
        cases h'
        cases hcharge
        cases hcall
        rfl
      rcases hbooked' with hwhole' | ⟨-, hwhole'⟩
      · exact .inl (by omega)
      · exact .inl (by rw [hwhole', hwhole, heq])

end

namespace Demo

/-- A bid of 100 stroops that is settled at 30, and one of 50. -/
def bids : Bool → FeeRequest
  | true => ⟨.string " 100", noon, [.settled (some (.number (some 30))), .notIncluded]⟩
  | false => ⟨.bigint 50, noon, [.notIncluded]⟩

/-- The second bid is refused while the first is in flight, and the first is then settled. -/
def settling : List Bool :=
  [true, false] ++ List.replicate 4 true ++ List.replicate 4 false ++ List.replicate 2 true ++
    List.replicate 6 false ++ List.replicate 5 true

end Demo

theorem fees_cover_spend_settled :
    let x := (feeCharges Demo.testnet 120 (fun _ => ()) Demo.bids).final (reliably Demo.settling)
    x.store.kv.count (feeDayKey Demo.testnet Demo.noon) = 30 ∧
      x.store.kv.count (feeGrossDayKey Demo.testnet Demo.noon) = 100 ∧
      ∑ i ∈ accepted (fun _ => ()) Demo.bids x Demo.noon,
        (chargeOf (fun _ => ()) x i).elim 0 Handle.counted ≤ 30 := by
  intro x
  have hnet : x.store.kv.count (feeDayKey Demo.testnet Demo.noon) = 30 := by decide +kernel
  refine ⟨hnet, by decide +kernel, ?_⟩
  rw [← hnet]
  exact (fees_cover_spend rfl (fun _ => ()) Demo.bids Demo.settling Demo.noon).1

end Lumenia.Sponsor

import Lumenia.Sponsor.Channels
import Lumenia.Sponsor.OutageFees
import Lumenia.Theory.Alone

/-!
# What a handout holds of the sponsor's

One call of `createAccountHandler`, with the commands of `chargeSponsorFee` and of the charge in place of
their answers. Each command succeeds or fails, and other calls of the process move its counter in between.
The books keep what the call itself has added to each counter of the store and to the one in memory, and
the leases that it was given and has not released.
-/

namespace Lumenia.Sponsor.Handout

open Dialogue Prog Channels

/-! ## The fee budget -/

/-- What the commands of one call have moved. -/
structure Books where
  /-- The process: its counter, and the charges of the call. -/
  mem : FeeMemory ℕ
  /-- What is added to each counter of the store. -/
  booked : String → ℤ
  /-- What of the counter in memory is added by the call. -/
  mine : ℤ
  /-- The days that the process has left. -/
  past : List String

namespace Books

variable (b : Books)

def day : String := b.mem.counters.localFeeDay

/-- Another day begins with an empty counter. -/
def write (m : FeeMemory ℕ) : Books where
  mem := m
  booked := b.booked
  mine := if m.counters.localFeeDay = b.day then
      b.mine + (m.counters.localFeeStroops - b.mem.counters.localFeeStroops)
    else m.counters.localFeeStroops
  past := if m.counters.localFeeDay = b.day then b.past else b.day :: b.past

/-- Other calls of the process move the counter, and take off it no more than they have added. No day
comes back. -/
inductive Stirred : Books → Prop
  | same (c : LocalFees) (hday : c.localFeeDay = b.day) (hmine : b.mine ≤ c.localFeeStroops) :
    Stirred { b with mem := { b.mem with counters := c } }
  | begun (c : LocalFees) (hday : c.localFeeDay ≠ b.day) (hpast : c.localFeeDay ∉ b.past)
    (hpos : 0 ≤ c.localFeeStroops) :
    Stirred { b with mem := { b.mem with counters := c }, mine := 0, past := b.day :: b.past }

end Books

/-- One command: the number it answers, or that it has failed. -/
abbrev Fate := ℕ → Option ℤ

def book : Cmd → (String → ℤ) → String → ℤ
  | .incrby key delta, booked => Function.update booked key (booked key + delta)
  | _, booked => booked

/-- The commands of a pipeline from the `n`-th on, with their replies. -/
def execAll (fate : Fate) : List Cmd → ℕ → (String → ℤ) → (String → ℤ) × List KvReply
  | [], _, booked => (booked, [])
  | cmd :: cmds, n, booked =>
    match fate n with
    | none =>
      let (booked, replies) := execAll fate cmds (n + 1) booked
      (booked, .err "ERR" :: replies)
    | some total =>
      let (booked, replies) := execAll fate cmds (n + 1) (book cmd booked)
      (booked, .of (.int total) :: replies)

/-- Give-backs are executed. -/
def Accepted (cmds : List Cmd) (fate : Fate) : Prop :=
  (∃ key delta, .incrby key delta ∈ cmds ∧ delta < 0) → ∀ n, (fate n).isSome

/-- The pipeline is executed and answered, or it is not executed. -/
def Whole (fate : Fate) (failure : Option String) : Prop :=
  (∀ n, (fate n).isSome) ∧ failure = none ∨ ∀ n, fate n = none

/-- One step of a charge; `terms` is what pipelines are known to do. -/
def Step (terms : Fate → Option String → Prop) (b : Books) :
    (q : Query Cmd (FeeMemory ℕ)) → q.Answer KvReply → Books → Prop
  | .batch cmds, r, b' => ∃ fate failure, Accepted cmds fate ∧ terms fate failure ∧
    r = (match failure with
      | some message => .error message
      | none => .ok (execAll fate cmds 0 b.booked).2) ∧
    b' = { b with booked := (execAll fate cmds 0 b.booked).1 }
  | .memory f, m, b' => ∃ b₁, b.Stirred b₁ ∧ m = b₁.mem ∧ b' = b₁.write (f b₁.mem)

/-! ## The call -/

structure World where
  books : Books
  /-- How many bids the call has tried to charge. -/
  charges : ℕ
  /-- The keys that the call holds, with its tokens. -/
  leases : List (String × String)
  /-- What sandwiches have left, each with its channel. -/
  out : List (Option ChannelLease)

/-- The lease that an answer gives. -/
def granted (result : Option Result) : LeaseCmd → List (String × String)
  | .setNx key token _ => if result = some (.str "OK") then [(key, token)] else []
  | .acquireAny keys token _ => ((placeOf keys result).map fun n => (keys.getD n "", token)).toList
  | .fencedDel .. => []

/-- What a command does to the leases of the call. A release is executed whatever its answer. -/
def leased (result : Option Result) (cmd : LeaseCmd) (leases : List (String × String)) :
    List (String × String) :=
  match cmd with
  | .fencedDel key token => leases.filter (· ≠ (key, token))
  | cmd => leases ++ granted result cmd

def resultOf : Except String (List KvReply) → Option Result
  | .ok (first :: _) => if first.failed then none else first.result
  | _ => none

/-- What is known of the store: of the pipelines of the fee budget, and of what it did for a lease beside
what it answers. -/
structure Terms where
  pipeline : Fate → Option String → Prop
  lease (done told : Option Result) : Prop

/-- Each pipeline and each command for a lease is executed and answered, or it is not executed. -/
def whole : Terms := ⟨Whole, fun done told => told = done⟩

section

variable (terms : Terms) (env : Env) (maxDayFeeStroops : ℕ)

/-- Any step of the call. What the handler asks for by one name is the program of `Sponsor.Fees`. -/
def Steps (w : World) : (q : Ask) → q.Answer → World → Prop
  | .await (.chargeSponsorFee fee), r, w' => ∃ now books,
    Runs (Step terms.pipeline)
        (chargeSponsorFee (ε := Unit) env maxDayFeeStroops w.charges (.bigint fee) now).alone
      w.books (.ok r) books ∧ w' = { w with books := books, charges := w.charges + 1 }
  | .await (.settle call), (), w' => ∃ handle books, w.books.mem.handles (w.charges - 1) = some handle ∧
    Runs (Step terms.pipeline) (handle.charge.call (ε := Unit) (w.charges - 1) call).alone w.books (.ok ()) books ∧
      w' = { w with books := books }
  | .pipeline cmd, a, w' => ∃ done, (resultOf a = done ∨ resultOf a = none) ∧
    terms.lease done (resultOf a) ∧ w' = { w with leases := leased done cmd w.leases }
  | .memory cmd, a, w' => w' = { w with leases := leased (some a) cmd w.leases }
  | .handOut l, (), w' => w' = { w with out := w.out ++ [l] }
  | _, _, w' => w' = w

end

/-! ## What is counted -/

/-- A bid is counted once, in the store or in memory; there until the process begins another day. -/
structure Counted (env : Env) (key : String) (bid : ℤ) (shared : Bool) (b : Books) : Prop where
  isDay : ∃ now, key = feeDayKey env now
  booked : ∀ now, b.booked (feeDayKey env now) = if shared ∧ feeDayKey env now = key then bid else 0
  mine : b.mine = if !shared ∧ b.day = key then bid else 0
  past : b.day ≠ key → shared ∨ key ∈ b.past
  bounded : b.mine ≤ b.mem.counters.localFeeStroops

/-- No bid is counted. -/
structure Clear (env : Env) (b : Books) : Prop where
  booked : ∀ now, b.booked (feeDayKey env now) = 0
  mine : b.mine = 0
  bounded : 0 ≤ b.mem.counters.localFeeStroops

/-- The charge is open, and its bid is counted. -/
structure Standing (env : Env) (charge : FeeCharge) (n : ℕ) (b : Books) : Prop where
  counted : Counted env charge.key charge.bidStroops charge.shared b
  handle : b.mem.handles n = some ⟨charge, none⟩

section

variable {env : Env} {b b₁ : Books} {key : String} {bid : ℤ} {shared : Bool} {now : Instant} {m : FeeMemory ℕ}

theorem Counted.stirred (h : Counted env key bid shared b) (hstir : b.Stirred b₁) :
    Counted env key bid shared b₁ := by
  cases hstir with
  | same c hday hmine =>
    exact ⟨h.isDay, h.booked, h.mine.trans (by rw [Books.day, Books.day, hday]; rfl),
      fun hne => h.past fun heq => hne (hday.trans heq), hmine⟩
  | begun c hday hpast hpos =>
    refine ⟨h.isDay, h.booked, ?_, fun _ => ?_, hpos⟩
    · rw [if_neg]
      rintro ⟨hshared, hkey⟩
      rcases eq_or_ne b.day key with heq | hne
      · exact hday (hkey.trans heq.symm)
      · rcases h.past hne with hs | hmem
        · rw [hs] at hshared
          cases hshared
        · have hkey : c.localFeeDay = key := hkey
          exact hpast (hkey ▸ hmem)
    · rcases eq_or_ne b.day key with heq | hne
      · exact .inr (heq ▸ List.mem_cons_self)
      · exact (h.past hne).imp_right (List.mem_cons_of_mem _)

theorem Clear.stirred (h : Clear env b) (hstir : b.Stirred b₁) : Clear env b₁ := by
  cases hstir with
  | same c hday hmine => exact ⟨h.booked, h.mine, h.mine ▸ hmine⟩
  | begun c hday hpast hpos => exact ⟨h.booked, rfl, hpos⟩

theorem Books.Stirred.handles (hstir : b.Stirred b₁) : b₁.mem.handles = b.mem.handles := by
  cases hstir <;> rfl

/-- What is written beside the counter changes nothing. -/
theorem Books.write_of_counters (hm : m.counters = b.mem.counters) : b.write m = { b with mem := m } := by
  unfold Books.write Books.day
  rw [hm, if_pos rfl, if_pos rfl, sub_self, add_zero]

/-- A bid is added to the counter in memory. -/
theorem Clear.add (h : Clear env b) (hbid : 0 ≤ bid) :
    Counted env (feeDayKey env now) bid false
      (b.write (b.mem.addFees bid (feeDayKey env now) bid).1) := by
  have hday : (b.mem.counters.addToLocalFees bid (feeDayKey env now) bid).1.localFeeDay = feeDayKey env now :=
    LocalFees.localFeeDay_addToLocalFees (.inr hbid)
  have hmine : (b.write (b.mem.addFees bid (feeDayKey env now) bid).1).mine = bid ∧
      bid ≤ (b.mem.counters.addToLocalFees bid (feeDayKey env now) bid).1.localFeeStroops := by
    unfold Books.write FeeMemory.addFees
    dsimp only
    rw [hday]
    rcases eq_or_ne b.mem.counters.localFeeDay (feeDayKey env now) with heq | hne
    · have hsum : (b.mem.counters.addToLocalFees bid (feeDayKey env now) bid).1.localFeeStroops = _ :=
        (LocalFees.addToLocalFees_of_eq heq (add_nonneg h.bounded hbid)).2
      have hpos := h.bounded
      rw [if_pos (show feeDayKey env now = b.day from heq.symm), h.mine, hsum]
      omega
    · have hsum : (b.mem.counters.addToLocalFees bid (feeDayKey env now) bid).1.localFeeStroops = _ :=
        (LocalFees.addToLocalFees_fresh hne hbid).2
      rw [if_neg (show feeDayKey env now ≠ b.day from hne.symm), hsum]
      exact ⟨rfl, le_rfl⟩
  refine ⟨⟨now, rfl⟩, fun now' => ?_, ?_, fun hne => absurd hday hne, hmine.1.trans_le hmine.2⟩
  · rw [if_neg fun hs => Bool.false_ne_true hs.1]
    exact h.booked now'
  · rw [if_pos ⟨rfl, hday⟩, hmine.1]

/-- It is taken off again. -/
theorem Counted.takeOff {gross : ℤ} (h : Counted env key bid false b) (hbid : 0 < bid)
    (hm : m.counters = (b.mem.counters.addToLocalFees (-bid) key gross).1) :
    Clear env (b.write m) := by
  have hmine := h.mine
  have hbounded := h.bounded
  have hwrite : (b.write m).mine = 0 ∧ 0 ≤ m.counters.localFeeStroops := by
    unfold Books.write
    dsimp only
    rcases eq_or_ne b.mem.counters.localFeeDay key with heq | hne
    · rw [if_pos ⟨rfl, heq⟩] at hmine
      have hday : (b.mem.counters.addToLocalFees (-bid) key gross).1.localFeeDay = key :=
        LocalFees.localFeeDay_addToLocalFees (.inl heq)
      have hsum : (b.mem.counters.addToLocalFees (-bid) key gross).1.localFeeStroops = _ :=
        (LocalFees.addToLocalFees_of_eq heq (by omega)).2
      rw [hm, hday, if_pos (show key = b.day from heq.symm), hsum]
      omega
    · have hsame : (b.mem.counters.addToLocalFees (-bid) key gross).1 = b.mem.counters :=
        LocalFees.addToLocalFees_of_ne hne (by omega)
      rw [if_neg fun hs => hne hs.2] at hmine
      rw [hm, hsame, if_pos (show b.mem.counters.localFeeDay = b.day from rfl)]
      omega
  exact ⟨fun now => (h.booked now).trans (if_neg fun hs => Bool.false_ne_true hs.1), hwrite.1, hwrite.2⟩

end

/-! ## Pipelines -/

def addAll (keys : List String) (delta : ℤ) (booked : String → ℤ) : String → ℤ :=
  keys.foldl (fun booked key => Function.update booked key (booked key + delta)) booked

section

variable {fate : Fate} {cmds : List Cmd} {keys : List String} {n : ℕ} {booked : String → ℤ} {delta : ℤ}

theorem execAll_none (h : ∀ n, fate n = none) :
    execAll fate cmds n booked = (booked, cmds.map fun _ => .err "ERR") := by
  induction cmds generalizing n with
  | nil => rfl
  | cons cmd cmds ih => rw [execAll, h n, ih]; rfl

theorem execAll_incr (h : ∀ n, (fate n).isSome) :
    (execAll fate (keys.flatMap fun key => incrCmds key delta) n booked).1 = addAll keys delta booked ∧
      ∃ totals, ∀ offset before, before.length = offset →
        incrTotals (before ++ (execAll fate (keys.flatMap fun key => incrCmds key delta) n booked).2) keys
          offset = .ok totals := by
  induction keys generalizing n booked with
  | nil => exact ⟨rfl, [], fun _ _ _ => rfl⟩
  | cons key keys ih =>
    obtain ⟨total, htotal⟩ := Option.isSome_iff_exists.mp (h n)
    obtain ⟨expire, hexpire⟩ := Option.isSome_iff_exists.mp (h (n + 1))
    obtain ⟨hbooked, totals, htotals⟩ := @ih (n + 1 + 1) (Function.update booked key (booked key + delta))
    rw [List.flatMap_cons, incrCmds, List.cons_append, List.cons_append, List.nil_append, execAll, htotal]
    dsimp only
    rw [execAll, hexpire]
    refine ⟨hbooked, total :: totals, fun offset before hlen => ?_⟩
    have hrest := htotals (offset + 2) (before ++ [.of (.int total), .of (.int expire)])
      (by rw [List.length_append, hlen]; rfl)
    rw [List.append_assoc] at hrest
    have hhead : ∀ rest : List KvReply, (before ++ .of (.int total) :: rest)[offset]? =
        some (.of (.int total)) := by
      intro rest
      rw [← hlen, List.getElem?_append_right le_rfl, Nat.sub_self]
      rfl
    rw [incrTotals, hhead]
    exact congrArg (fun ns => (ns : Except String (List ℤ)) >>= fun ns => pure (total :: ns)) hrest

theorem incrTotals_none {key : String} {offset : ℕ} {replies : List KvReply}
    (h : replies[offset]? = some (.err "ERR")) : ∃ e, incrTotals replies (key :: keys) offset = .error e := by
  rw [incrTotals, h]
  exact ⟨_, rfl⟩

end

section

variable {b : Books} {keys : List String} {key : String} {delta : ℤ} {Q : Except String (List ℤ) → Books → Prop}

/-- An addition is executed and answered, or it is not executed. -/
theorem leaves_addToDays
    (hok : ∀ totals, Q (.ok totals) { b with booked := addAll (key :: keys) delta b.booked })
    (hfail : ∀ e, Q (.error e) b) :
    (addToDays (ε := Unit) (key :: keys) delta).Leaves (Step Whole) Q b := by
  unfold addToDays pipeline
  rw [pipe_bind, leaves_pipe]
  intro r b' h
  obtain ⟨fate, failure, -, hwhole, rfl, rfl⟩ := h
  rw [ret_bind, pure_eq, leaves_ret]
  rcases hwhole with ⟨hall, rfl⟩ | hnone
  · obtain ⟨hbooked, totals, htotals⟩ := @execAll_incr fate (key :: keys) 0 b.booked delta hall
    have htotals := htotals 0 [] rfl
    rw [hbooked]
    exact (congrArg (Q · _) htotals).mpr (hok totals)
  · rw [execAll_none hnone]
    cases failure with
    | some message => exact hfail message
    | none =>
      obtain ⟨e, he⟩ := @incrTotals_none keys key 0
        (((key :: keys).flatMap fun key => incrCmds key delta).map fun _ => .err "ERR") rfl
      exact (congrArg (Q · _) he).mpr (hfail e)

/-- What is taken off is taken off, whatever is answered. -/
theorem leaves_takeOff (hneg : delta < 0)
    (h : ∀ r, Q r { b with booked := addAll (key :: keys) delta b.booked }) :
    (addToDays (ε := Unit) (key :: keys) delta).Leaves (Step Whole) Q b := by
  unfold addToDays pipeline
  rw [pipe_bind, leaves_pipe]
  rintro r b' ⟨fate, failure, haccepted, -, -, rfl⟩
  rw [ret_bind, pure_eq, leaves_ret]
  have hall := haccepted ⟨key, delta, List.mem_cons_self, hneg⟩
  rw [(execAll_incr hall).1]
  exact h _

end

/-! ## Charges -/

section

variable {env : Env} {b b₁ : Books} {key : String} {bid delta : ℤ} {shared : Bool} {now now' : Instant}
  {n max : ℕ} {charge : FeeCharge}

theorem leaves_atomically {α : Type} {terms : Fate → Option String → Prop}
    {f : FeeMemory ℕ → FeeMemory ℕ × α} {Q : α → Books → Prop}
    (h : ∀ b₁, b.Stirred b₁ → Q (f b₁.mem).2 (b₁.write (f b₁.mem).1)) :
    (atomically (ε := Unit) f).Leaves (Step terms) Q b := by
  unfold atomically
  rw [leaves_mem]
  rintro m b' ⟨b₁, hstir, rfl, rfl⟩
  exact leaves_ret.mpr (h b₁ hstir)

theorem addAll_net : addAll [feeDayKey env now, feeGrossDayKey env now] delta b.booked (feeDayKey env now') =
    b.booked (feeDayKey env now') + if feeDayKey env now' = feeDayKey env now then delta else 0 := by
  rw [addAll, List.foldl_cons, List.foldl_cons, List.foldl_nil,
    Function.update_of_ne feeDayKey_ne_feeGrossDayKey, Function.update_apply]
  split
  · rename_i heq
    rw [heq]
  · rw [add_zero]

theorem addAll_one : addAll [key] delta b.booked (feeDayKey env now') =
    b.booked (feeDayKey env now') + if feeDayKey env now' = key then delta else 0 := by
  rw [addAll, List.foldl_cons, List.foldl_nil, Function.update_apply]
  split
  · rename_i heq
    rw [heq]
  · rw [add_zero]

theorem Clear.addShared (h : Clear env b) :
    Counted env (feeDayKey env now) bid true
      { b with booked := addAll [feeDayKey env now, feeGrossDayKey env now] bid b.booked } where
  isDay := ⟨now, rfl⟩
  booked now' := by
    dsimp only
    rw [addAll_net, h.booked, zero_add]
    simp only [true_and]
  mine := h.mine
  past _ := .inl rfl
  bounded := h.mine.trans_le h.bounded

/-- A bid that the store counts is taken off again. -/
theorem Counted.clear {booked : String → ℤ} (h : Counted env key bid true b)
    (hbooked : ∀ now', booked (feeDayKey env now') = b.booked (feeDayKey env now') +
      if feeDayKey env now' = key then -bid else 0) : Clear env { b with booked := booked } where
  booked now' := by
    dsimp only
    rw [hbooked, h.booked]
    simp only [true_and]
    split
    · exact add_neg_cancel bid
    · rfl
  mine := h.mine
  bounded := h.mine.symm.trans_le h.bounded

theorem leaves_countFee (h : Clear env b) (hbid : 0 < bid) :
    (countFee (ε := Unit) env bid now).Leaves (Step Whole)
      (fun r b' => Counted env (feeDayKey env now) bid r.2 b') b := by
  have hlocal : ∀ Q : ℤ → Books → Prop,
      (∀ total b', Counted env (feeDayKey env now) bid false b' → Q total b') →
      (atomically (ε := Unit) fun m : FeeMemory ℕ => m.addFees bid (feeDayKey env now) bid).Leaves
        (Step Whole) Q b :=
    fun Q hQ => leaves_atomically fun b₁ hstir => hQ _ _ ((h.stirred hstir).add hbid.le)
  unfold countFee
  dsimp only
  split
  · rw [leaves_bind]
    exact hlocal _ fun total b' hb' => leaves_ret.mpr hb'
  · rw [leaves_bind]
    refine leaves_addToDays (fun totals => ?_) (fun e => ?_)
    · exact leaves_ret.mpr h.addShared
    · dsimp only
      rw [leaves_bind]
      exact hlocal _ fun total b' hb' => leaves_ret.mpr hb'

/-- A charge counts its bid, and a refusal leaves nothing. -/
theorem leaves_charge (h : Clear env b) (hbid : 0 < bid) :
    (chargeSponsorFee (ε := Unit) env max n (.bigint bid) now).Leaves (Step Whole) (fun r b' =>
      match r with
      | .ok charge => Standing env charge n b' ∧ charge.bidStroops = bid
      | .error _ => Clear env b') b := by
  have hwhole : toStroops (.bigint bid) = .ok bid := if_neg (not_lt.mpr hbid.le)
  unfold chargeSponsorFee
  rw [hwhole]
  dsimp only
  rw [leaves_bind]
  apply leaves_mono (leaves_countFee h hbid)
  intro r b' hcounted
  obtain ⟨total, shared⟩ := r
  dsimp only at hcounted ⊢
  split
  · cases shared with
    | true =>
      rw [if_pos rfl, leaves_bind]
      exact leaves_takeOff (neg_lt_zero.mpr hbid) fun r =>
        leaves_ret.mpr (hcounted.clear fun now' => addAll_net)
    | false =>
      rw [if_neg Bool.false_ne_true, leaves_bind]
      exact leaves_atomically fun b₁ hstir => leaves_ret.mpr ((hcounted.stirred hstir).takeOff hbid rfl)
  · rw [leaves_bind]
    refine leaves_atomically fun b₁ hstir => leaves_ret.mpr ⟨?_, rfl⟩
    have hwrite : ∀ handle, b₁.write (b₁.mem.openHandle n handle) =
        { b₁ with mem := b₁.mem.openHandle n handle } := fun _ => Books.write_of_counters rfl
    rw [hwrite]
    have hcounted := hcounted.stirred hstir
    exact ⟨⟨hcounted.isDay, hcounted.booked, hcounted.mine, hcounted.past, hcounted.bounded⟩,
      Function.update_self ..⟩

/-- The bid of a charge that is open comes back. -/
theorem leaves_notIncluded (h : Standing env charge n b) (hbid : 0 < charge.bidStroops) :
    (charge.call (ε := Unit) n .notIncluded).Leaves (Step Whole) (fun _ b' => Clear env b') b := by
  have hstroops : ¬charge.bidStroops ≤ 0 := not_le.mpr hbid
  unfold FeeCharge.call FeeCharge.notIncluded FeeCharge.giveBack
  rw [leaves_bind]
  apply leaves_atomically
  intro b₁ hstir
  have hcounted := h.counted.stirred hstir
  have hopen : b₁.mem.isOpen n = true := by
    rw [FeeMemory.isOpen, hstir.handles, h.handle]
    rfl
  rw [hopen]
  simp only [Bool.not_true, Bool.false_eq_true, if_false, if_neg hstroops]
  cases hshared : charge.shared with
  | false =>
    rw [hshared] at hcounted
    simp only [Bool.not_false, if_true]
    exact leaves_ret.mpr (hcounted.takeOff hbid rfl)
  | true =>
    rw [hshared] at hcounted
    simp only [Bool.not_true, Bool.false_eq_true, if_false, if_true]
    have hwrite : b₁.write (b₁.mem.close n .notIncluded) = { b₁ with mem := b₁.mem.close n .notIncluded } :=
      Books.write_of_counters rfl
    rw [hwrite, leaves_bind]
    exact leaves_takeOff (neg_lt_zero.mpr hbid) fun r =>
      leaves_ret.mpr (Counted.clear ⟨hcounted.isDay, hcounted.booked, hcounted.mine, hcounted.past,
        hcounted.bounded⟩ fun now' => addAll_one)

end

/-! ## Leases -/

section

variable {env : Env} {max : ℕ} {w : World}

/-- The call holds one more lease, or nothing has changed. -/
def Took (w : World) (found : Option (String × String)) (w' : World) : Prop :=
  w' = { w with leases := w.leases ++ found.toList }

theorem took_none : Took w none w := by
  rw [Took, Option.toList_none, List.append_nil]

/-- What a store of leases does for the call. -/
structure Keeps (env : Env) (max : ℕ) (store : LeaseStore) : Prop where
  acquire : ∀ key ttl w, (store.acquire key ttl).wp (Steps whole env max) (fun r w' =>
    match r with
    | .ok token => Took w (token.map (key, ·)) w'
    | .error _ => w' = w) w
  acquireAny : ∀ f, store.acquireAny = some f → ∀ keys ttl w, (f keys ttl).wp (Steps whole env max)
    (fun r w' =>
      match r with
      | .ok none | .error _ => w' = w
      | .ok (some (index, token)) => ∃ key, keys[index]? = some key ∧ Took w (some (key, token)) w') w
  release : ∀ key token w, (store.release key token).wp (Steps whole env max)
    (fun r w' => r = .ok () ∧ w' = { w with leases := w.leases.filter (· ≠ (key, token)) }) w

theorem wp_pipeline (cmd : LeaseCmd) : (Channels.pipeline cmd).wp (Steps whole env max) (fun r w' =>
    w' = { w with leases := leased r.toOption.join cmd w.leases }) w := by
  unfold Channels.pipeline
  rw [question_bind]
  intro a w' hstep
  obtain ⟨_, -, rfl, rfl⟩ := hstep
  match a with
  | .error message => exact wp_throw.mpr rfl
  | .ok [] => exact wp_throw.mpr rfl
  | .ok (first :: rest) =>
    dsimp only
    rw [wp_ite, resultOf]
    constructor
    · intro hfailed
      rw [if_pos hfailed]
      exact wp_throw.mpr rfl
    · intro hgood
      rw [if_neg hgood]
      exact wp_pure.mpr rfl

theorem took_setNx {key token : String} {ttl : ℕ} {result : Option Result} :
    Took w ((if result = some (.str "OK") then some token else none).map (key, ·))
      { w with leases := leased result (.setNx key token ttl) w.leases } := by
  have hleased : leased result (.setNx key token ttl) w.leases =
      w.leases ++ if result = some (.str "OK") then [(key, token)] else [] := rfl
  rw [Took, hleased]
  by_cases hok : result = some (.str "OK")
  · rw [if_pos hok, if_pos hok]
    rfl
  · rw [if_neg hok, if_neg hok]
    rfl

theorem granted_none {cmd : LeaseCmd} : granted none cmd = [] := by
  cases cmd <;> rfl

theorem leased_none {cmd : LeaseCmd} {leases : List (String × String)} (hcmd : ∀ k t, cmd ≠ .fencedDel k t) :
    leased none cmd leases = leases := by
  unfold leased
  split
  · rename_i k t
    exact absurd rfl (hcmd k t)
  · rw [granted_none, List.append_nil]

theorem placeOf_lt {keys : List String} {result : Option Result} {n : ℕ} (h : placeOf keys result = some n) :
    n < keys.length := by
  unfold placeOf at h
  split at h
  · split at h
    · obtain rfl := Option.some.inj h
      omega
    · cases h
  · cases h

theorem redisLeaseStore_keeps : Keeps env max redisLeaseStore where
  acquire key ttl w := by
    unfold redisLeaseStore
    dsimp only
    rw [question_bind]
    rintro token w' rfl
    rw [wp_bind]
    refine wp_mono (fun r w' hw' => ?_) (wp_pipeline _)
    cases r with
    | error e => rw [hw']; exact congrArg (World.mk _ _ · _) (leased_none nofun)
    | ok result =>
      rw [hw']
      exact took_setNx
  acquireAny f hf keys ttl w := by
    obtain rfl := Option.some.inj hf
    dsimp only
    rw [question_bind]
    rintro token w' rfl
    rw [wp_bind]
    refine wp_mono (fun r w' hw' => ?_) (wp_pipeline _)
    cases r with
    | error e => rw [hw']; exact congrArg (World.mk _ _ · _) (leased_none nofun)
    | ok result =>
      have hleased : ∀ leases, leased result (.acquireAny keys token ttl) leases =
          leases ++ ((placeOf keys result).map fun n => (keys.getD n "", token)).toList := fun _ => rfl
      rw [hw', Except.toOption, Option.join_some, hleased, onValue_ok, wp_pure]
      cases hplace : placeOf keys result with
      | none => exact congrArg (World.mk _ _ · _) (List.append_nil _)
      | some n =>
        have hlt := placeOf_lt hplace
        refine ⟨keys[n], List.getElem?_eq_getElem hlt, ?_⟩
        rw [Option.map_some, List.getD_eq_getElem?_getD, List.getElem?_eq_getElem hlt]
        rfl
  release key token w := by
    unfold redisLeaseStore
    dsimp only
    rw [wp_bind, wp_outcome]
    refine wp_mono (fun r w' hw' => ?_) (wp_pipeline _)
    exact ⟨rfl, hw'⟩

theorem wp_memoryAcquire (key : String) (ttl : ℕ) : (memoryAcquire key ttl).wp (Steps whole env max)
    (fun r w' => ∃ token, r = .ok token ∧ Took w (token.map (key, ·)) w') w := by
  unfold memoryAcquire
  rw [question_bind]
  rintro token w' rfl
  dsimp only
  rw [question_bind]
  rintro result w' rfl
  refine wp_pure.mpr ⟨_, rfl, ?_⟩
  have htook := @took_setNx w' key token ttl (some result)
  simp only [Option.some.injEq] at htook
  exact htook

theorem wp_memoryAcquireAny (ttl : ℕ) (keys : List String) (before : List String) :
    (memoryAcquireAny ttl keys before.length).wp (Steps whole env max) (fun r w' =>
      match r with
      | .ok none | .error _ => w' = w
      | .ok (some (index, token)) =>
        ∃ key, (before ++ keys)[index]? = some key ∧ Took w (some (key, token)) w') w := by
  induction keys generalizing before with
  | nil => exact wp_pure.mpr rfl
  | cons key keys ih =>
    rw [memoryAcquireAny, wp_bind]
    refine wp_mono ?_ (wp_memoryAcquire key ttl)
    intro r w' h
    obtain ⟨token, rfl, htook⟩ := h
    cases token with
    | some token =>
      refine wp_pure.mpr ⟨key, ?_, htook⟩
      rw [List.getElem?_append_right le_rfl, Nat.sub_self]
      rfl
    | none =>
      obtain rfl : w' = w := htook.trans took_none.symm
      have hrest := ih (before ++ [key])
      rw [List.length_append] at hrest
      simp only [List.append_assoc, List.singleton_append] at hrest
      exact hrest

theorem memoryLeaseStore_keeps : Keeps env max memoryLeaseStore where
  acquire key ttl w := by
    refine wp_mono ?_ (wp_memoryAcquire key ttl)
    intro r w' h
    obtain ⟨token, rfl, htook⟩ := h
    exact htook
  acquireAny f hf keys ttl w := by
    obtain rfl := Option.some.inj hf
    exact wp_memoryAcquireAny ttl keys []
  release key token w := by
    unfold memoryLeaseStore
    dsimp only
    rw [question_bind]
    rintro a w' rfl
    exact wp_pure.mpr ⟨rfl, rfl⟩

/-- The lease that a search ends with is held, and no other. -/
def Found (w : World) (l : Option ChannelLease) (w' : World) : Prop :=
  Took w (l.map fun l => (chanKey l.publicKey, l.token)) w'

/-- A search ends, or has made so many probes in vain. -/
def Searched (w : World) (r : Except Failure (Option ChannelLease ⊕ ℕ)) (w' : World) : Prop :=
  match r with
  | .ok (.inl found) => Found w found w'
  | .ok (.inr _) => w' = w
  | .error _ => False

variable {m : ChannelManager} {opts : LeaseOptions}

theorem wp_probeEach (hstore : Keeps env max m.store) (order : List (Fin m.keypairs.length)) (probes : ℕ) :
    (probeEach m opts order probes).wp (Steps whole env max) (Searched w) w := by
  induction order generalizing probes with
  | nil => exact wp_pure.mpr rfl
  | cons idx order ih =>
    rw [probeEach, wp_ite]
    refine ⟨fun _ => wp_pure.mpr rfl, fun _ => ?_⟩
    rw [wp_bind, wp_outcome]
    refine wp_mono ?_ (hstore.acquire _ _ w)
    intro r w' htook
    match r with
    | .error e => exact wp_pure.mpr (htook.trans took_none)
    | .ok (some token) => exact wp_pure.mpr htook
    | .ok none =>
      obtain rfl : w' = w := htook.trans took_none.symm
      exact ih (probes + 1)

theorem wp_probe (hstore : Keeps env max m.store) (order : List (Fin m.keypairs.length)) (probes : ℕ) :
    (probe m opts order probes).wp (Steps whole env max) (Searched w) w := by
  unfold probe
  split
  · rename_i acquireAny hany
    unfold probeAny
    rw [wp_bind, wp_outcome]
    refine wp_mono ?_ (hstore.acquireAny _ hany _ _ w)
    intro r w' htook
    match r with
    | .error e => exact wp_pure.mpr (htook.trans took_none)
    | .ok none => exact wp_pure.mpr htook
    | .ok (some (index, token)) =>
      obtain ⟨key, hkey, htook⟩ := htook
      rw [List.getElem?_map, Option.map_eq_some_iff] at hkey
      obtain ⟨i, hi, rfl⟩ := hkey
      rw [onValue_ok]
      dsimp only
      rw [hi]
      exact wp_pure.mpr htook
  · exact wp_probeEach hstore order probes

theorem wp_attempt (hstore : Keeps env max m.store) (left probes : ℕ) :
    (attempt m opts left probes).wp (Steps whole env max)
      (fun r w' => ∃ found, r = .ok found ∧ Found w found w') w := by
  induction left generalizing probes with
  | zero => exact wp_pure.mpr ⟨none, rfl, took_none⟩
  | succ left ih =>
    rw [attempt, wp_ite]
    refine ⟨fun _ => wp_pure.mpr ⟨none, rfl, took_none⟩, fun _ => ?_⟩
    rw [question_bind]
    rintro order w' rfl
    rw [wp_bind]
    refine wp_mono ?_ (wp_probe hstore order probes)
    intro r w₁ hfound
    match r with
    | .error e => exact hfound.elim
    | .ok (.inl found) => exact wp_pure.mpr ⟨found, rfl, hfound⟩
    | .ok (.inr probes) =>
      obtain rfl : w₁ = w' := hfound
      rw [onValue_ok]
      dsimp only
      split
      · rw [question_bind]
        rintro a w₂ rfl
        exact ih probes
      · exact ih probes

theorem wp_leaseOf {channels : Option ChannelManager} (hstore : ∀ m ∈ channels, Keeps env max m.store) :
    (leaseOf channels).wp (Steps whole env max) (fun r w' => ∃ found, r = .ok found ∧ Found w found w' ∧
      (found.isSome → channels.isSome)) w := by
  cases channels with
  | none => exact wp_pure.mpr ⟨none, rfl, took_none, id⟩
  | some m =>
    rw [leaseOf, lease, wp_ite]
    refine ⟨fun _ => wp_pure.mpr ⟨none, rfl, took_none, fun _ => rfl⟩, fun _ => ?_⟩
    refine wp_mono ?_ (wp_attempt (hstore m rfl) _ _)
    intro r w' h
    obtain ⟨found, hr, hfound⟩ := h
    exact ⟨found, hr, hfound, fun _ => rfl⟩

end

/-! ## Handing out -/

section

variable {env : Env} {max : ℕ} {w : World} {cfg : SponsorConfig} {channels : Option ChannelManager}

/-- The last charge is open for so much, and its bid is counted. -/
def Charged (env : Env) (fee : ℕ) (w : World) : Prop :=
  ∃ charge, Standing env charge (w.charges - 1) w.books ∧ charge.bidStroops = fee

/-- No bid and no lease is left. -/
structure Nothing (env : Env) (w : World) : Prop where
  clear : Clear env w.books
  leases : w.leases = []
  out : w.out = []

/-- The bid of what is handed out is counted, and the lease of its channel is held; or nothing is. -/
def Settled (env : Env) (r : Except Failure Served) (w : World) : Prop :=
  match r with
  | .error _ => Nothing env w
  | .ok (.sandwich .sponsor trustlineOnly) =>
    Charged env (sandwichFee trustlineOnly) w ∧ w.leases = [] ∧ w.out = [none]
  | .ok (.sandwich .channel trustlineOnly) =>
    Charged env (sandwichFee trustlineOnly) w ∧
      ∃ l, w.leases = [(chanKey l.publicKey, l.token)] ∧ w.out = [some l]
  | .ok _ => False

theorem sandwichFee_pos {trustlineOnly : Bool} : 0 < (sandwichFee trustlineOnly : ℤ) := by
  cases trustlineOnly <;> decide

/-- Only the books have changed. -/
structure Same (w w' : World) : Prop where
  leases : w'.leases = w.leases
  out : w'.out = w.out

theorem wp_charge {fee : ℕ} (hclear : Clear env w.books) (hfee : 0 < (fee : ℤ)) :
    (Channels.chargeSponsorFee fee).wp (Steps whole env max) (fun r w' => Same w w' ∧
      match r with
      | .ok () => Charged env fee w'
      | .error _ => Clear env w'.books) w := by
  unfold Channels.chargeSponsorFee
  rw [question_bind]
  intro r w' h
  obtain ⟨now, books, hrun, rfl⟩ := h
  have hend := (leaves_charge hclear hfee).of_runs hrun rfl
  cases r with
  | ok charge => exact wp_pure.mpr ⟨⟨rfl, rfl⟩, charge, hend⟩
  | error e => exact wp_throw.mpr ⟨⟨rfl, rfl⟩, hend⟩

/-- The bid comes back. -/
theorem clear_of_settle {fee : ℕ} {w' : World} (h : Charged env fee w) (hfee : 0 < (fee : ℤ))
    (hstep : Steps whole env max w (.await (.settle .notIncluded)) () w') :
    Same w w' ∧ Clear env w'.books := by
  obtain ⟨charge, hstanding, hbid⟩ := h
  obtain ⟨handle, books, hhandle, hrun, rfl⟩ := hstep
  obtain rfl : (⟨charge, none⟩ : Handle) = handle := Option.some.inj (hstanding.handle.symm.trans hhandle)
  exact ⟨⟨rfl, rfl⟩, (leaves_notIncluded hstanding (hbid ▸ hfee)).of_runs hrun rfl⟩

theorem wp_signCharged {tx : Payable} {fee : ℕ} (h : Charged env fee w) (hfee : 0 < (fee : ℤ)) :
    (relay (signCharged tx)).wp (Steps whole env max) (fun r w' => Same w w' ∧
      match r with
      | .ok () => Charged env fee w'
      | .error _ => Clear env w'.books) w := by
  unfold relay signCharged
  rw [relabel_bind, relabel_question]
  rintro answer w' rfl
  cases answer with
  | ok u => exact ⟨⟨rfl, rfl⟩, h⟩
  | error t =>
    intro u w'' hstep
    exact clear_of_settle h hfee hstep

theorem wp_sponsorSandwich {trustlineOnly : Bool} (h : Nothing env w) :
    (sponsorSandwich cfg trustlineOnly).wp (Steps whole env max) (Settled env) w := by
  unfold sponsorSandwich
  rw [question_bind]
  rintro loaded w' rfl
  cases loaded with
  | error t => exact h
  | ok u =>
    rintro u w' rfl
    change (Channels.chargeSponsorFee (sandwichFee trustlineOnly) >>= _).wp _ _ _
    rw [wp_bind]
    refine wp_mono ?_ (wp_charge h.clear sandwichFee_pos)
    rintro r w₁ ⟨hsame, hcharge⟩
    cases r with
    | error e => exact ⟨hcharge, hsame.leases.trans h.leases, hsame.out.trans h.out⟩
    | ok u =>
      rw [onValue_ok, wp_bind]
      refine wp_mono ?_ (wp_signCharged hcharge sandwichFee_pos)
      rintro r w₂ ⟨hsame', hsigned⟩
      have hleases := hsame'.leases.trans (hsame.leases.trans h.leases)
      have hout := hsame'.out.trans (hsame.out.trans h.out)
      cases r with
      | error e => exact ⟨hsigned, hleases, hout⟩
      | ok u =>
        rw [onValue_ok, question_bind]
        rintro u w₃ rfl
        exact ⟨hsigned, hleases, congrArg (· ++ [none]) hout⟩

/-- The `try` of the channel path. -/
theorem wp_channelSandwich {l : ChannelLease} {trustlineOnly : Bool} (hclear : Clear env w.books) :
    (channelSandwich l trustlineOnly).wp (Steps whole env max) (fun r w' => Same w w' ∧
      ∃ o charged, r = .ok (o, charged) ∧ (o = .ok () → charged = true) ∧
        (charged = true → Charged env (sandwichFee trustlineOnly) w') ∧
        (charged = false → Clear env w'.books)) w := by
  unfold channelSandwich
  rw [question_bind]
  rintro loaded w' rfl
  cases loaded with
  | error t => exact wp_pure.mpr ⟨⟨rfl, rfl⟩, _, _, rfl, nofun, nofun, fun _ => hclear⟩
  | ok u =>
    rintro u w' rfl
    change (Dialogue.outcome (Channels.chargeSponsorFee (sandwichFee trustlineOnly)) >>= _).wp _ _ _
    rw [wp_bind, wp_outcome]
    refine wp_mono ?_ (wp_charge hclear sandwichFee_pos)
    intro r w₁ h
    obtain ⟨hsame, hcharge⟩ := h
    cases r with
    | error e => exact wp_pure.mpr ⟨hsame, _, _, rfl, nofun, nofun, fun _ => hcharge⟩
    | ok u =>
      rw [onValue_ok]
      rintro answer w₂ rfl
      cases answer with
      | error t => exact wp_pure.mpr ⟨hsame, _, _, rfl, fun _ => rfl, fun _ => hcharge, nofun⟩
      | ok u => exact wp_pure.mpr ⟨hsame, _, _, rfl, fun _ => rfl, fun _ => hcharge, nofun⟩

/-- The lease of the call is given back. -/
theorem wp_release {l : ChannelLease} (hstore : ∀ m ∈ channels, Keeps env max m.store)
    (hchannels : channels.isSome) (hleases : w.leases = [(chanKey l.publicKey, l.token)]) :
    (release channels l).wp (Steps whole env max)
      (fun r w' => r = .ok () ∧ w' = { w with leases := [] }) w := by
  cases channels with
  | none => cases hchannels
  | some m =>
    refine wp_mono ?_ ((hstore m rfl).release _ _ w)
    intro r w' h
    obtain ⟨rfl, rfl⟩ := h
    refine ⟨rfl, congrArg (World.mk _ _ · _) ?_⟩
    rw [hleases]
    exact List.filter_eq_nil_iff.mpr fun key hkey => by simpa using hkey

theorem wp_accountExists {recipient : String} {P : World → Prop} (h : P w) :
    (accountExists recipient).wp (Steps whole env max) (fun _ w' => P w') w := by
  unfold accountExists
  rw [question_bind]
  rintro answer w' rfl
  cases answer with
  | ok u => exact h
  | error t =>
    rw [wp_ite]
    refine ⟨fun _ => h, fun _ => ?_⟩
    cases t.readMessage <;> exact h

/-- **A handout is accounted for**, in every run whose pipelines are executed and answered or not executed:
after the call, what is counted and held is the bid and the channel of what was handed out. -/
theorem handout_accounted {recipient : String} {r : Except Failure Served} {w' : World}
    (hstore : ∀ m ∈ channels, m.store = redisLeaseStore ∨ m.store = memoryLeaseStore) (h : Nothing env w)
    (hrun : Runs (Steps whole env max) (createAccountHandler cfg channels recipient) w r w') :
    Settled env r w' := by
  have hkeeps : ∀ m ∈ channels, Keeps env max m.store := by
    intro m hm
    rcases hstore m hm with hredis | hmemory
    · exact hredis ▸ redisLeaseStore_keeps
    · exact hmemory ▸ memoryLeaseStore_keeps
  unfold createAccountHandler at hrun
  apply hrun.sound
  rw [wp_ite, wp_ite]
  refine ⟨fun _ => h, fun _ => ⟨fun _ => h, fun _ => ?_⟩⟩
  rw [wp_bind]
  refine wp_mono ?_ (wp_accountExists h)
  intro r w h
  cases r with
  | error e => exact h
  | ok trustlineOnly =>
    rw [onValue_ok, wp_bind]
    refine wp_mono ?_ (wp_leaseOf hkeeps)
    rintro r w₁ ⟨found, rfl, rfl, hfound⟩
    rw [onValue_ok]
    cases found with
    | none => exact wp_sponsorSandwich ⟨h.clear, (List.append_nil _).trans h.leases, h.out⟩
    | some l =>
      dsimp only
      rw [wp_bind]
      refine wp_mono ?_ (wp_channelSandwich h.clear)
      rintro r w₂ ⟨hsame, o, charged, rfl, hfine, hcharged, hclear⟩
      have hleases : w₂.leases = [(chanKey l.publicKey, l.token)] :=
        hsame.leases.trans (congrArg (· ++ _) h.leases)
      have hout : w₂.out = [] := hsame.out.trans h.out
      rw [onValue_ok]
      cases o with
      | ok u =>
        rintro u w₃ rfl
        exact ⟨hcharged (hfine rfl), l, hleases, congrArg (· ++ [some l]) hout⟩
      | error e =>
        have hchannels := hfound rfl
        have hback : ∀ w₃, w₃.leases = w₂.leases → w₃.out = [] → Clear env w₃.books →
            ((release channels l >>= fun _ => if Failure.isPublicRefusal e then throw e
              else sponsorSandwich cfg trustlineOnly).wp (Steps whole env max) (Settled env) w₃) := by
          intro w₃ hleases₃ hout₃ hclear₃
          rw [wp_bind]
          refine wp_mono ?_ (wp_release hkeeps hchannels (hleases₃.trans hleases))
          rintro r w₄ ⟨rfl, rfl⟩
          have hnothing : Nothing env { w₃ with leases := [] } := ⟨hclear₃, rfl, hout₃⟩
          rw [onValue_ok, wp_ite]
          exact ⟨fun _ => wp_throw.mpr hnothing, fun _ => wp_sponsorSandwich hnothing⟩
        cases charged with
        | true =>
          intro u w₃ hstep
          obtain ⟨hsame₃, hclear₃⟩ := clear_of_settle (hcharged rfl) sandwichFee_pos hstep
          exact hback w₃ hsame₃.leases (hsame₃.out.trans hout) hclear₃
        | false => exact hback w₂ rfl hout (hclear rfl)

end


namespace Demo

open Lumenia.Sponsor.Demo (testnet noon)

/-- A call begins. -/
def opening : World := ⟨⟨.fresh, fun _ => 0, 0, []⟩, 0, [], []⟩

theorem nothing_opening : Nothing testnet opening := ⟨⟨fun _ => rfl, rfl, le_rfl⟩, rfl, rfl⟩

def cfg : SponsorConfig := ⟨"S", "K", none, []⟩

/-- A pool of one channel. -/
def pool : ChannelManager := ⟨["C"], redisLeaseStore, false⟩

def recipient : String := Stellar.address 7

/-- Every command of a pipeline answers 300. -/
def done : Fate := fun _ => some 300

/-- The `INCRBY` of the gross counter fails, and the others succeed. -/
def grossFails : Fate := fun n => if n = 2 then none else some 300

def charge (shared : Bool) : FeeCharge := ⟨300, shared, 300, feeDayKey testnet noon⟩

def additions : List Cmd := [feeDayKey testnet noon, feeGrossDayKey testnet noon].flatMap fun key =>
  incrCmds key 300

/-- The books when the commands of the `n`-th charge have met this fate. -/
def charged (fate : Fate) (n : ℕ) (b : Books) : Books :=
  let b : Books := { b with booked := (execAll fate additions 0 b.booked).1 }
  let b := if fate 2 = none then b.write (b.mem.addFees 300 (feeDayKey testnet noon) 300).1 else b
  b.write (b.mem.openHandle n (charge (fate 2).isSome))

/-- The books when the bid of that charge is back. -/
def returned (n : ℕ) (b : Books) : Books :=
  let b := b.write (b.mem.close n .notIncluded)
  { b with booked := (execAll done (incrCmds (feeDayKey testnet noon) (-300)) 0 b.booked).1 }

theorem stirred_refl {b : Books} (h : b.mine ≤ b.mem.counters.localFeeStroops) : b.Stirred b :=
  .same b.mem.counters rfl h

theorem runs_charge {n : ℕ} {b : Books} (hb : b.mine ≤ b.mem.counters.localFeeStroops) :
    Runs (Step Whole) (chargeSponsorFee (ε := Unit) testnet 1000 n (.bigint 300) noon).alone b
      (.ok (.ok (charge true))) (charged done n b) :=
  .ask (.ok (execAll done additions 0 b.booked).2)
    ⟨done, none, fun _ _ => rfl, .inl ⟨fun _ => rfl, rfl⟩, rfl, rfl⟩
    (.ask _ ⟨_, stirred_refl hb, rfl, rfl⟩ .ret)

theorem runs_grossFails : Runs (Step fun _ _ => True)
    (chargeSponsorFee (ε := Unit) testnet 1000 0 (.bigint 300) noon).alone
    opening.books (.ok (.ok (charge false))) (charged grossFails 0 opening.books) := by
  have hadds : ¬∃ key delta, Cmd.incrby key delta ∈ additions ∧ delta < 0 := by
    intro hadds
    obtain ⟨key, delta, hmem, hneg⟩ := hadds
    simp only [additions, incrCmds, List.flatMap_cons, List.flatMap_nil, List.cons_append,
      List.nil_append, List.append_nil, List.mem_cons, Cmd.incrby.injEq, reduceCtorEq,
      List.not_mem_nil, or_false, false_or] at hmem
    omega
  exact .ask (.ok (execAll grossFails additions 0 fun _ => 0).2)
    ⟨grossFails, none, fun h => absurd h hadds, trivial, rfl, rfl⟩
    (.ask _ ⟨_, stirred_refl le_rfl, rfl, rfl⟩ (.ask _ ⟨_, stirred_refl (by decide +kernel), rfl, rfl⟩ .ret))

section

variable {terms : Terms} {max : ℕ} {w : World}

/-- The sponsor's sandwich for an account that exists. -/
theorem runs_sponsorSandwich {books : Books} {c : FeeCharge}
    (hcharge : Runs (Step terms.pipeline)
      (chargeSponsorFee (ε := Unit) testnet max w.charges (.bigint 300) noon).alone
      w.books (.ok (.ok c)) books) :
    Runs (Steps terms testnet max) (sponsorSandwich cfg true) w (.ok (.sandwich .sponsor true))
      ⟨books, w.charges + 1, w.leases, w.out ++ [none]⟩ :=
  .ask (.ok ()) rfl (.ask () rfl (.ask (.ok c) ⟨noon, books, hcharge, rfl⟩
    (.ask (.ok ()) rfl (.ask () rfl .ret))))

/-- The store leases the channel, and says so or not. -/
theorem runs_leaseOf {a : Except String (List KvReply)} {found : Option ChannelLease}
    (ha : (a = .ok [.of (.int 1)] ∧ found = some ⟨"C", "t"⟩) ∨ (a = .error "504" ∧ found = none))
    (hterms : terms.lease (some (.int 1)) (resultOf a)) :
    Runs (Steps terms testnet max) (leaseOf (some pool)) w (.ok found)
      { w with leases := w.leases ++ [(chanKey "C", "t")] } := by
  have hdone : leased (some (.int 1)) (.acquireAny [chanKey "C"] "t" channelLeaseTtlSeconds) w.leases =
      w.leases ++ [(chanKey "C", "t")] := rfl
  have htold : resultOf a = some (.int 1) ∨ resultOf a = none := by
    rcases ha with ⟨rfl, -⟩ | ⟨rfl, -⟩
    · exact .inl rfl
    · exact .inr rfl
  rw [← hdone]
  refine .ask [⟨0, Nat.one_pos⟩] rfl (.ask "t" rfl (.ask a ⟨_, htold, hterms, rfl⟩ ?_))
  rcases ha with ⟨rfl, rfl⟩ | ⟨rfl, rfl⟩
  · exact .ret
  · exact .ret

/-- The call up to its lease. -/
theorem runs_createAccount {channels : Option ChannelManager} {l : Option ChannelLease} {w' w'' : World}
    {r : Except Failure Served} (hlease : Runs (Steps terms testnet max) (leaseOf channels) w (.ok l) w')
    (hrest : Runs (Steps terms testnet max) (match l with
      | none => sponsorSandwich cfg true
      | some l => do
        match ← channelSandwich l true with
        | (.ok (), _) => do
          ask (.handOut (some l))
          return .sandwich .channel true
        | (.error e, charged) => do
          if charged then ask (.await (.settle .notIncluded))
          release channels l
          if e.isPublicRefusal then throw e else sponsorSandwich cfg true) w' r w'') :
    Runs (Steps terms testnet max) (createAccountHandler cfg channels recipient) w r w'' := by
  have hvalid : ¬(!Stellar.isValidEd25519PublicKey recipient) = true := by
    rw [recipient, Stellar.isValid_address]
    exact Bool.false_ne_true
  have hother : ¬(recipient = cfg.sponsorAccountId ∨ recipient = cfg.signer) := by decide +kernel
  have hexists : Runs (Steps terms testnet max) (accountExists recipient) w (.ok true) w :=
    .ask (.ok ()) rfl .ret
  unfold createAccountHandler
  rw [if_neg hvalid, if_neg hother]
  exact runs_andThen hexists (runs_andThen hlease hrest)

end

/-- The channel lends its number, but nothing can be signed for it: the sponsor's account does. -/
def fallenBack : World :=
  ⟨charged done 1 (returned 0 (charged done 0 opening.books)), 2, [], [none]⟩

theorem runs_fallback : Runs (Steps whole testnet 1000) (createAccountHandler cfg (some pool) recipient)
    opening (.ok (.sandwich .sponsor true)) fallenBack := by
  apply runs_createAccount (runs_leaseOf (.inl ⟨rfl, rfl⟩) rfl)
  have hback : Runs (Step Whole) ((charge true).call (ε := Unit) 0 .notIncluded).alone
      (charged done 0 opening.books) (.ok ()) (returned 0 (charged done 0 opening.books)) :=
    .ask _ ⟨_, stirred_refl le_rfl, rfl, rfl⟩
      (.ask (.ok (execAll done (incrCmds (feeDayKey testnet noon) (-300)) 0
          (charged done 0 opening.books).booked).2)
        ⟨done, none, fun _ _ => rfl, .inl ⟨fun _ => rfl, rfl⟩, rfl, rfl⟩ .ret)
  refine .ask (.ok ()) rfl (.ask () rfl (.ask (.ok (charge true)) ⟨noon, _, runs_charge le_rfl, rfl⟩
    (.ask (.error .null) rfl (.ask () ⟨⟨charge true, none⟩, _, rfl, hback, rfl⟩ ?_))))
  refine .ask (.ok [.of (.int 1)]) ⟨some (.int 1), .inl rfl, rfl, rfl⟩ ?_
  exact runs_sponsorSandwich (runs_charge le_rfl)

/-- All goes well on the channel. -/
def handedOut : World :=
  ⟨charged done 0 opening.books, 1, [(chanKey "C", "t")], [some ⟨"C", "t"⟩]⟩

theorem runs_channel : Runs (Steps whole testnet 1000) (createAccountHandler cfg (some pool) recipient)
    opening (.ok (.sandwich .channel true)) handedOut := by
  apply runs_createAccount (runs_leaseOf (.inl ⟨rfl, rfl⟩) rfl)
  exact .ask (.ok ()) rfl (.ask () rfl (.ask (.ok (charge true)) ⟨noon, _, runs_charge le_rfl, rfl⟩
    (.ask (.ok ()) rfl (.ask () rfl .ret))))

/-- Nothing is known of the store. -/
def unknown : Terms := ⟨fun _ _ => True, fun _ _ => True⟩

end Demo

open Lumenia.Sponsor.Demo (testnet noon)

theorem handout_accounted_fallback :
    Settled testnet (.ok (.sandwich .sponsor true)) Demo.fallenBack ∧
      Settled testnet (.ok (.sandwich .channel true)) Demo.handedOut := by
  have hstore : ∀ m ∈ some Demo.pool, m.store = redisLeaseStore ∨ m.store = memoryLeaseStore := by
    intro m hm
    obtain rfl := Option.some.inj hm
    exact .inl rfl
  exact ⟨handout_accounted hstore Demo.nothing_opening Demo.runs_fallback,
    handout_accounted hstore Demo.nothing_opening Demo.runs_channel⟩

/-- Where the store counts a bid but fails at its gross counter, the bid is counted in memory as well; and
where its answer to an acquisition is lost, the lease is left to lapse. -/
theorem handout_leaves_more :
    (∃ w, Runs (Steps Demo.unknown testnet 1000) (createAccountHandler Demo.cfg none Demo.recipient)
        Demo.opening (.ok (.sandwich .sponsor true)) w ∧
      w.out = [none] ∧ w.books.booked (feeDayKey testnet noon) = sandwichFee true ∧
        w.books.mine = sandwichFee true) ∧
    ∃ w, Runs (Steps Demo.unknown testnet 1000) (createAccountHandler Demo.cfg (some Demo.pool) Demo.recipient)
        Demo.opening (.ok (.sandwich .sponsor true)) w ∧
      w.out = [none] ∧ w.leases = [(chanKey "C", "t")] := by
  constructor
  · refine ⟨⟨Demo.charged Demo.grossFails 0 Demo.opening.books, 1, [], [none]⟩, ?_, by decide +kernel⟩
    exact Demo.runs_createAccount .ret (Demo.runs_sponsorSandwich Demo.runs_grossFails)
  · refine ⟨⟨Demo.charged Demo.grossFails 0 Demo.opening.books, 1, [(chanKey "C", "t")], [none]⟩, ?_,
      rfl, rfl⟩
    exact Demo.runs_createAccount (Demo.runs_leaseOf (.inr ⟨rfl, rfl⟩) trivial)
      (Demo.runs_sponsorSandwich Demo.runs_grossFails)

end Lumenia.Sponsor.Handout

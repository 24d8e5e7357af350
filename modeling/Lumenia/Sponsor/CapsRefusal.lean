import Lumenia.Sponsor.Caps
import Lumenia.Theory.Session

/-!
# What a refusal of the escrow caps leaves behind

"On `ok: false` nothing is reserved", says `checkCaps` of itself. It keeps this when the opening
increments are answered and the decrements of a refusal take effect. It does not when the increments
take effect and their answer is lost: a fail-closed refusal gives nothing back.
-/

namespace Lumenia.Sponsor

/-- What a command adds to a counter. -/
def Cmd.added (key : String) : Cmd → ℤ
  | .incrby k delta => if k = key then delta else 0
  | _ => 0

/-- What these commands add to a counter. -/
def net (key : String) : List Cmd → ℤ
  | [] => 0
  | c :: cs => c.added key + net key cs

section

variable {key : String} {keys : List String} {a : ℤ} {applied : ℕ → Bool} {cmds cmds' : List Cmd}

@[simp] theorem net_nil : net key [] = 0 := rfl

theorem net_append : net key (cmds ++ cmds') = net key cmds + net key cmds' := by
  induction cmds with
  | nil => exact (zero_add _).symm
  | cons c cmds ih => rw [List.cons_append, net, ih, net, add_assoc]

theorem net_kept_cons {c : Cmd} : net key (kept applied (c :: cmds)) =
    (if applied 0 then c.added key else 0) + net key (kept (fun n => applied (n + 1)) cmds) := by
  rw [kept]
  split <;> simp [net]

theorem net_kept_incrCmds {k : String} : net key (kept applied (incrCmds k a ++ cmds)) =
    (if applied 0 ∧ k = key then a else 0) +
      net key (kept (fun n => applied (n + 2)) cmds) := by
  have hexpire : (Cmd.expire k dayKeyTtlSeconds).added key = 0 := rfl
  rw [incrCmds, List.cons_append, List.cons_append, List.nil_append, net_kept_cons, net_kept_cons,
    hexpire, ite_self, zero_add, Cmd.added]
  congr 1
  split <;> simp [*]

theorem net_of_not_mem (hkey : key ∉ keys) :
    net key (kept applied (keys.flatMap fun key => incrCmds key a)) = 0 := by
  induction keys generalizing applied with
  | nil => rfl
  | cons k keys ih =>
    rw [List.mem_cons, not_or] at hkey
    rw [List.flatMap_cons, net_kept_incrCmds, ih hkey.2, if_neg fun h => hkey.1 h.2.symm, add_zero]

/-- Whether the increment of the counter takes effect is all that counts. -/
theorem net_of_mem (hnodup : keys.Nodup) {n : ℕ} (hn : n < keys.length) :
    net keys[n] (kept applied (keys.flatMap fun key => incrCmds key a)) =
      if applied (2 * n) then a else 0 := by
  induction keys generalizing applied n with
  | nil => cases hn
  | cons k keys ih =>
    obtain ⟨hk, hnodup⟩ := List.nodup_cons.mp hnodup
    rw [List.flatMap_cons, net_kept_incrCmds]
    cases n with
    | zero => simp [net_of_not_mem hk]
    | succ n =>
      have hn : n < keys.length := by simpa using hn
      have hne : k ≠ keys[n] := fun h => hk (h ▸ List.getElem_mem hn)
      rw [List.getElem_cons_succ, ih hnodup hn, if_neg fun h => hne h.2, zero_add, Nat.mul_succ]

end

variable (env : Env) (caps : CapsConfig) (r : EscrowRequest) (fate : ℕ → Fate KvReply)

/-- The verdict on a request, and the commands that took effect. -/
def outcome : CapVerdict Unit Standing × List Cmd :=
  (checkCaps env caps r.amountStroops r.now r.senderPublicKey).session fate ()

/-- The request gets to the store. -/
def Counted : Prop :=
  0 < r.amountStroops ∧ caps.minDropStroops ≤ r.amountStroops ∧
    r.amountStroops ≤ caps.maxDropStroops ∧ env.kv = true

/-- The totals, as read from the answer to the opening increments. -/
def openingTotals : Except String (List ℤ) :=
  (fate 0).reply.bind fun results => incrTotals results (r.keys env) 0

/-- When the opening answer is unreadable and the caps are fail-closed, no increment took effect; when
it is readable and over a limit, what took effect was taken back. -/
def SafelyRefused : Prop :=
  ∀ n < (r.keys env).length,
    match openingTotals env r fate with
    | .error _ => caps.failClosed = true → (fate 0).applied (2 * n) = false
    | .ok totals => (overSender caps r.sender totals || overDay caps totals) = true →
      (fate 0).applied (2 * n) = (fate 1).applied (2 * n)

section

variable {env caps r fate} {totals : List ℤ} {msg : String}

theorem outcome_of_not_counted (h : ¬Counted env caps r) : (outcome env caps r fate).2 = [] := by
  unfold outcome checkCaps
  split
  · rfl
  rename_i hpos
  split
  · rfl
  rename_i hmin
  split
  · rfl
  rename_i hmax
  rw [if_pos]
  · split <;> rfl
  · have hkv : env.kv ≠ true := fun hkv => h ⟨by omega, by omega, by omega, hkv⟩
    simpa using hkv

theorem outcome_of_counted (h : Counted env caps r) : outcome env caps r fate =
    let rest := (judgeTotals caps r.amountStroops r.sender (r.keys env)
      (openingTotals env r fate)).session (fun n => fate (n + 1)) ()
    (rest.1, kept (fate 0).applied
      ((r.keys env).flatMap fun key => incrCmds key r.amountStroops) ++ rest.2) := by
  obtain ⟨hpos, hmin, hmax, hkv⟩ := h
  rw [outcome, checkCaps, if_neg (by omega), if_neg (by omega), if_neg (by omega),
    if_neg (by simp [hkv])]
  rfl

theorem outcome_unread (h : Counted env caps r) (hopen : openingTotals env r fate = .error msg) :
    (outcome env caps r fate).1.ok = !caps.failClosed ∧
      (outcome env caps r fate).2 = kept (fate 0).applied
        ((r.keys env).flatMap fun key => incrCmds key r.amountStroops) := by
  rw [outcome_of_counted h, hopen, judgeTotals]
  cases caps.failClosed <;> exact ⟨rfl, List.append_nil _⟩

theorem outcome_refused (h : Counted env caps r) (hopen : openingTotals env r fate = .ok totals)
    (hover : (overSender caps r.sender totals || overDay caps totals) = true) :
    (outcome env caps r fate).1.ok = false ∧
      (outcome env caps r fate).2 =
        kept (fate 0).applied ((r.keys env).flatMap fun key => incrCmds key r.amountStroops) ++
        kept (fate 1).applied ((r.keys env).flatMap fun key => incrCmds key (-r.amountStroops)) := by
  rw [outcome_of_counted h, hopen, judgeTotals]
  dsimp only
  cases hsender : overSender caps r.sender totals with
  | true => exact ⟨rfl, congrArg _ (List.append_nil _)⟩
  | false =>
    cases hday : overDay caps totals with
    | true => exact ⟨rfl, congrArg _ (List.append_nil _)⟩
    | false => simp [hsender, hday] at hover

theorem outcome_admitted (h : Counted env caps r) (hopen : openingTotals env r fate = .ok totals)
    (hover : (overSender caps r.sender totals || overDay caps totals) = false) :
    (outcome env caps r fate).1.ok = true := by
  rw [Bool.or_eq_false_iff] at hover
  rw [outcome_of_counted h, hopen, judgeTotals, hover.1, hover.2]
  rfl

theorem Counted.ne_zero (h : Counted env caps r) : r.amountStroops ≠ 0 := by
  have := h.1
  omega

theorem nodup_keys : (r.keys env).Nodup := nodup_capKeys

/-- A refusal that gave nothing back leaves what was applied. -/
theorem net_unread_iff (h : Counted env caps r) :
    (∀ key ∈ r.keys env, net key (kept (fate 0).applied
        ((r.keys env).flatMap fun key => incrCmds key r.amountStroops)) = 0) ↔
      ∀ n < (r.keys env).length, (fate 0).applied (2 * n) = false := by
  rw [List.forall_mem_iff_forall_getElem]
  refine forall_congr' fun n => forall_congr' fun hn => ?_
  rw [net_of_mem nodup_keys hn, ite_eq_right_iff, Bool.eq_false_iff]
  exact forall_congr' fun _ => iff_false_intro h.ne_zero

/-- A refusal that was over a limit leaves what was not given back. -/
theorem net_refused_iff (h : Counted env caps r) :
    (∀ key ∈ r.keys env, net key
        (kept (fate 0).applied ((r.keys env).flatMap fun key => incrCmds key r.amountStroops) ++
        kept (fate 1).applied ((r.keys env).flatMap fun key => incrCmds key (-r.amountStroops))) =
          0) ↔
      ∀ n < (r.keys env).length, (fate 0).applied (2 * n) = (fate 1).applied (2 * n) := by
  rw [List.forall_mem_iff_forall_getElem]
  refine forall_congr' fun n => forall_congr' fun hn => ?_
  rw [net_append, net_of_mem nodup_keys hn, net_of_mem nodup_keys hn]
  have hne := h.ne_zero
  cases (fate 0).applied (2 * n) <;> cases (fate 1).applied (2 * n) <;> simp [hne]

end

/-- **A refusal reserves nothing** exactly when it is a safe one. -/
theorem refusal_reserves_nothing_iff :
    ((outcome env caps r fate).1.ok = false →
        ∀ key ∈ r.keys env, net key (outcome env caps r fate).2 = 0) ↔
      (Counted env caps r → SafelyRefused env caps r fate) := by
  by_cases hcounted : Counted env caps r
  swap
  · simp [outcome_of_not_counted hcounted, hcounted]
  rw [SafelyRefused, forall_prop_of_true hcounted]
  cases hopen : openingTotals env r fate with
  | error msg =>
    obtain ⟨hok, htrace⟩ := outcome_unread hcounted hopen
    rw [hok, htrace]
    cases caps.failClosed with
    | false => simp
    | true => simpa using net_unread_iff hcounted
  | ok totals =>
    cases hover : overSender caps r.sender totals || overDay caps totals with
    | false => simp [outcome_admitted hcounted hopen hover, hover]
    | true =>
      obtain ⟨hok, htrace⟩ := outcome_refused hcounted hopen hover
      rw [hok, htrace]
      simpa [hover] using net_refused_iff hcounted

/-- Both increments take effect, and the answer does not arrive. -/
def Demo.lostReply : ℕ → Fate KvReply := fun _ => ⟨fun _ => true, .error "caps store returned 504"⟩

/-- A fail-closed refusal leaves the lost reservation on the day and on the sender. -/
theorem lost_reply_stays_reserved :
    let r : EscrowRequest := ⟨Demo.noon, 50000000, some "GALICE"⟩
    (outcome Demo.testnet Demo.limits r Demo.lostReply).1.ok = false ∧
      net (dayKey Demo.testnet Demo.noon)
        (outcome Demo.testnet Demo.limits r Demo.lostReply).2 = 50000000 ∧
      net (senderDayKey Demo.testnet Demo.noon "GALICE")
        (outcome Demo.testnet Demo.limits r Demo.lostReply).2 = 50000000 := by
  decide +kernel

end Lumenia.Sponsor

import Lumenia.Contracts.LumenDropHistory
import Lumenia.Contracts.LumenDropCommitSafety

/-!
# What a link key signs

`Msg` collects the byte strings that `lumen-drop` and `lumen-drop-commit` build for a link key or
for the commitment hash, over all networks and deployments. They are pairwise different
(`Msg.encode_injective`), so a signature made for one of them is good for nothing else
(`payouts_signed`).
-/

namespace Lumenia.Signatures

open Soroban

variable {Address : Type}

inductive Msg (Address : Type)
  | claim (network : BytesN 32) (contract : Address) (link : BytesN 32) (payout : Address)
  | claimShare (network : BytesN 32) (contract : Address) (link : BytesN 32) (payout : Address)
  | commitment (link : BytesN 32) (amount : I128) (salt : BytesN 32)
  | commitClaim (network : BytesN 32) (contract : Address) (link : BytesN 32) (payout : Address)
      (amount : I128) (salt : BytesN 32)

variable (env : Env Address)

/-- The contract at an address of a network. -/
def deployed (network : BytesN 32) (contract : Address) : Env Address :=
  { env with networkId := network, contract }

/-- The bytes the contract in question builds. -/
def Msg.encode : Msg Address → Bytes
  | .claim network contract link payout =>
    LumenDrop.message (deployed env network contract) LumenDrop.tagSingle link payout
  | .claimShare network contract link payout =>
    LumenDrop.message (deployed env network contract) LumenDrop.tagGroup link payout
  | .commitment link amount salt => LumenDropCommit.preimage link amount.1 salt
  | .commitClaim network contract link payout amount salt =>
    LumenDropCommit.message (deployed env network contract) link payout amount.1 salt

/-- The first byte. -/
def Msg.tag : Msg Address → UInt8
  | .claim .. => LumenDrop.tagSingle
  | .claimShare .. => LumenDrop.tagGroup
  | .commitment .. => LumenDropCommit.tagCommit
  | .commitClaim .. => LumenDropCommit.tagClaim

variable {env}

theorem Msg.tag_eq {x y : Msg Address} (h : x.encode env = y.encode env) : x.tag = y.tag := by
  have htag : ∀ z : Msg Address, (z.encode env).head? = some z.tag := fun z => by cases z <;> rfl
  exact Option.some.inj ((htag x).symm.trans ((congrArg List.head? h).trans (htag y)))

theorem amount_inj {amount amount' : I128} {s t : Bytes}
    (h : toBeBytes amount.1 ++ s = toBeBytes amount'.1 ++ t) : amount = amount' ∧ s = t :=
  toBeBytes_selfDelimiting (a := amount) (b := amount') h

section

variable (hxdr : SelfDelimiting env.toXdr)
include hxdr

/-- The part that the three signed messages share. -/
theorem envelope_inj {network network' link link' : BytesN 32}
    {contract contract' payout payout' : Address} {s t : Bytes}
    (h : network.toList ++ (env.toXdr contract ++ (link.toList ++ (env.toXdr payout ++ s))) =
      network'.toList ++ (env.toXdr contract' ++ (link'.toList ++ (env.toXdr payout' ++ t)))) :
    network = network' ∧ contract = contract' ∧ link = link' ∧ payout = payout' ∧ s = t := by
  obtain ⟨hnetwork, h⟩ := SelfDelimiting.toList h
  obtain ⟨hcontract, h⟩ := hxdr h
  obtain ⟨hlink, h⟩ := SelfDelimiting.toList h
  obtain ⟨hpayout, h⟩ := hxdr h
  exact ⟨hnetwork, hcontract, hlink, hpayout, h⟩

/-- **Domain separation.** Different messages are different byte strings. -/
theorem Msg.encode_injective : Function.Injective (Msg.encode env) := by
  intro x y h
  have htag := Msg.tag_eq h
  cases x with
  | claim network contract link payout =>
    cases y with
    | claim network' contract' link' payout' =>
      simp only [Msg.encode, LumenDrop.message, deployed, List.append_assoc, List.cons_append,
        List.nil_append, List.cons.injEq, true_and] at h
      obtain ⟨rfl, rfl, rfl, rfl, -⟩ := envelope_inj hxdr (s := []) (t := []) (by simpa using h)
      rfl
    | claimShare | commitment | commitClaim => cases htag
  | claimShare network contract link payout =>
    cases y with
    | claimShare network' contract' link' payout' =>
      simp only [Msg.encode, LumenDrop.message, deployed, List.append_assoc, List.cons_append,
        List.nil_append, List.cons.injEq, true_and] at h
      obtain ⟨rfl, rfl, rfl, rfl, -⟩ := envelope_inj hxdr (s := []) (t := []) (by simpa using h)
      rfl
    | claim | commitment | commitClaim => cases htag
  | commitment link amount salt =>
    cases y with
    | commitment link' amount' salt' =>
      simp only [Msg.encode, LumenDropCommit.preimage, List.append_assoc, List.cons_append,
        List.nil_append, List.cons.injEq, true_and] at h
      obtain ⟨rfl, hrest⟩ := SelfDelimiting.toList h
      obtain ⟨rfl, hsalt⟩ := amount_inj hrest
      rw [Vector.toList_inj.mp hsalt]
    | claim | claimShare | commitClaim => cases htag
  | commitClaim network contract link payout amount salt =>
    cases y with
    | commitClaim network' contract' link' payout' amount' salt' =>
      simp only [Msg.encode, LumenDropCommit.message, deployed, List.append_assoc, List.cons_append,
        List.nil_append, List.cons.injEq, true_and] at h
      obtain ⟨rfl, rfl, rfl, rfl, hrest⟩ := envelope_inj hxdr h
      obtain ⟨rfl, hsalt⟩ := amount_inj hrest
      rw [Vector.toList_inj.mp hsalt]
    | claim | claimShare | commitment => cases htag

end

/-! ## Runs -/

section Runs

variable [DecidableEq Address] {Signs : BytesN 32 → Msg Address → Prop}

/-- An accepted single-drop claim carries a signature over its own message, and pays its payout. -/
theorem claim_signed {G : Governance Address} {env : Env Address} {c : Ctx Address}
    {w w' : LumenDrop.World G} {link : BytesN 32} {payout : Address} {sig : BytesN 64}
    {r : Receipt Address (LumenDrop.Event Address)}
    (h : LumenDrop.Done env c w (.exit (.claim link payout sig)) w' r) :
    env.ed25519Verify link (LumenDrop.message env LumenDrop.tagSingle link payout) sig = true ∧
      ∃ n, r.moved = [⟨env.contract, payout, n⟩] := by
  cases h with
  | exit hadm =>
    cases hadm with
    | claim _ _ hsig => exact ⟨hsig, _, rfl⟩

theorem claimShare_signed {G : Governance Address} {env : Env Address} {c : Ctx Address}
    {w w' : LumenDrop.World G} {link : BytesN 32} {payout : Address} {sig : BytesN 64}
    {r : Receipt Address (LumenDrop.Event Address)}
    (h : LumenDrop.Done env c w (.exit (.claimShare link payout sig)) w' r) :
    env.ed25519Verify link (LumenDrop.message env LumenDrop.tagGroup link payout) sig = true ∧
      ∃ n, r.moved = [⟨env.contract, payout, n⟩] := by
  cases h with
  | exit hadm =>
    cases hadm with
    | claimShare _ _ _ _ _ hsig => exact ⟨hsig, _, rfl⟩

theorem commitClaim_signed {G : Governance Address} {env : Env Address} {c : Ctx Address}
    {w w' : LumenDropCommit.World G} {link : BytesN 32} {payout : Address} {sig : BytesN 64}
    {amount : I128} {salt : BytesN 32} {r : Receipt Address (LumenDropCommit.Event Address)}
    (h : LumenDropCommit.Done env c w (.claim link payout sig amount salt) w' r) :
    env.ed25519Verify link (LumenDropCommit.message env link payout amount.1 salt) sig = true ∧
      r.moved = [⟨env.contract, payout, amount.1⟩] := by
  cases h with
  | claim _ _ _ hamount hsig => exact ⟨hsig, by rw [hamount]⟩

/-- **Every payout was signed for.** Messages are pairwise different; and where a signature verifies
for one of them only if the link key signed those bytes, each accepted claim of either contract, at any address of any
network, pays exactly the payout the link key signed for, of that kind, contract and network. -/
theorem payouts_signed (hxdr : SelfDelimiting env.toXdr)
    (hsigs : ∀ link (x : Msg Address) sig, env.ed25519Verify link (x.encode env) sig = true →
      ∃ y, Signs link y ∧ y.encode env = x.encode env) :
    Function.Injective (Msg.encode env) ∧
    ∀ (network : BytesN 32) (contract : Address) (G : Governance Address) (tok owner : Address)
      (opening : Address → ℕ),
      (∀ is c link payout sig r,
        (.call c (.exit (.claim link payout sig)), .ok r) ∈
            (LumenDrop.ledger (G := G) (deployed env network contract) tok owner opening).history is →
          Signs link (.claim network contract link payout) ∧
            ∃ n, r.moved = [⟨contract, payout, n⟩]) ∧
      (∀ is c link payout sig r,
        (.call c (.exit (.claimShare link payout sig)), .ok r) ∈
            (LumenDrop.ledger (G := G) (deployed env network contract) tok owner opening).history is →
          Signs link (.claimShare network contract link payout) ∧
            ∃ n, r.moved = [⟨contract, payout, n⟩]) ∧
      ∀ is c link payout sig amount salt r,
        (.call c (.claim link payout sig amount salt), .ok r) ∈
            (LumenDropCommit.ledger (G := G) (deployed env network contract) tok owner
              opening).history is →
          Signs link (.commitClaim network contract link payout amount salt) ∧
            r.moved = [⟨contract, payout, amount.1⟩] := by
  have hinj := Msg.encode_injective hxdr
  have hsigned : ∀ {link sig} {x : Msg Address}, env.ed25519Verify link (x.encode env) sig = true →
      Signs link x := by
    intro link sig x h
    obtain ⟨y, hy, heq⟩ := hsigs _ _ _ h
    exact hinj heq ▸ hy
  refine ⟨hinj, fun network contract G tok owner opening => ⟨?_, ?_, ?_⟩⟩
  · intro is c link payout sig r hmem
    obtain ⟨w, w', hw, hinv⟩ := accepted_of_mem_history LumenDrop.construct_sound
      (fun hw => LumenDrop.step_sound hw _) hmem
    obtain ⟨hsig, hpaid⟩ := claim_signed (LumenDrop.invoke_cases hw.token hinv)
    exact ⟨hsigned (x := .claim network contract link payout) hsig, hpaid⟩
  · intro is c link payout sig r hmem
    obtain ⟨w, w', hw, hinv⟩ := accepted_of_mem_history LumenDrop.construct_sound
      (fun hw => LumenDrop.step_sound hw _) hmem
    obtain ⟨hsig, hpaid⟩ := claimShare_signed (LumenDrop.invoke_cases hw.token hinv)
    exact ⟨hsigned (x := .claimShare network contract link payout) hsig, hpaid⟩
  · intro is c link payout sig amount salt r hmem
    obtain ⟨w, w', hw, hinv⟩ := accepted_of_mem_history LumenDropCommit.construct_sound
      (fun hw => LumenDropCommit.step_sound hw _) hmem
    obtain ⟨hsig, hpaid⟩ := commitClaim_signed (LumenDropCommit.invoke_cases hinv)
    exact ⟨hsigned (x := .commitClaim network contract link payout amount salt) hsig, hpaid⟩

end Runs

/-! ## A concrete run

One signature, by one link key, for one payout of one contract. -/

namespace Demo

open Soroban.Demo (link sig)

def signed : Msg ℕ := .claim Soroban.Demo.env.networkId 0 link 4

def host : Env ℕ :=
  { Soroban.Demo.env with
    ed25519Verify l m s := l == link && m == signed.encode Soroban.Demo.env && s == sig }

theorem encode_host : signed.encode host = signed.encode Soroban.Demo.env := by
  simp only [signed, Msg.encode, LumenDrop.message, deployed, host]

theorem verify_signed (l : BytesN 32) (x : Msg ℕ) (s : BytesN 64)
    (h : host.ed25519Verify l (x.encode host) s = true) :
    ∃ y, (l = link ∧ y = signed) ∧ y.encode host = x.encode host := by
  obtain ⟨⟨hlink, hbytes⟩, -⟩ : (l = link ∧ x.encode host = signed.encode Soroban.Demo.env) ∧
      s = sig := by
    simpa only [host, Bool.and_eq_true, beq_iff_eq] using h
  exact ⟨signed, ⟨hlink, rfl⟩, by rw [encode_host, hbytes]⟩

theorem xdr_selfDelimiting : SelfDelimiting host.toXdr :=
  SelfDelimiting.unary (show (1 : UInt8) ≠ 0 by decide)

def ledger : Machine (LumenDrop.World Governance.standard) (LumenDrop.Input ℕ)
    (LumenDrop.Outcome ℕ) :=
  LumenDrop.ledger (deployed host host.networkId 0) 1 2 LumenDrop.Demo.opening

end Demo

open LumenDrop.Demo in
theorem payouts_signed_claim : ∃ r n,
    (claimTo 4, .ok r) ∈ Demo.ledger.history [fund, claimTo 4] ∧ r.moved = [⟨0, 4, n⟩] := by
  let w := Demo.ledger.final [fund]
  have hw : LumenDrop.Sound (deployed Demo.host Demo.host.networkId 0) w := LumenDrop.final_sound.1
  have hsig : Demo.host.ed25519Verify Soroban.Demo.link (Demo.signed.encode Demo.host)
      Soroban.Demo.sig = true := by
    rw [Demo.encode_host]
    simp [Demo.host]
  have hok : (Demo.ledger.step w (claimTo 4)).2 =
      .ok ⟨[⟨0, 4, 5⟩], [.claim Soroban.Demo.link 4 5]⟩ :=
    congrArg Prod.snd (LumenDrop.step_of_admitted hw.token
      (.claim (d := ⟨3, 5, 100, false⟩) (by decide) rfl hsig) (by decide) rfl)
  have hmem : (claimTo 4, .ok ⟨[⟨0, 4, 5⟩], [.claim Soroban.Demo.link 4 5]⟩) ∈
      Demo.ledger.history ([fund] ++ [claimTo 4]) := by
    rw [Machine.history_concat, hok]
    exact List.mem_append_right _ (List.mem_singleton_self _)
  have hruns := (payouts_signed Demo.xdr_selfDelimiting Demo.verify_signed).2
    Demo.host.networkId 0 Governance.standard 1 2 opening
  obtain ⟨-, n, hpaid⟩ := hruns.1 ([fund] ++ [claimTo 4]) _ _ _ _ _ hmem
  exact ⟨_, n, hmem, hpaid⟩

end Lumenia.Signatures

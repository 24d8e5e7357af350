import Lumenia.Sponsor.Recovery

/-!
# A logic for the recovery routes

A call relies on its own deeds only: no other call adds to them. So what is known at a point of a
program is an invariant of the world and the list of what the call itself has done (`From`), and a
run is safe when each request is, from an empty list (`served`).
-/

namespace Lumenia.Sponsor.Recovery

open Dialogue

variable {ι : Type} {i j : ι} {α β : Type}

/-! ## Deeds -/

section

variable [DecidableEq ι] {journal journal' : List (Event ι)} {e : Event ι}

@[simp] theorem deeds_nil : deeds i ([] : List (Event ι)) = [] := rfl

@[simp] theorem deeds_append : deeds i (journal ++ journal') = deeds i journal ++ deeds i journal' :=
  List.filter_append ..

theorem deeds_single : deeds i [e] = if e.actor = i then [e] else [] := by
  simp [deeds, List.filter_cons]

theorem mem_deeds : e ∈ deeds i journal ↔ e ∈ journal ∧ e.actor = i := by simp [deeds]

end

/-! ## What a step writes down -/

section

variable {w w' : World ι} {key : Key} {d : Chance} {q : Ask} {sha256Hex : String → String}

@[simp] theorem World.journal_log {e : Event ι} : (w.log e).journal = w.journal ++ [e] := rfl

@[simp] theorem World.held_log {e : Event ι} : (w.log e).held = w.held := rfl

@[simp] theorem World.journal_put {v : Option key.Entry} : (w.put key v).journal = w.journal := rfl

@[simp] theorem World.held_put {v : Option key.Entry} : (w.put key v).held key = v :=
  Function.update_self ..

theorem World.held_put_of_ne {key' : Key} {v : Option key.Entry} (h : key' ≠ key) :
    (w.put key v).held key' = w.held key' :=
  Function.update_of_ne h ..

theorem World.Expires.journal (h : World.Expires w w') : w'.journal = w.journal := by
  cases h <;> rfl

theorem journal_ite {c : Prop} [Decidable c] (h : w'.journal = w.journal) :
    (if c then w' else w).journal = w.journal := by
  split
  · exact h
  · rfl

/-- The question that an event comes from. -/
def Event.arises : Event ι → Ask → Prop
  | issued _ id, q | missed _ id _, q => ∃ v ex, q = .set (.otp id) v ex
  | saw _ id _ _, q => q = .get (.otp id)
  | compared _ id _ _, q => ∃ code codeHash, q = .compare id code codeHash
  | accepted _ id _, q => q = .del (.otp id)
  | charged _ id _ _, q | unread _ id _, q => ∃ sec, q = .incr (.otptry id) sec
  | readRow _ id _, q => q = .get (.email id)
  | wroteRow _ id row, q => ∃ ex, q = .set (.email id) row ex
  | deletedRow _ id, q => q = .del (.email id)
  | minted _ t id, q => ∃ ex, q = .set (.ticket t) id ex
  | took _ t _ _, q => q = .getdel t

/-- The journal grows, by deeds of `i` that come from `q`. -/
def Adds (i : ι) (q : Ask) (w w' : World ι) : Prop :=
  ∃ es : List (Event ι), w'.journal = w.journal ++ es ∧ ∀ e ∈ es, e.actor = i ∧ e.arises q

theorem Adds.refl (h : w'.journal = w.journal) : Adds i q w w' := ⟨[], by simp [h], by simp⟩

theorem Adds.one {e : Event ι} (h : w'.journal = w.journal ++ [e]) (hi : e.actor = i)
    (hq : e.arises q) : Adds i q w w' := by
  refine ⟨[e], h, fun e' he => ?_⟩
  rw [List.mem_singleton.mp he]
  exact ⟨hi, hq⟩

theorem Adds.trans {w'' : World ι} (h : Adds i q w w') (h' : Adds i q w' w'') : Adds i q w w'' := by
  obtain ⟨es, hes, hi⟩ := h
  obtain ⟨es', hes', hi'⟩ := h'
  refine ⟨es ++ es', by rw [hes', hes, List.append_assoc], fun e he => ?_⟩
  rcases List.mem_append.mp he with he | he
  · exact hi e he
  · exact hi' e he

theorem adds_remove : Adds i (.del key) w (w.remove i key) := by
  cases key with
  | email id => exact .one rfl rfl rfl
  | otp id => exact .refl rfl
  | pk id => exact .refl rfl
  | ticket t => exact .refl rfl

theorem adds_look : Adds i (.get key) w (w.look i key) := by
  cases key with
  | otp id =>
    simp only [World.look]
    split
    · exact .refl rfl
    · exact .one rfl rfl rfl
  | email id => exact .one rfl rfl rfl
  | pk id => exact .refl rfl
  | ticket t => exact .refl rfl

theorem adds_take {t : String} : Adds i (.getdel t) w (w.take i t) := by
  simp only [World.take]
  split
  · exact .refl rfl
  · exact .one rfl rfl rfl

theorem adds_increment {c : Counter} {sec : ℕ} : Adds i (.incr c sec) w (w.increment i c) := by
  cases c with
  | otpreq id => exact .refl rfl
  | otptry id => exact .one rfl rfl ⟨sec, rfl⟩

theorem adds_miscount {c : Counter} {sec : ℕ} {told : Bool} :
    Adds i (.incr c sec) w (w.miscount i told c) := by
  cases c with
  | otpreq id => exact .refl rfl
  | otptry id => exact .one rfl rfl ⟨sec, rfl⟩

theorem adds_ite {c : Prop} [Decidable c] {w'' : World ι} (h : Adds i q w w') (h' : Adds i q w w'') :
    Adds i q w (if c then w' else w'') := by
  split
  · exact h
  · exact h'

variable [DecidableEq ι]

theorem Adds.deeds_of_ne (h : Adds i q w w') (hij : j ≠ i) :
    deeds j w'.journal = deeds j w.journal := by
  obtain ⟨es, hes, hi⟩ := h
  have hnone : deeds j es = [] := by
    apply List.filter_eq_nil_iff.mpr
    intro e he
    simpa [(hi e he).1] using hij.symm
  rw [hes, deeds_append, hnone, List.append_nil]

theorem adds_store {value : key.Entry} {ex : Option ℕ} :
    Adds i (.set key value ex) w (w.store i key value) := by
  cases key with
  | otp id =>
    simp only [World.store]
    split
    · exact .one rfl rfl ⟨value, ex, rfl⟩
    · exact .one rfl rfl ⟨value, ex, rfl⟩
  | email id => exact .one rfl rfl ⟨ex, rfl⟩
  | pk id => exact .refl rfl
  | ticket t => exact .one rfl rfl ⟨ex, rfl⟩

theorem adds_judge : Adds i (.del key) w (w.judge i key) := by
  cases key with
  | otp id =>
    simp only [World.judge]
    split
    · exact .one rfl rfl rfl
    · exact .refl rfl
  | email id => exact .refl rfl
  | pk id => exact .refl rfl
  | ticket t => exact .refl rfl

/-- A step adds to the deeds of the call that takes it, and of no other, what its question asks for. -/
theorem adds_react : Adds i q w (react sha256Hex i d w q).2 := by
  cases q with
  | get key => exact adds_look
  | set key value ex => exact adds_ite adds_store (.refl rfl)
  | del key => exact adds_ite (adds_judge.trans adds_remove) adds_judge
  | getdel t => exact adds_ite adds_take (.refl rfl)
  | incr c sec =>
    have hcount : Adds i (.incr c sec) w (if d.executed = true then w.increment i c else w) :=
      adds_ite adds_increment (.refl rfl)
    exact adds_ite hcount (hcount.trans adds_miscount)
  | setNx h ex => exact adds_ite (.refl rfl) (.refl rfl)
  | compare id code codeHash => exact .one rfl rfl ⟨code, codeHash, rfl⟩
  | now => exact .refl rfl
  | sixDigit => exact .refl rfl
  | randomHex => exact .refl rfl
  | sendCodeEmail email code purpose => exact .refl rfl
  | enforceRateLimit => exact .refl rfl

end

/-! ## What else a step changes -/

/-- The question can change the key. -/
def Ask.changes (q : Ask) (key : Key) : Bool :=
  match q with
  | .set k _ _ | .del k => k = key
  | .getdel t => key = .ticket t
  | _ => false

/-- What a question cannot change is as it was. -/
structure Frame (q : Ask) (w w' : World ι) : Prop where
  held : ∀ key, q.changes key = false → w'.held key = w.held key
  count : ∀ c, (∀ sec, q ≠ .incr c sec) → w'.count c = w.count c
  window : w'.window = w.window
  issuer : ∀ id, q.changes (.otp id) = false → w'.issuer id = w.issuer id
  minter : ∀ t, q.changes (.ticket t) = false → w'.minter t = w.minter t

section

variable {w w' : World ι} {key : Key} {d : Chance} {q : Ask} {sha256Hex : String → String}

theorem Frame.refl : Frame q w w := ⟨fun _ _ => rfl, fun _ _ => rfl, rfl, fun _ _ => rfl, fun _ _ => rfl⟩

theorem Frame.trans {w'' : World ι} (h : Frame q w w') (h' : Frame q w' w'') : Frame q w w'' where
  held key hq := (h'.held key hq).trans (h.held key hq)
  count c hq := (h'.count c hq).trans (h.count c hq)
  window := h'.window.trans h.window
  issuer id hq := (h'.issuer id hq).trans (h.issuer id hq)
  minter t hq := (h'.minter t hq).trans (h.minter t hq)

theorem frame_ite {c : Prop} [Decidable c] {w'' : World ι} (h : Frame q w w') (h' : Frame q w w'') :
    Frame q w (if c then w' else w'') := by
  split
  · exact h
  · exact h'

theorem frame_log {e : Event ι} : Frame q w (w.log e) :=
  ⟨fun _ _ => rfl, fun _ _ => rfl, rfl, fun _ _ => rfl, fun _ _ => rfl⟩

theorem frame_put {v : Option key.Entry} (hq : q.changes key = true) : Frame q w (w.put key v) where
  held key' hq' := by
    apply World.held_put_of_ne
    intro heq
    rw [heq, hq] at hq'
    cases hq'
  count _ _ := rfl
  window := rfl
  issuer _ _ := rfl
  minter _ _ := rfl

theorem frame_look {i : ι} : Frame (.get key) w (w.look i key) := by
  cases key with
  | otp id =>
    simp only [World.look]
    split
    · exact .refl
    · exact frame_log
  | email id => exact frame_log
  | pk id => exact .refl
  | ticket t => exact .refl

theorem frame_remove {i : ι} : Frame (.del key) w (w.remove i key) := by
  have hput {v : Option key.Entry} : Frame (.del key) w (w.put key v) :=
    frame_put (by simp [Ask.changes])
  cases key with
  | email id => exact hput.trans frame_log
  | otp id => exact hput
  | pk id => exact hput
  | ticket t => exact hput

theorem frame_take {i : ι} {t : String} : Frame (.getdel t) w (w.take i t) := by
  simp only [World.take]
  split
  · exact .refl
  · have hput : Frame (.getdel t) w (w.put (.ticket t) none) := frame_put (by simp [Ask.changes])
    exact hput.trans frame_log

theorem frame_increment {i : ι} {c : Counter} {sec : ℕ} : Frame (.incr c sec) w (w.increment i c) where
  held key _ := by cases c <;> rfl
  count c' hc := by
    have hne : c' ≠ c := fun heq => hc sec (heq ▸ rfl)
    cases c with
    | otpreq id => exact Function.update_of_ne hne ..
    | otptry id => exact Function.update_of_ne hne ..
  window := by cases c <;> rfl
  issuer _ _ := by cases c <;> rfl
  minter _ _ := by cases c <;> rfl

theorem frame_miscount {i : ι} {c : Counter} {told : Bool} : Frame q w (w.miscount i told c) := by
  cases c with
  | otpreq id => exact .refl
  | otptry id => exact frame_log

variable [DecidableEq ι]

theorem frame_judge {i : ι} : Frame q w (w.judge i key) := by
  cases key with
  | otp id =>
    simp only [World.judge]
    split
    · exact frame_log
    · exact .refl
  | email id => exact .refl
  | pk id => exact .refl
  | ticket t => exact .refl

theorem frame_store {i : ι} {value : key.Entry} {ex : Option ℕ} :
    Frame (.set key value ex) w (w.store i key value) := by
  have hput : Frame (.set key value ex) w (w.put key (some value)) := frame_put (by simp [Ask.changes])
  cases key with
  | otp id =>
    have hissuer {u : World ι} {f : Option ι} :
        Frame (.set (.otp id) value ex) u { u with issuer := Function.update u.issuer id f } :=
      ⟨fun _ _ => rfl, fun _ _ => rfl, rfl, fun id' hid => Function.update_of_ne (by
        simpa [Ask.changes, eq_comm] using hid) .., fun _ _ => rfl⟩
    simp only [World.store]
    split
    · exact (hput.trans frame_log).trans hissuer
    · exact (hput.trans frame_log).trans hissuer
  | email id => exact hput.trans frame_log
  | pk id => exact hput
  | ticket t =>
    have hminter {u : World ι} {f : Option ι} :
        Frame (.set (.ticket t) value ex) u { u with minter := Function.update u.minter t f } :=
      ⟨fun _ _ => rfl, fun _ _ => rfl, rfl, fun _ _ => rfl, fun t' ht => Function.update_of_ne (by
        simpa [Ask.changes, eq_comm] using ht) ..⟩
    exact (hput.trans frame_log).trans hminter

theorem frame_react {i : ι} : Frame q w (react sha256Hex i d w q).2 := by
  cases q with
  | get key => exact frame_look
  | set key value ex => exact frame_ite frame_store .refl
  | del key => exact frame_ite (frame_judge.trans frame_remove) frame_judge
  | getdel t => exact frame_ite frame_take .refl
  | incr c sec =>
    have hcount : Frame (.incr c sec) w (if d.executed = true then w.increment i c else w) :=
      frame_ite frame_increment .refl
    exact frame_ite hcount (hcount.trans frame_miscount)
  | setNx h ex =>
    exact frame_ite ⟨fun _ _ => rfl, fun _ _ => rfl, rfl, fun _ _ => rfl, fun _ _ => rfl⟩ .refl
  | compare id code codeHash => exact frame_log
  | now => exact .refl
  | sixDigit => exact .refl
  | randomHex => exact .refl
  | sendCodeEmail email code purpose => exact .refl
  | enforceRateLimit => exact .refl

end

/-! ## Programs -/

section

variable [DecidableEq ι]

/-- The invariant, and that no call adds to the deeds of another. -/
def terms (inv : World ι → Prop) : Terms ι (World ι) where
  inv := inv
  rely i w w' := deeds i w'.journal = deeds i w.journal
  refl _ _ := rfl
  trans _ _ _ _ h h' := h'.trans h

variable (sha256Hex : String → String) (i : ι) (due : List (Event ι) → Ask → Prop)

/-- Every question is due after the deeds of the call so far, and the program ends with a result and
deeds that satisfy `post`. -/
def Behaves (post : Except Thrown α → List (Event ι) → Prop) :
    Call α → List (Event ι) → Prop
  | .ret r, L => post r L
  | .ask q k, L => due L q ∧ ∀ (w : World ι) (d : Chance), deeds i w.journal = L →
    d.fair q = true →
      Behaves post (k (react sha256Hex i d w q).1) (deeds i (react sha256Hex i d w q).2.journal)

variable {sha256Hex i due} {post post' : Except Thrown α → List (Event ι) → Prop}
  {L : List (Event ι)} {p : Call α}

theorem behaves_pure {a : α} (h : post (.ok a) L) :
    Behaves sha256Hex i due post (pure a : Call α) L := h

theorem behaves_throw {e : Thrown} (h : post (.error e) L) :
    Behaves sha256Hex i due post (throw e : Call α) L := h

theorem behaves_ite {c : Prop} [Decidable c] {p' : Call α} (h : c → Behaves sha256Hex i due post p L)
    (h' : ¬c → Behaves sha256Hex i due post p' L) :
    Behaves sha256Hex i due post (if c then p else p') L := by
  split
  · exact h ‹_›
  · exact h' ‹_›

theorem Behaves.mono (hpost : ∀ r L, post r L → post' r L) (h : Behaves sha256Hex i due post p L) :
    Behaves sha256Hex i due post' p L := by
  induction p generalizing L with
  | ret r => exact hpost r L h
  | ask q k ih => exact ⟨h.1, fun w d hL hfair => ih _ (h.2 w d hL hfair)⟩

theorem behaves_andThen {f : Except Thrown α → Call β}
    {post : Except Thrown β → List (Event ι) → Prop}
    (h : Behaves sha256Hex i due (fun r L => Behaves sha256Hex i due post (f r) L) p L) :
    Behaves sha256Hex i due post (p.andThen f) L := by
  induction p generalizing L with
  | ret r => exact h
  | ask q k ih => exact ⟨h.1, fun w d hL hfair => ih _ (h.2 w d hL hfair)⟩

/-- Sequencing: the second part starts where the first returns, unless that throws. -/
theorem behaves_bind {P : Except Thrown α → List (Event ι) → Prop} {f : α → Call β}
    {post : Except Thrown β → List (Event ι) → Prop} (h : Behaves sha256Hex i due P p L)
    (hok : ∀ a L, P (.ok a) L → Behaves sha256Hex i due post (f a) L)
    (herror : ∀ e L, P (.error e) L → post (.error e) L) :
    Behaves sha256Hex i due post (p >>= f) L := by
  refine behaves_andThen (h.mono fun r L hr => ?_)
  cases r with
  | ok a => exact hok a L hr
  | error e => exact herror e L hr

theorem behaves_orThrow_ok {f : α → Call β} {post : Except Thrown β → List (Event ι) → Prop} {a : α}
    (h : Behaves sha256Hex i due post (f a) L) :
    Behaves sha256Hex i due post (orThrow (.ok a) >>= f) L := h

/-- Where there is no answer the call throws. -/
theorem behaves_orThrow_error {f : α → Call β} {post : Except Thrown β → List (Event ι) → Prop}
    {m : String} (h : post (.error (.error m)) L) :
    Behaves sha256Hex i due post (orThrow (.error m) >>= f) L := h

/-- One question. -/
theorem behaves_ask {q : Ask} {k : q.Answer → Call α} (hdue : due L q)
    (h : ∀ (w : World ι) (d : Chance), deeds i w.journal = L → d.fair q = true →
      Behaves sha256Hex i due post (k (react sha256Hex i d w q).1)
        (deeds i (react sha256Hex i d w q).2.journal)) :
    Behaves sha256Hex i due post (ask q >>= k) L := ⟨hdue, h⟩

/-- **The rule for runs.** What every step that is due keeps holds throughout, and a call that has
ended has ended as it says. -/
theorem served {env : Env} {met : Condition ι} {inv : World ι → Prop} {requests : ι → Request}
    {x : Crowd ι Ask.Answer Thrown Served (World ι)} {due : ι → List (Event ι) → Ask → Prop}
    {post : ι → Except Thrown Served → List (Event ι) → Prop} (hempty : inv .empty)
    (hexpires : ∀ w w', inv w → World.Expires w w' → inv w')
    (hstep : ∀ i w d q, inv w → due i (deeds i w.journal) q → d.fair q = true → met i d w q →
      inv (react env.sha256Hex i d w q).2)
    (hserve : ∀ i, Behaves env.sha256Hex i (due i) (post i) (serve env (requests i)) [])
    (hrun : Run env met requests x) :
    inv x.world ∧ ∀ i r, x.prog i = .ret r → post i r (deeds i x.world.journal) := by
  have hkeeps {i : ι} {p : Call Served} {L : List (Event ι)}
      (h : Behaves env.sha256Hex i (due i) (post i) p L) (w : World ι)
      (hL : deeds i w.journal = L) : (terms inv).keeps (Steps env.sha256Hex met) i
        (fun r w => post i r (deeds i w.journal)) p w := by
    induction p generalizing L w with
    | ret r =>
      intro w' hrely _
      rw [show deeds i w'.journal = L from Eq.trans hrely hL]
      exact h
    | ask q k ih =>
      rintro w₁ hrely hinv a w₂ ⟨d, hfair, hmet, hreact⟩
      have hL₁ : deeds i w₁.journal = L := Eq.trans hrely hL
      have hadds : Adds i q w₁ (react env.sha256Hex i d w₁ q).2 := adds_react
      have hinv₂ := hstep i w₁ d q hinv (hL₁ ▸ h.1) hfair hmet
      have hrest := h.2 w₁ d hL₁ hfair
      rw [hreact] at hadds hinv₂ hrest
      exact ⟨hinv₂, fun j hj => hadds.deeds_of_ne hj, ih a hrest w₂ rfl⟩
  have hfirst : (terms inv).Kept (Steps env.sha256Hex met)
      (fun i r w => post i r (deeds i w.journal)) (opening env requests) :=
    ⟨hempty, fun i => hkeeps (hserve i) _ rfl⟩
  have hkept := Terms.sound (fun w w' hinv (h : World.Expires w w') =>
    ⟨hexpires w w' hinv h, fun i => congrArg (deeds i) h.journal⟩) hfirst hrun
  exact ⟨hkept.inv, fun i r hret => hkept.ended hret⟩

attribute [irreducible] Behaves

end

/-! ## Questions -/

/-- A question that leaves no trace. -/
def Ask.idle : Ask → Bool
  | .now | .sixDigit | .randomHex | .sendCodeEmail .. | .enforceRateLimit | .setNx .. | .get (.pk _)
  | .set (.pk _) .. | .incr (.otpreq _) _ => true
  | _ => false

namespace Chance

variable {d : Chance} {a : α}

theorem reply_cases : d.reply a = .ok a ∧ d.failure = none ∨
    ∃ m, d.reply a = .error m ∧ d.failure = some m := by
  cases h : d.failure with
  | none => exact .inl ⟨by rw [reply, h], rfl⟩
  | some m => exact .inr ⟨m, by rw [reply, h], rfl⟩

end Chance

section

variable [DecidableEq ι] {sha256Hex : String → String} {i : ι}
  {due : List (Event ι) → Ask → Prop} {post : Except Thrown α → List (Event ι) → Prop}
  {L : List (Event ι)} {w : World ι} {d : Chance} {q : Ask} {id : String}

theorem journal_idle (hq : q.idle = true) : (react sha256Hex i d w q).2.journal = w.journal := by
  match q, hq with
  | .now, _ => rfl
  | .sixDigit, _ => rfl
  | .randomHex, _ => rfl
  | .sendCodeEmail .., _ => rfl
  | .enforceRateLimit, _ => rfl
  | .setNx .., _ => exact journal_ite rfl
  | .get (.pk _), _ => rfl
  | .set (.pk _) .., _ => exact journal_ite rfl
  | .incr (.otpreq id) sec, _ =>
    change (if d.clear = true then _ else _ : World ι).journal = _
    split <;> exact journal_ite rfl

theorem behaves_idle {k : q.Answer → Call α} (hq : q.idle = true) (hdue : due L q)
    (h : ∀ a, Behaves sha256Hex i due post (k a) L) :
    Behaves sha256Hex i due post (ask q >>= k) L := by
  apply behaves_ask hdue
  intro w d hL _
  rw [journal_idle hq, hL]
  exact h _

/-- Whatever a program of idle questions ends with, its deeds are the same. -/
theorem behaves_of_idle {p : Call α} (hdue : ∀ q, q.idle = true → due L q)
    (hp : p.Asks fun q => q.idle = true) : Behaves sha256Hex i due (fun _ L' => L' = L) p L := by
  induction p with
  | ret r =>
    unfold Behaves
    rfl
  | ask q k ih =>
    obtain ⟨hq, hk⟩ := asks_ask.mp hp
    exact behaves_idle hq (hdue q hq) fun a => ih a (hk a)

theorem behaves_get_code {k : Except String (Option OtpRecord) → Call α} (hdue : due L (.get (.otp id)))
    (hnone : Behaves sha256Hex i due post (k (.ok none)) L)
    (hsome : ∀ record issuer,
      Behaves sha256Hex i due post (k (.ok (some record))) (L ++ [.saw i id record issuer]))
    (herror : ∀ m L, Behaves sha256Hex i due post (k (.error m)) L) :
    Behaves sha256Hex i due post (ask (.get (.otp id)) >>= k) L := by
  apply behaves_ask hdue
  intro w d hL _
  change Behaves sha256Hex i due post (k (d.reply (w.held (.otp id)))) (deeds i (w.look i (.otp id)).journal)
  rcases d.reply_cases (a := w.held (.otp id)) with ⟨hreply, -⟩ | ⟨m, hreply, -⟩
  · rw [hreply]
    cases hheld : w.held (.otp id) with
    | none =>
      simp only [World.look, hheld, hL]
      exact hnone
    | some record =>
      simp only [World.look, hheld, World.journal_log, deeds_append, hL, deeds_single, Event.actor,
        if_true]
      exact hsome record _
  · rw [hreply]
    exact herror m _

theorem behaves_compare {code codeHash : String} {k : Bool → Call α}
    (hdue : due L (.compare id code codeHash))
    (h : ∀ equal window,
      Behaves sha256Hex i due post (k equal) (L ++ [.compared i id equal window])) :
    Behaves sha256Hex i due post (ask (.compare id code codeHash) >>= k) L := by
  apply behaves_ask hdue
  intro w d hL _
  have hdeeds : deeds i (react sha256Hex i d w (.compare id code codeHash)).2.journal =
      L ++ [.compared i id (react sha256Hex i d w (.compare id code codeHash)).1 (w.window id)] := by
    change deeds i (w.journal ++ [_]) = _
    simp only [deeds_append, hL, deeds_single, Event.actor, if_true]
    rfl
  rw [hdeeds]
  exact h _ _

theorem behaves_set_code {record : OtpRecord} {ex : Option ℕ} {k : Except String Unit → Call α}
    (hdue : due L (.set (.otp id) record ex))
    (h : ∀ a L, Behaves sha256Hex i due post (k a) L) :
    Behaves sha256Hex i due post (ask (.set (.otp id) record ex) >>= k) L :=
  behaves_ask hdue fun _ _ _ _ => h _ _

/-- A code that was found equal is accepted with the deletion. -/
theorem behaves_del_code {k : Except String Unit → Call α} (hdue : due L (.del (.otp id)))
    (hmatched : matched L = true → ∀ a issuer,
      Behaves sha256Hex i due post (k a) (L ++ [.accepted i id issuer]))
    (hother : matched L = false → ∀ a, Behaves sha256Hex i due post (k a) L) :
    Behaves sha256Hex i due post (ask (.del (.otp id)) >>= k) L := by
  apply behaves_ask hdue
  intro w d hL _
  have hjournal : (react sha256Hex i d w (.del (.otp id))).2.journal = (w.judge i (.otp id)).journal :=
    journal_ite rfl
  rw [hjournal]
  cases hm : matched L with
  | true =>
    simp only [World.judge, hL, hm, if_true, World.journal_log, deeds_append, deeds_single,
      Event.actor]
    exact hmatched hm _ _
  | false =>
    simp only [World.judge, hL, hm, Bool.false_eq_true, if_false]
    exact hother hm _

/-- The verify budget: charged and counted, not to be read although an answer came, or thrown. -/
theorem behaves_charge {sec : ℕ} {k : Except String (List KvReply) → Call α}
    (hdue : due L (.incr (.otptry id) sec))
    (hcount : ∀ window (n : ℕ), Behaves sha256Hex i due post
      (k (.ok [.of (.int n), .of (.int 1)])) (L ++ [.charged i id window n]))
    (hgarbled : ∀ rs L', (L' = L ∨ ∃ window n, L' = L ++ [.charged i id window n]) →
      Behaves sha256Hex i due post (k (.ok rs)) (L' ++ [.unread i id false]))
    (herror : ∀ m L, Behaves sha256Hex i due post (k (.error m)) L) :
    Behaves sha256Hex i due post (ask (.incr (.otptry id) sec) >>= k) L := by
  apply behaves_ask hdue
  intro w d hL hfair
  generalize hw' : (if d.executed = true then w.increment i (.otptry id) else w) = w'
  have hreact : react sha256Hex i d w (.incr (.otptry id) sec) =
      (d.replies [.of (.int ((w.count (.otptry id) + 1 : ℕ) : ℤ)), .of (.int 1)],
        if d.clear = true then w' else w'.miscount i d.failure.isSome (.otptry id)) := by
    rw [← hw']
    rfl
  have hdeeds : deeds i w'.journal = L ∨
      ∃ window n, deeds i w'.journal = L ++ [.charged i id window n] := by
    rw [← hw']
    split
    · refine .inr ⟨w.window id, w.count (.otptry id) + 1, ?_⟩
      change deeds i (w.journal ++ [_]) = _
      simp only [deeds_append, hL, deeds_single, Event.actor, if_true]
    · exact .inl hL
  rw [hreact]
  rcases d.reply_cases (a := d.garbled.getD [.of (.int ((w.count (.otptry id) + 1 : ℕ) : ℤ)), .of (.int 1)])
    with ⟨hreply, hfailure⟩ | ⟨m, hreply, -⟩
  · cases hgarb : d.garbled with
    | none =>
      have hexec : d.executed = true := by simpa [Chance.fair, hfailure, hgarb] using hfair
      have hclear : d.clear = true := by simp [Chance.clear, hfailure, hgarb]
      rw [hgarb] at hreply
      rw [Chance.replies, hgarb, hreply, if_pos hclear, ← hw', if_pos hexec]
      change Behaves sha256Hex i due post _ (deeds i (w.journal ++ [_]))
      simp only [deeds_append, hL, deeds_single, Event.actor, if_true]
      exact hcount _ _
    | some rs =>
      have hclear : ¬d.clear = true := by simp [Chance.clear, hgarb]
      rw [hgarb] at hreply
      rw [Chance.replies, hgarb, hreply, if_neg hclear, hfailure]
      change Behaves sha256Hex i due post _ (deeds i (w'.journal ++ [_]))
      simp only [deeds_append, deeds_single, Event.actor, if_true]
      exact hgarbled rs _ hdeeds
  · rw [Chance.replies, hreply]
    exact herror m _

theorem behaves_get_row {k : Except String (Option StoredRow) → Call α}
    (hdue : due L (.get (.email id)))
    (hok : ∀ row, Behaves sha256Hex i due post (k (.ok row)) (L ++ [.readRow i id row]))
    (herror : ∀ m L, Behaves sha256Hex i due post (k (.error m)) L) :
    Behaves sha256Hex i due post (ask (.get (.email id)) >>= k) L := by
  apply behaves_ask hdue
  intro w d hL _
  change Behaves sha256Hex i due post (k (d.reply (w.held (.email id)))) (deeds i (w.journal ++ [_]))
  simp only [deeds_append, hL, deeds_single, Event.actor, if_true]
  rcases d.reply_cases (a := w.held (.email id)) with ⟨hreply, -⟩ | ⟨m, hreply, -⟩
  · rw [hreply]
    exact hok _
  · rw [hreply]
    exact herror m _

theorem behaves_set_row {row : StoredRow} {ex : Option ℕ} {k : Except String Unit → Call α}
    (hdue : due L (.set (.email id) row ex))
    (hok : Behaves sha256Hex i due post (k (.ok ())) (L ++ [.wroteRow i id row]))
    (herror : ∀ m L, Behaves sha256Hex i due post (k (.error m)) L) :
    Behaves sha256Hex i due post (ask (.set (.email id) row ex) >>= k) L := by
  apply behaves_ask hdue
  intro w d hL hfair
  change Behaves sha256Hex i due post (k (d.reply ()))
    (deeds i (if d.executed = true then w.store i (.email id) row else w).journal)
  rcases d.reply_cases (a := ()) with ⟨hreply, hfailure⟩ | ⟨m, hreply, -⟩
  · rw [hreply, if_pos (by simpa [Chance.fair, hfailure] using hfair)]
    change Behaves sha256Hex i due post _ (deeds i (w.journal ++ [_]))
    simp only [deeds_append, hL, deeds_single, Event.actor, if_true]
    exact hok
  · rw [hreply]
    exact herror m _

theorem behaves_del_row {k : Except String Unit → Call α} (hdue : due L (.del (.email id)))
    (hok : Behaves sha256Hex i due post (k (.ok ())) (L ++ [.deletedRow i id]))
    (herror : ∀ m L, Behaves sha256Hex i due post (k (.error m)) L) :
    Behaves sha256Hex i due post (ask (.del (.email id)) >>= k) L := by
  apply behaves_ask hdue
  intro w d hL hfair
  change Behaves sha256Hex i due post (k (d.reply ()))
    (deeds i (if d.executed = true then w.remove i (.email id) else w).journal)
  rcases d.reply_cases (a := ()) with ⟨hreply, hfailure⟩ | ⟨m, hreply, -⟩
  · rw [hreply, if_pos (by simpa [Chance.fair, hfailure] using hfair)]
    change Behaves sha256Hex i due post _ (deeds i (w.journal ++ [_]))
    simp only [deeds_append, hL, deeds_single, Event.actor, if_true]
    exact hok
  · rw [hreply]
    exact herror m _

theorem behaves_set_ticket {t : String} {ex : Option ℕ} {k : Except String Unit → Call α}
    (hdue : due L (.set (.ticket t) id ex)) (h : ∀ a L, Behaves sha256Hex i due post (k a) L) :
    Behaves sha256Hex i due post (ask (.set (.ticket t) id ex) >>= k) L :=
  behaves_ask hdue fun _ _ _ _ => h _ _

/-- A ticket: not there, taken, or nothing that could be read came back. -/
theorem behaves_take {t : String} {k : Except String (List KvReply) → Call α}
    (hdue : due L (.getdel t))
    (hnone : Behaves sha256Hex i due post (k (.ok [.of .null])) L)
    (hsome : ∀ id minter, Behaves sha256Hex i due post (k (.ok [.of (.str id)]))
      (L ++ [.took i t id minter]))
    (hgarbled : ∀ rs L, Chance.bad rs = true → Behaves sha256Hex i due post (k (.ok rs)) L)
    (herror : ∀ m L, Behaves sha256Hex i due post (k (.error m)) L) :
    Behaves sha256Hex i due post (ask (.getdel t) >>= k) L := by
  apply behaves_ask hdue
  intro w d hL hfair
  change Behaves sha256Hex i due post (k (d.reply (d.garbled.getD [.of (ofOption (w.held (.ticket t)))])))
    (deeds i (if d.executed = true then w.take i t else w).journal)
  rcases d.reply_cases (a := d.garbled.getD [.of (ofOption (w.held (.ticket t)))])
    with ⟨hreply, hfailure⟩ | ⟨m, hreply, -⟩
  · rw [hreply]
    cases hgarb : d.garbled with
    | none =>
      rw [if_pos (by simpa [Chance.fair, hfailure, hgarb] using hfair)]
      cases hheld : w.held (.ticket t) with
      | none =>
        simp only [World.take, hheld, hL]
        exact hnone
      | some id =>
        simp only [World.take, hheld, World.journal_log, World.journal_put, deeds_append, hL,
          deeds_single, Event.actor, if_true]
        exact hsome id _
    | some rs =>
      have hbad : Chance.bad rs = true := by
        have hall := (Bool.and_eq_true_iff.mp hfair).2
        rwa [hgarb] at hall
      exact hgarbled rs _ hbad
  · rw [hreply]
    exact herror m _

end

end Lumenia.Sponsor.Recovery

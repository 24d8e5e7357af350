import Lumenia.Sponsor.DayKeys
import Lumenia.Theory.Positional
import Mathlib.Data.Fin.Basic
import Mathlib.Data.List.TakeWhile

/-!
# The address that a request is counted under

`ipBucket` of `apps/sponsor/src/lib/rate-limit.ts`, and the texts of an address: four numbers with points,
or groups of hexadecimal digits with at most one run of zeros left out and, at the end, four numbers for
two groups. The bucket is made of the first groups as they are written, so texts in plain notation are
told apart as their clients are, and no others (`bucket_right_iff`).

`ipBucket` is here on lists of characters, where texts can be taken apart; the keys of a day have it with
the platform's `split`.
-/

namespace Lumenia.Sponsor.RateLimit

/-! ## The bucket -/

/-- What is before the first `::`, and what is behind it. -/
def cutPair : List Char → List Char × Option (List Char)
  | [] => ([], none)
  | c :: cs =>
    if c = ':' ∧ cs.head? = some ':' then ([], some cs.tail)
    else (c :: (cutPair cs).1, (cutPair cs).2)

/-- The groups between colons. -/
def groupsOf (cs : List Char) : List (List Char) := (cs.splitOn ':').filter (· ≠ [])

/-- The groups of both sides, with as many zeros between them as are missing. -/
def fill (headGroups tailGroups : List (List Char)) : List (List Char) :=
  headGroups ++ List.replicate (8 - headGroups.length - tailGroups.length) ['0'] ++ tailGroups

/-- A zone is dropped, and case makes no difference. -/
def ipBucket (ip : String) : String :=
  if ':' ∉ ip.toList then ip
  else
    let (head, behind) := cutPair ((ip.toList.takeWhile (· ≠ '%')).map Char.toLower)
    let tail := (behind.map fun cs => (cutPair cs).1).getD []
    .ofList ([':'].intercalate ((fill (groupsOf head) (groupsOf tail)).take 4) ++ "::/64".toList)

/-! ## Addresses -/

/-- A hexadecimal digit, as it is written. -/
structure Digit where
  value : Fin 16
  upper : Bool
  deriving DecidableEq

def lowerChar (d : Fin 16) : Char := .ofNat (if d.val < 10 then 48 + d.val else 87 + d.val)

def Digit.char (d : Digit) : Char := if d.upper then (lowerChar d.value).toUpper else lowerChar d.value

/-- Sixteen bits, with zeros in front or without. -/
structure Hextet where
  digits : List Digit
  nonempty : digits ≠ []
  short : digits.length ≤ 4

namespace Hextet

variable (g : Hextet)

def text : List Char := g.digits.map Digit.char

/-- The text in lower case. -/
def lowered : List Char := g.digits.map fun d => lowerChar d.value

def value : ℕ := ofDigits 16 (g.digits.map fun d => d.value.val)

def width : ℕ := g.digits.length

/-- A group of a run that is left out. -/
def zero : Hextet := ⟨[⟨0, false⟩], nofun, by decide⟩

end Hextet

/-- The four numbers of an address of version 4. -/
structure Quad where
  a : Fin 256
  b : Fin 256
  c : Fin 256
  d : Fin 256
  deriving DecidableEq

/-- A number without zeros in front. -/
def octetText (n : Fin 256) : List Char := (numeral 10 n).map fun d => lowerChar (Fin.ofNat 16 d)

def Quad.texts (q : Quad) : List (List Char) := [q.a, q.b, q.c, q.d].map octetText

def Quad.text (q : Quad) : List Char := ['.'].intercalate q.texts

/-- The quad of two groups. -/
def Quad.ofGroups (g h : ℕ) : Quad :=
  ⟨.ofNat 256 (g / 256), .ofNat 256 g, .ofNat 256 (h / 256), .ofNat 256 h⟩

/-- The two groups of the quad. -/
def Quad.groups (q : Quad) : List ℕ := [q.a * 256 + q.b, q.c * 256 + q.d]

/-- A text of an address of version 6. -/
structure V6Text where
  head : List Hextet
  /-- What is behind `::`, where a run is left out. -/
  tail : Option (List Hextet)
  quad : Option Quad
  fits : match tail with
    | none => head.length + 2 * quad.toList.length = 8
    | some tail => head.length + tail.length + 2 * quad.toList.length ≤ 7

/-- Who is counted: one address, or a network of 64 bits. -/
inductive Client
  | v4 (q : Quad)
  | network (groups : List ℕ)
  deriving DecidableEq

namespace V6Text

variable (t : V6Text)

def text : List Char :=
  match t.tail with
  | none => [':'].intercalate (t.head.map Hextet.text ++ t.quad.toList.map Quad.text)
  | some tail => [':'].intercalate (t.head.map Hextet.text) ++ ':' :: ':' ::
      [':'].intercalate (tail.map Hextet.text ++ t.quad.toList.map Quad.text)

/-- The eight groups. -/
def groups : List ℕ :=
  let behind := (t.tail.getD []).map Hextet.value ++ t.quad.toList.flatMap Quad.groups
  t.head.map Hextet.value ++ List.replicate (8 - t.head.length - behind.length) 0 ++ behind

/-- An address of version 4 that is mapped to one of version 6 is the former. -/
def client : Client :=
  if t.groups.take 6 = [0, 0, 0, 0, 0, 65535] then
    .v4 (.ofGroups (t.groups.getD 6 0) (t.groups.getD 7 0))
  else .network (t.groups.take 4)

/-- The first groups as the bucket has them, where a quad counts for one. -/
def written : List Hextet :=
  let behind := t.tail.getD []
  (t.head ++ List.replicate (8 - t.head.length - (behind.length + t.quad.toList.length)) Hextet.zero ++
    behind).take 4

/-- No address of version 4 is mapped, and none of the first groups has a zero in front. Where a quad
comes behind a run that is left out, the groups between them are zero but for the last two. -/
structure Plain : Prop where
  own : t.groups.take 6 ≠ [0, 0, 0, 0, 0, 65535]
  short : ∀ g ∈ t.written, g.width = 1 ∨ 16 ^ (g.width - 1) ≤ g.value
  run : t.quad ≠ none → ∀ g ∈ (t.tail.getD []).take ((t.tail.getD []).length - 2), g.value = 0

end V6Text

inductive AddressText
  | v4 (q : Quad)
  | v6 (t : V6Text)

def AddressText.text : AddressText → String
  | v4 q => .ofList q.text
  | v6 t => .ofList t.text

def AddressText.client : AddressText → Client
  | v4 q => .v4 q
  | v6 t => t.client

def AddressText.Plain : AddressText → Prop
  | v4 _ => True
  | v6 t => t.Plain

/-- The first groups have the same numbers, with as many digits. -/
def SameDigits (t t' : V6Text) : Prop :=
  t.written.map (fun g => (g.value, g.width)) = t'.written.map (fun g => (g.value, g.width))

/-! ## Groups of a text -/

/-- A part of a text between colons. -/
structure IsGroup (cs : List Char) : Prop where
  nonempty : cs ≠ []
  colon : ':' ∉ cs
  zone : '%' ∉ cs

theorem char_facts : ∀ (v : Fin 16) (upper : Bool), (Digit.char ⟨v, upper⟩).toLower = lowerChar v ∧
    Digit.char ⟨v, upper⟩ ≠ ':' ∧ Digit.char ⟨v, upper⟩ ≠ '%' := by
  decide +kernel

theorem lowerChar_facts : ∀ v : Fin 16, (lowerChar v).toLower = lowerChar v ∧ lowerChar v ≠ ':' ∧
    lowerChar v ≠ '%' ∧ lowerChar v ≠ '.' := by
  decide +kernel

theorem lowerChar_inj : ∀ v w : Fin 16, lowerChar v = lowerChar w → v = w := by
  decide +kernel

section

variable {cs rest : List Char} {gs gs' : List (List Char)}

theorem Hextet.isGroup (g : Hextet) : IsGroup g.text where
  nonempty h := g.nonempty (List.map_eq_nil_iff.mp h)
  colon h := by
    obtain ⟨d, -, hd⟩ := List.mem_map.mp h
    exact (char_facts d.value d.upper).2.1 hd
  zone h := by
    obtain ⟨d, -, hd⟩ := List.mem_map.mp h
    exact (char_facts d.value d.upper).2.2 hd

theorem Hextet.lower_text (g : Hextet) : g.text.map Char.toLower = g.lowered := by
  rw [text, lowered, List.map_map]
  exact List.map_congr_left fun d _ => (char_facts d.value d.upper).1

theorem octetText_ne_nil {n : Fin 256} : octetText n ≠ [] := by
  rw [octetText, Ne, List.map_eq_nil_iff]
  exact numeral_ne_nil

theorem mem_join {sep c : Char} (h : c ∈ [sep].intercalate gs) : c = sep ∨ ∃ g ∈ gs, c ∈ g := by
  induction gs with
  | nil => exact absurd h List.not_mem_nil
  | cons g gs ih =>
    cases gs with
    | nil =>
      rw [List.intercalate_singleton] at h
      exact .inr ⟨g, List.mem_cons_self, h⟩
    | cons g' gs =>
      rw [List.intercalate_cons_cons] at h
      rcases List.mem_append.mp h with h | h
      · rcases List.mem_append.mp h with h | h
        · exact .inr ⟨g, List.mem_cons_self, h⟩
        · exact .inl (List.mem_singleton.mp h)
      · rcases ih h with h | ⟨g, hg, h⟩
        · exact .inl h
        · exact .inr ⟨g, List.mem_cons_of_mem _ hg, h⟩

theorem map_join {f : Char → Char} {sep : Char} (hsep : f sep = sep) :
    ([sep].intercalate gs).map f = [sep].intercalate (gs.map (List.map f)) := by
  induction gs with
  | nil => rfl
  | cons g gs ih =>
    cases gs with
    | nil => simp only [List.intercalate_singleton, List.map_cons, List.map_nil]
    | cons g' gs =>
      simp only [List.intercalate_cons_cons, List.map_cons, List.map_append, List.map_nil, hsep] at ih ⊢
      rw [ih]

/-- Texts without the separator are told apart when they are joined. -/
theorem join_inj {sep : Char} (hgs : ∀ g ∈ gs, sep ∉ g) (hgs' : ∀ g ∈ gs', sep ∉ g) (hne : gs ≠ [])
    (hne' : gs' ≠ []) (h : [sep].intercalate gs = [sep].intercalate gs') : gs = gs' := by
  rw [← List.splitOn_intercalate sep hgs hne, h, List.splitOn_intercalate sep hgs' hne']

/-- A quad has digits and points only. -/
theorem Quad.mem_text {q : Quad} {c : Char} (h : c ∈ q.text) : c = '.' ∨ ∃ v, c = lowerChar v := by
  rcases mem_join h with h | ⟨t, ht, hc⟩
  · exact .inl h
  · obtain ⟨n, -, rfl⟩ := List.mem_map.mp ht
    obtain ⟨d, -, rfl⟩ := List.mem_map.mp hc
    exact .inr ⟨_, rfl⟩

theorem Quad.isGroup (q : Quad) : IsGroup q.text where
  nonempty h := by
    rw [text, texts, List.map_cons, List.map_cons, List.intercalate_cons_cons] at h
    exact octetText_ne_nil (List.append_eq_nil_iff.mp (List.append_eq_nil_iff.mp h).1).1
  colon h := by
    rcases Quad.mem_text h with h | ⟨v, h⟩
    · cases h
    · exact (lowerChar_facts v).2.1 h.symm
  zone h := by
    rcases Quad.mem_text h with h | ⟨v, h⟩
    · cases h
    · exact (lowerChar_facts v).2.2.1 h.symm

theorem Quad.lower_text (q : Quad) : q.text.map Char.toLower = q.text := by
  conv_rhs => rw [← List.map_id q.text]
  apply List.map_congr_left
  intro c hc
  rcases Quad.mem_text hc with rfl | ⟨v, rfl⟩
  · rfl
  · exact (lowerChar_facts v).1

theorem octetText_inj {m n : Fin 256} (h : octetText m = octetText n) : m = n := by
  have hdigits : ∀ n : Fin 256, ∀ d ∈ numeral 10 n, (Fin.ofNat 16 d).val = d := by
    intro n d hd
    have hlt : d < 10 := lt_of_mem_numeral (by decide) hd
    exact Nat.mod_eq_of_lt (by omega)
  have hinj : numeral 10 m = numeral 10 n := by
    have hfin : (numeral 10 m).map (Fin.ofNat 16) = (numeral 10 n).map (Fin.ofNat 16) := by
      apply List.map_injective_iff.mpr (fun v w => lowerChar_inj v w)
      rw [List.map_map, List.map_map]
      exact h
    have hback : ∀ n : Fin 256, ((numeral 10 n).map (Fin.ofNat 16)).map Fin.val = numeral 10 n := by
      intro n
      rw [List.map_map]
      exact (List.map_congr_left (hdigits n)).trans (List.map_id _)
    rw [← hback m, hfin, hback n]
  have hvalue := congrArg (ofDigits 10) hinj
  rw [ofDigits_numeral (by decide), ofDigits_numeral (by decide)] at hvalue
  exact Fin.ext hvalue

theorem Quad.text_inj {q q' : Quad} (h : q.text = q'.text) : q = q' := by
  have hpoint : ∀ q : Quad, ∀ t ∈ q.texts, '.' ∉ t := by
    intro q t ht hc
    obtain ⟨n, -, rfl⟩ := List.mem_map.mp ht
    obtain ⟨d, -, hd⟩ := List.mem_map.mp hc
    exact (lowerChar_facts _).2.2.2 hd
  have htexts := join_inj (hpoint q) (hpoint q') (List.cons_ne_nil _ _) (List.cons_ne_nil _ _) h
  simp only [texts, List.map_cons, List.map_nil, List.cons.injEq, and_true] at htexts
  obtain ⟨ha, hb, hc, hd⟩ := htexts
  cases q
  cases q'
  exact (mk.injEq ..).mpr ⟨octetText_inj ha, octetText_inj hb, octetText_inj hc, octetText_inj hd⟩

/-! ## Cutting -/

theorem cutPair_append (h : ':' ∉ cs) : cutPair (cs ++ rest) = (cs ++ (cutPair rest).1, (cutPair rest).2) := by
  induction cs with
  | nil => rfl
  | cons c cs ih =>
    obtain ⟨hc, hcs⟩ := not_or.mp (List.mem_cons.not.mp h)
    rw [List.cons_append, cutPair, if_neg fun hpair => hc hpair.1.symm, ih hcs]
    rfl

/-- No cut is made within groups. -/
theorem cutPair_join (h : ∀ g ∈ gs, IsGroup g) : cutPair ([':'].intercalate gs ++ rest) =
    ([':'].intercalate gs ++ (cutPair rest).1, (cutPair rest).2) := by
  induction gs with
  | nil => rfl
  | cons g gs ih =>
    have hg := h g List.mem_cons_self
    cases gs with
    | nil => rw [List.intercalate_singleton, cutPair_append hg.colon]
    | cons g' gs =>
      have ih := ih fun g hg => h g (List.mem_cons_of_mem _ hg)
      have hg' := h g' (List.mem_cons_of_mem _ List.mem_cons_self)
      obtain ⟨c, cs, hcs⟩ := List.exists_cons_of_ne_nil hg'.nonempty
      have hhead : ∃ cs', [':'].intercalate (g' :: gs) ++ rest = c :: cs' := by
        cases gs with
        | nil => exact ⟨cs ++ rest, by rw [List.intercalate_singleton, hcs]; rfl⟩
        | cons g'' gs =>
          rw [List.intercalate_cons_cons, hcs]
          exact ⟨_, rfl⟩
      obtain ⟨cs', hcs'⟩ := hhead
      have hne : c ≠ ':' := fun heq => hg'.colon (by rw [hcs, heq]; exact List.mem_cons_self)
      rw [List.intercalate_cons_cons, List.append_assoc, List.append_assoc, cutPair_append hg.colon,
        List.singleton_append, cutPair, if_neg ?_, ih, List.append_assoc, List.append_assoc]
      · rfl
      · rw [hcs']
        rintro ⟨-, hpair⟩
        exact hne (Option.some.inj hpair)

theorem cutPair_pair : cutPair (':' :: ':' :: rest) = ([], some rest) := rfl

theorem groupsOf_join (h : ∀ g ∈ gs, IsGroup g) : groupsOf ([':'].intercalate gs) = gs := by
  unfold groupsOf
  cases gs with
  | nil => rfl
  | cons g gs =>
    rw [List.splitOn_intercalate ':' (fun g hg => (h g hg).colon) (List.cons_ne_nil _ _)]
    exact List.filter_eq_self.mpr fun g hg => decide_eq_true (h g hg).nonempty

end

/-! ## The bucket of an address -/

theorem Hextet.lowered_zero : Hextet.zero.lowered = ['0'] := by decide

theorem Hextet.isGroup_lowered (g : Hextet) : IsGroup g.lowered where
  nonempty h := g.nonempty (List.map_eq_nil_iff.mp h)
  colon h := by
    obtain ⟨d, -, hd⟩ := List.mem_map.mp h
    exact (lowerChar_facts d.value).2.1 hd
  zone h := by
    obtain ⟨d, -, hd⟩ := List.mem_map.mp h
    exact (lowerChar_facts d.value).2.2.1 hd

/-- Some groups, and the quad behind them if there is one. -/
def side (write : Hextet → List Char) (gs : List Hextet) (qs : List Quad) : List (List Char) :=
  gs.map write ++ qs.map Quad.text

section

variable {gs : List Hextet} {qs : List Quad}

theorem isGroup_side {write : Hextet → List Char} (hwrite : ∀ g, IsGroup (write g)) :
    ∀ cs ∈ side write gs qs, IsGroup cs := by
  intro cs hcs
  rcases List.mem_append.mp hcs with hcs | hcs
  · obtain ⟨g, -, rfl⟩ := List.mem_map.mp hcs
    exact hwrite g
  · obtain ⟨q, -, rfl⟩ := List.mem_map.mp hcs
    exact q.isGroup

theorem lower_side : (side Hextet.text gs qs).map (List.map Char.toLower) = side Hextet.lowered gs qs := by
  rw [side, side, List.map_append, List.map_map, List.map_map]
  congr 1
  · exact List.map_congr_left fun g _ => g.lower_text
  · exact List.map_congr_left fun q _ => q.lower_text

end

namespace V6Text

variable (t : V6Text)

/-- The quad, where no run is left out before it. -/
def headQuads : List Quad := if t.tail = none then t.quad.toList else []

/-- The text, or what becomes of it without case. -/
def join (write : Hextet → List Char) : List Char :=
  [':'].intercalate (side write t.head t.headQuads) ++
    match t.tail with
    | none => []
    | some tail => ':' :: ':' :: [':'].intercalate (side write tail t.quad.toList)

theorem text_eq : t.text = t.join Hextet.text := by
  unfold text join side headQuads
  cases t.tail with
  | none => rw [if_pos rfl, List.append_nil]
  | some tail =>
    rw [if_neg (Option.some_ne_none tail), List.map_nil, List.append_nil]

theorem lower_text : t.text.map Char.toLower = t.join Hextet.lowered := by
  rw [text_eq, join, join, List.map_append, map_join (by rfl), lower_side]
  congr 1
  cases t.tail with
  | none => rfl
  | some tail => exact congrArg (':' :: ':' :: ·) ((map_join (by rfl)).trans (by rw [lower_side]))

theorem zone_notMem_text : '%' ∉ t.text := by
  have hside : ∀ gs qs, '%' ∉ [':'].intercalate (side Hextet.text gs qs) := by
    intro gs qs h
    rcases mem_join h with h | ⟨cs, hcs, h⟩
    · cases h
    · exact (isGroup_side Hextet.isGroup cs hcs).zone h
  rw [text_eq, join]
  intro h
  rcases List.mem_append.mp h with h | h
  · exact hside _ _ h
  · cases htail : t.tail with
    | none =>
      rw [htail] at h
      exact List.not_mem_nil h
    | some tail =>
      rw [htail] at h
      rcases List.mem_cons.mp h with h | h
      · cases h
      · rcases List.mem_cons.mp h with h | h
        · cases h
        · exact hside _ _ h

theorem colon_mem_text : ':' ∈ t.text := by
  have hfits := t.fits
  rw [text_eq, join]
  cases htail : t.tail with
  | some tail => exact List.mem_append_right _ List.mem_cons_self
  | none =>
    rw [htail] at hfits
    have hquad := t.quad.length_toList_le
    apply List.mem_append_left _
    match hhead : t.head with
    | [] | [_] => simp [hhead] at hfits; omega
    | g :: g' :: gs =>
      rw [side, List.map_cons, List.map_cons, List.cons_append, List.cons_append,
        List.intercalate_cons_cons]
      exact List.mem_append_left _ (List.mem_append_right _ (List.mem_singleton_self _))

theorem length_written : t.written.length = 4 := by
  have hfits := t.fits
  have hquad := t.quad.length_toList_le
  rw [written, List.length_take, List.length_append, List.length_append, List.length_replicate]
  cases htail : t.tail with
  | none =>
    rw [htail] at hfits
    simp only [Option.getD_none, List.length_nil] at hfits ⊢
    omega
  | some tail =>
    rw [htail] at hfits
    simp only [Option.getD_some] at hfits ⊢
    omega

/-- What is filled up with zeros begins as `written` does. -/
theorem take_fill (tail : List Hextet) (n : ℕ) (qs qs' : List Quad)
    (hhead : qs = [] ∨ 4 ≤ t.head.length) (hlen : 4 ≤ t.head.length + n + tail.length) :
    ((side Hextet.lowered t.head qs ++ List.replicate n ['0'] ++ side Hextet.lowered tail qs').take 4) =
      ((t.head ++ List.replicate n Hextet.zero ++ tail).take 4).map Hextet.lowered := by
  rcases hhead with rfl | hhead
  · have hsplit : side Hextet.lowered t.head [] ++ List.replicate n ['0'] ++ side Hextet.lowered tail qs' =
        (t.head ++ List.replicate n Hextet.zero ++ tail).map Hextet.lowered ++ qs'.map Quad.text := by
      simp only [side, List.map_append, List.map_replicate, Hextet.lowered_zero, List.map_nil,
        List.append_nil, List.append_assoc]
    rw [hsplit, List.map_take, List.take_append_of_le_length]
    rw [List.length_map, List.length_append, List.length_append, List.length_replicate]
    exact hlen
  · rw [side, List.append_assoc, List.append_assoc, List.append_assoc, List.map_take,
      List.map_append, List.take_append_of_le_length, List.take_append_of_le_length]
    · rwa [List.length_map]
    · rwa [List.length_map]

theorem ipBucket_text : ipBucket (.ofList t.text) =
    .ofList ([':'].intercalate (t.written.map Hextet.lowered) ++ "::/64".toList) := by
  have hfits := t.fits
  have hquad := t.quad.length_toList_le
  have hside : ∀ gs qs, ∀ cs ∈ side Hextet.lowered gs qs, IsGroup cs :=
    fun _ _ => isGroup_side Hextet.isGroup_lowered
  have hzone : t.text.takeWhile (· ≠ '%') = t.text :=
    List.takeWhile_eq_self_iff.mpr fun c hc => decide_eq_true fun h => t.zone_notMem_text (h ▸ hc)
  have hcut : ∀ gs qs, cutPair ([':'].intercalate (side Hextet.lowered gs qs)) =
      ([':'].intercalate (side Hextet.lowered gs qs), none) := by
    intro gs qs
    have hjoin : cutPair ([':'].intercalate (side Hextet.lowered gs qs) ++ []) = _ := cutPair_join (hside gs qs)
    rwa [List.append_nil, cutPair, List.append_nil] at hjoin
  have hlen : ∀ gs qs, (side Hextet.lowered gs qs).length = gs.length + qs.length := by
    intro gs qs
    rw [side, List.length_append, List.length_map, List.length_map]
  unfold ipBucket
  rw [String.toList_ofList, if_neg (not_not.mpr t.colon_mem_text), hzone, lower_text, join]
  cases htail : t.tail with
  | none =>
    rw [htail] at hfits
    rw [headQuads, if_pos htail, List.append_nil, hcut]
    simp only [Option.map_none, Option.getD_none]
    rw [groupsOf_join (hside _ _), show groupsOf [] = side Hextet.lowered [] [] from rfl, fill, hlen,
      hlen, take_fill, written, htail]
    · simp only [Option.getD_none, List.length_nil, Nat.add_zero, Nat.zero_add, Nat.sub_sub]
    · exact .inr (by omega)
    · simp only [List.length_nil]
      omega
  | some tail =>
    rw [htail] at hfits
    rw [headQuads, if_neg (htail ▸ Option.some_ne_none tail), cutPair_join (hside _ _), cutPair_pair]
    simp only [Option.map_some, Option.getD_some]
    rw [hcut, List.append_nil, groupsOf_join (hside _ _), groupsOf_join (hside _ _), fill, hlen, hlen,
      take_fill, written, htail]
    · simp only [Option.getD_some, List.length_nil, Nat.add_zero]
    · exact .inl rfl
    · simp only [List.length_nil] at hfits ⊢
      omega

end V6Text

/-! ## Who shares a bucket -/

theorem Hextet.lowered_eq_iff {g g' : Hextet} :
    g.lowered = g'.lowered ↔ (g.value, g.width) = (g'.value, g'.width) := by
  have hlt : ∀ g : Hextet, ∀ d ∈ g.digits.map fun d => d.value.val, d < 16 := by
    intro g d hd
    obtain ⟨e, -, rfl⟩ := List.mem_map.mp hd
    exact e.value.isLt
  have hlowered : g.lowered = g'.lowered ↔
      (g.digits.map fun d => d.value.val) = g'.digits.map fun d => d.value.val := by
    have hchars : Function.Injective lowerChar := fun v w => lowerChar_inj v w
    have hvals : Function.Injective (Fin.val (n := 16)) := Fin.val_injective
    have hleft := (List.map_injective_iff.mpr hchars).eq_iff (a := g.digits.map Digit.value)
      (b := g'.digits.map Digit.value)
    have hright := (List.map_injective_iff.mpr hvals).eq_iff (a := g.digits.map Digit.value)
      (b := g'.digits.map Digit.value)
    simp only [List.map_map] at hleft hright
    exact hleft.trans hright.symm
  rw [hlowered, Prod.mk.injEq]
  have hwidth : ∀ g : Hextet, (g.digits.map fun d => d.value.val).length = g.width :=
    fun _ => List.length_map _
  constructor
  · intro h
    exact ⟨congrArg (ofDigits 16) h, by rw [← hwidth, ← hwidth, h]⟩
  · rintro ⟨hvalue, hlen⟩
    exact ofDigits_inj (hlt g) (hlt g') (by rw [hwidth, hwidth, hlen]) hvalue

theorem map_eq_map_iff {α β γ : Type*} {f : α → β} {f' : α → γ} (h : ∀ a b, f a = f b ↔ f' a = f' b)
    {as bs : List α} : as.map f = bs.map f ↔ as.map f' = bs.map f' := by
  induction as generalizing bs with
  | nil => simp only [List.map_nil, List.nil_eq, List.map_eq_nil_iff]
  | cons a as ih =>
    cases bs with
    | nil => simp only [List.map_cons, List.map_nil, reduceCtorEq]
    | cons b bs => rw [List.map_cons, List.map_cons, List.map_cons, List.map_cons, List.cons.injEq,
        List.cons.injEq, h, ih]

/-- A quad has no colon, and is counted as it is written. -/
theorem ipBucket_quad (q : Quad) : ipBucket (.ofList q.text) = .ofList q.text := by
  rw [ipBucket, String.toList_ofList, if_pos q.isGroup.colon]

theorem bucket_v6_iff (t t' : V6Text) :
    ipBucket (.ofList t.text) = ipBucket (.ofList t'.text) ↔ SameDigits t t' := by
  have hgroup : ∀ t : V6Text, ∀ cs ∈ t.written.map Hextet.lowered, ':' ∉ cs := by
    intro t cs hcs
    obtain ⟨g, -, rfl⟩ := List.mem_map.mp hcs
    exact g.isGroup_lowered.colon
  have hne : ∀ t : V6Text, t.written.map Hextet.lowered ≠ [] := by
    intro t h
    have hlen := t.length_written
    rw [List.map_eq_nil_iff.mp h] at hlen
    cases hlen
  rw [V6Text.ipBucket_text, V6Text.ipBucket_text, String.ofList_inj, List.append_left_inj, SameDigits,
    ← map_eq_map_iff fun _ _ => Hextet.lowered_eq_iff]
  exact ⟨join_inj (hgroup t) (hgroup t') (hne t) (hne t'), congrArg _⟩

theorem bucket_quad_ne (q : Quad) (t : V6Text) : ipBucket (.ofList q.text) ≠ ipBucket (.ofList t.text) := by
  rw [ipBucket_quad, V6Text.ipBucket_text, Ne, String.ofList_inj]
  intro h
  have hcolon : ':' ∉ q.text := q.isGroup.colon
  rw [h] at hcolon
  exact hcolon (List.mem_append_right _ List.mem_cons_self)

/-! ## Plain texts -/

/-- One more in front is one of them again. -/
theorem take_cons_eq_take_iff {α : Type*} {a : α} {as : List α} {n : ℕ} (hn : n ≤ as.length) :
    (a :: as).take n = as.take n ↔ ∀ b ∈ as.take n, b = a := by
  induction n generalizing a as with
  | zero => simp only [List.take_zero, List.not_mem_nil, false_imp_iff, implies_true]
  | succ n ih =>
    cases as with
    | nil => cases hn
    | cons b as =>
      rw [List.take_succ_cons, List.take_succ_cons, List.cons.injEq, ih (Nat.le_of_succ_le_succ hn),
        List.forall_mem_cons]
      constructor
      · rintro ⟨rfl, h⟩
        exact ⟨rfl, h⟩
      · rintro ⟨rfl, h⟩
        exact ⟨rfl, h⟩

theorem Hextet.value_lt (g : Hextet) : g.value < 16 ^ g.width := by
  have hlt : ∀ d ∈ g.digits.map fun d => d.value.val, d < 16 := by
    intro d hd
    obtain ⟨e, -, rfl⟩ := List.mem_map.mp hd
    exact e.value.isLt
  have hvalue := ofDigits_lt hlt
  rwa [List.length_map] at hvalue

/-- Without zeros in front, the number says how many digits there are. -/
theorem Hextet.width_of_value {g g' : Hextet} (hshort : g.width = 1 ∨ 16 ^ (g.width - 1) ≤ g.value)
    (hlt : g'.value < 16 ^ g'.width) (hvalue : g.value = g'.value) : g.width ≤ g'.width := by
  have hpos : 0 < g'.width := List.length_pos_iff.mpr g'.nonempty
  rcases hshort with hone | hshort
  · omega
  · by_contra hwidth
    have hpow : 16 ^ g'.width ≤ 16 ^ (g.width - 1) := Nat.pow_le_pow_right (by decide) (by omega)
    omega

/-- The number of sixteen bits without zeros in front. -/
def Hextet.ofNat (n : ℕ) (h : n < 65536) : Hextet where
  digits := (numeral 16 n).map fun d => ⟨.ofNat 16 d, false⟩
  nonempty hnil := numeral_ne_nil (List.map_eq_nil_iff.mp hnil)
  short := (List.length_map _).trans_le (length_numeral_le (by decide) h)

section

variable {n : ℕ} {h : n < 65536}

theorem Hextet.value_ofNat : (Hextet.ofNat n h).value = n := by
  have hdigits : (numeral 16 n).map (fun d => (Fin.ofNat 16 d).val) = numeral 16 n := by
    refine (List.map_congr_left fun d hd => ?_).trans (List.map_id _)
    exact Nat.mod_eq_of_lt (lt_of_mem_numeral (by decide) hd)
  rw [value, ofNat, List.map_map]
  exact (congrArg (ofDigits 16) hdigits).trans (ofDigits_numeral (by decide))

theorem Hextet.short_ofNat : (Hextet.ofNat n h).width = 1 ∨
    16 ^ ((Hextet.ofNat n h).width - 1) ≤ (Hextet.ofNat n h).value := by
  have hwidth : (Hextet.ofNat n h).width = (numeral 16 n).length := List.length_map _
  have hpos : 0 < (numeral 16 n).length := List.length_pos_iff.mpr numeral_ne_nil
  rw [value_ofNat, hwidth]
  by_contra hlong
  obtain ⟨hone, hlt⟩ := not_or.mp hlong
  have hlen : (numeral 16 n).length ≤ (numeral 16 n).length - 1 :=
    length_numeral_le (by omega) (not_le.mp hlt)
  omega

end

namespace V6Text

variable {t t' : V6Text}

theorem length_groups : t.groups.length = 8 := by
  have hfits := t.fits
  have hquad : ∀ q : Quad, q.groups.length = 2 := fun _ => rfl
  rw [groups, List.length_append, List.length_append, List.length_replicate, List.length_append,
    List.length_map, List.length_map]
  cases htail : t.tail with
  | none =>
    rw [htail] at hfits
    cases hq : t.quad with
    | none =>
      rw [hq] at hfits
      simp only [Option.getD_none, Option.toList_none, List.length_nil, List.flatMap_nil] at hfits ⊢
      omega
    | some q =>
      rw [hq] at hfits
      simp only [Option.getD_none, Option.toList_some, List.length_cons, List.length_nil,
        List.flatMap_cons, List.flatMap_nil, List.append_nil, hquad] at hfits ⊢
      omega
  | some tail =>
    rw [htail] at hfits
    cases hq : t.quad with
    | none =>
      rw [hq] at hfits
      simp only [Option.getD_some, Option.toList_none, List.length_nil, List.flatMap_nil] at hfits ⊢
      omega
    | some q =>
      rw [hq] at hfits
      simp only [Option.getD_some, Option.toList_some, List.length_cons, List.length_nil,
        List.flatMap_cons, List.flatMap_nil, List.append_nil, hquad] at hfits ⊢
      omega

theorem groups_lt : ∀ n ∈ t.groups, n < 65536 := by
  have hvalue : ∀ g : Hextet, g.value < 65536 := fun g =>
    g.value_lt.trans_le (Nat.pow_le_pow_right (n := 16) (by decide) g.short)
  intro n hn
  rcases List.mem_append.mp hn with hn | hn
  · rcases List.mem_append.mp hn with hn | hn
    · obtain ⟨g, -, rfl⟩ := List.mem_map.mp hn
      exact hvalue g
    · rw [List.eq_of_mem_replicate hn]
      decide
  · rcases List.mem_append.mp hn with hn | hn
    · obtain ⟨g, -, rfl⟩ := List.mem_map.mp hn
      exact hvalue g
    · obtain ⟨q, -, hq⟩ := List.mem_flatMap.mp hn
      have ha := q.a.isLt
      have hb := q.b.isLt
      have hc := q.c.isLt
      have hd := q.d.isLt
      rcases List.mem_pair.mp hq with rfl | rfl <;> omega

/-- A quad behind a run counts for one group, so what follows the run may come one group late. -/
theorem written_value_iff : t.written.map Hextet.value = t.groups.take 4 ↔
    (t.quad ≠ none → ∀ g ∈ (t.tail.getD []).take ((t.tail.getD []).length - 2), g.value = 0) := by
  have hfits := t.fits
  have hzero : Hextet.zero.value = 0 := rfl
  rw [written, groups, List.map_take, List.map_append, List.map_append, List.map_replicate, hzero]
  cases hquad : t.quad with
  | none => simp only [Option.toList_none, List.flatMap_nil, List.append_nil, List.length_map,
      List.length_nil, Nat.add_zero, ne_eq, not_true_eq_false, false_imp_iff]
  | some q =>
    rw [hquad] at hfits
    cases htail : t.tail with
    | none =>
      rw [htail] at hfits
      change t.head.length + 2 * 1 = 8 at hfits
      have hlen : 4 ≤ (t.head.map Hextet.value).length := by
        rw [List.length_map]
        omega
      simp only [Option.getD_none, List.take_nil, List.not_mem_nil, false_imp_iff, implies_true, iff_true]
      rw [List.append_assoc, List.append_assoc, List.take_append_of_le_length hlen,
        List.take_append_of_le_length hlen]
    | some tail =>
      rw [htail] at hfits
      change t.head.length + tail.length + 2 * 1 ≤ 7 at hfits
      have hgroups : (q.groups).length = 2 := rfl
      simp only [Option.getD_some, Option.toList_some, List.flatMap_cons, List.flatMap_nil,
        List.append_nil, List.length_append, List.length_map, List.length_cons, List.length_nil,
        hgroups, ne_eq, reduceCtorEq, not_false_eq_true, true_imp_iff]
      -- Both have the head and the zeros that are left out in front.
      have hrun : 8 - t.head.length - (tail.length + (0 + 1)) = 6 - t.head.length - tail.length + 1 := by omega
      have hrun' : 8 - t.head.length - (tail.length + 2) = 6 - t.head.length - tail.length := by omega
      rw [hrun, hrun', List.replicate_succ', ← List.append_assoc, List.append_assoc _ [0]]
      have hfront : (t.head.map Hextet.value ++ List.replicate (6 - t.head.length - tail.length) 0).length =
          6 - tail.length := by
        rw [List.length_append, List.length_map, List.length_replicate]
        omega
      generalize t.head.map Hextet.value ++ List.replicate (6 - t.head.length - tail.length) 0 = front at hfront ⊢
      rw [List.singleton_append, List.take_append, List.take_append, List.append_right_inj, hfront]
      have hrest : 4 - (6 - tail.length) = tail.length - 2 := by omega
      have hle : tail.length - 2 ≤ (tail.map Hextet.value).length := by
        rw [List.length_map]
        omega
      rw [hrest, List.take_append_of_le_length hle, take_cons_eq_take_iff hle, ← List.map_take,
        List.forall_mem_map]

theorem client_of_own (h : t.groups.take 6 ≠ [0, 0, 0, 0, 0, 65535]) :
    t.client = .network (t.groups.take 4) := if_neg h

theorem Plain.sameDigits_iff (h : t.Plain) (h' : t'.Plain) : SameDigits t t' ↔ t.client = t'.client := by
  rw [client_of_own h.own, client_of_own h'.own, Client.network.injEq, ← written_value_iff.mpr h.run,
    ← written_value_iff.mpr h'.run]
  have hshort := h.short
  have hshort' := h'.short
  unfold SameDigits
  generalize t.written = gs at *
  generalize t'.written = gs' at *
  induction gs generalizing gs' with
  | nil => simp only [List.map_nil, List.nil_eq, List.map_eq_nil_iff]
  | cons g gs ih =>
    cases gs' with
    | nil => simp only [List.map_cons, List.map_nil, reduceCtorEq]
    | cons g' gs' =>
      have ih := ih (fun g hg => hshort g (List.mem_cons_of_mem _ hg)) gs'
        fun g hg => hshort' g (List.mem_cons_of_mem _ hg)
      have hhead : g.value = g'.value → g.width = g'.width := by
        intro hvalue
        have hle := Hextet.width_of_value (hshort g List.mem_cons_self) g'.value_lt hvalue
        have hge := Hextet.width_of_value (hshort' g' List.mem_cons_self) g.value_lt hvalue.symm
        omega
      simp only [List.map_cons, List.cons.injEq, Prod.mk.injEq, ih]
      exact and_congr_left fun _ => and_iff_left_iff_imp.mpr hhead

/-- The eight groups without zeros in front. -/
def usual (t : V6Text) : V6Text where
  head := t.groups.attach.map fun n => .ofNat n.val (groups_lt n.val n.property)
  tail := none
  quad := none
  fits := by rw [List.length_map, List.length_attach, length_groups]; rfl

theorem groups_usual : t.usual.groups = t.groups := by
  have hvalues : t.usual.head.map Hextet.value = t.groups := by
    rw [usual, List.map_map]
    exact (List.map_congr_left fun n _ => Hextet.value_ofNat).trans (List.attach_map_subtype_val _)
  have hlen : t.usual.head.length = 8 := by
    rw [← List.length_map Hextet.value, hvalues, length_groups]
  rw [groups, hvalues, hlen]
  exact (List.append_nil _).trans (List.append_nil _)

theorem client_usual : t.usual.client = t.client := by
  rw [client, groups_usual, client]

theorem plain_usual (h : t.groups.take 6 ≠ [0, 0, 0, 0, 0, 65535]) : t.usual.Plain where
  own := by rwa [groups_usual]
  short g hg := by
    have hmem : g ∈ t.usual.head := by
      have hlen : t.usual.head.length = 8 := by
        rw [usual, List.length_map, List.length_attach, length_groups]
      rw [written, hlen] at hg
      simpa [usual] using List.mem_of_mem_take hg
    obtain ⟨n, -, rfl⟩ := List.mem_map.mp hmem
    exact Hextet.short_ofNat
  run hquad := absurd rfl hquad

/-- A text that has the digits of a plain one with its groups is plain. -/
theorem plain_of_sameDigits (h : SameDigits t t') (h' : t'.Plain) (hgroups : t'.groups = t.groups) :
    t.Plain where
  own := by
    rw [← hgroups]
    exact h'.own
  short g hg := by
    have hmem : (g.value, g.width) ∈ t.written.map fun g => (g.value, g.width) :=
      List.mem_map_of_mem hg
    rw [h] at hmem
    obtain ⟨g', hg', heq⟩ := List.mem_map.mp hmem
    obtain ⟨hvalue, hwidth⟩ := Prod.mk.inj heq
    rw [← hvalue, ← hwidth]
    exact h'.short g' hg'
  run := by
    have hvalues : t.written.map Hextet.value = t'.written.map Hextet.value := by
      have hfst := congrArg (List.map Prod.fst) h
      rwa [List.map_map, List.map_map] at hfst
    rw [← written_value_iff, hvalues, written_value_iff.mpr h'.run, hgroups]

end V6Text

/-! ## Which texts are told apart as their clients are -/

theorem bucket_right {s s' : AddressText} (h : s.Plain) (h' : s'.Plain) :
    ipBucket s.text = ipBucket s'.text ↔ s.client = s'.client := by
  match s, s' with
  | .v4 q, .v4 q' =>
    simp only [AddressText.text, AddressText.client, ipBucket_quad, String.ofList_inj, Client.v4.injEq]
    exact ⟨Quad.text_inj, congrArg _⟩
  | .v4 q, .v6 t' =>
    apply iff_of_false (bucket_quad_ne q t')
    rw [AddressText.client, AddressText.client, V6Text.client_of_own h'.own]
    nofun
  | .v6 t, .v4 q' =>
    apply iff_of_false (bucket_quad_ne q' t).symm
    rw [AddressText.client, AddressText.client, V6Text.client_of_own h.own]
    nofun
  | .v6 t, .v6 t' => exact (bucket_v6_iff t t').trans (V6Text.Plain.sameDigits_iff h h')

/-- **Which notations are right.** A text is told apart from those in plain notation, its own address's
among them, as its client is from theirs exactly where it is in plain notation too. -/
theorem bucket_right_iff (s : AddressText) :
    (∀ s' : AddressText, s'.Plain → (ipBucket s.text = ipBucket s'.text ↔ s.client = s'.client)) ↔ s.Plain := by
  refine ⟨fun hright => ?_, fun h s' h' => bucket_right h h'⟩
  cases s with
  | v4 q => trivial
  | v6 t =>
    have hown : t.groups.take 6 ≠ [0, 0, 0, 0, 0, 65535] := by
      intro hmapped
      have hbucket := (hright (.v4 _) trivial).mpr (if_pos hmapped)
      exact bucket_quad_ne _ t hbucket.symm
    have hplain := V6Text.plain_usual hown
    have hsame := (hright (.v6 t.usual) hplain).mpr V6Text.client_usual.symm
    exact V6Text.plain_of_sameDigits ((bucket_v6_iff t t.usual).mp hsame) hplain V6Text.groups_usual

/-! ## Texts that are not told apart as their clients are -/

namespace Demo

def hextet (ds : List (Fin 16)) (h : ds ≠ [] ∧ ds.length ≤ 4) : Hextet where
  digits := ds.map fun d => ⟨d, false⟩
  nonempty hnil := h.1 (List.map_eq_nil_iff.mp hnil)
  short := (List.length_map _).trans_le h.2

/-- Two groups, then a run that is left out, and a group. -/
def network (ds : List (Fin 16)) (h : ds ≠ [] ∧ ds.length ≤ 4) : AddressText :=
  .v6 ⟨[hextet [2, 0, 0, 1] (by decide), hextet ds h], some [hextet [1] (by decide)], none,
    Nat.le_of_ble_eq_true rfl⟩

/-- The address of version 6 that a quad is mapped to. -/
def mapped (q : Quad) : AddressText :=
  .v6 ⟨[], some [hextet [15, 15, 15, 15] (by decide)], some q, Nat.le_of_ble_eq_true rfl⟩

end Demo

/-- A zero in front makes a second bucket, and every mapped address of version 4 has one bucket. -/
theorem buckets_by_notation :
    (∃ s s' : AddressText, s.text = "2001:db8::1" ∧ s'.text = "2001:0db8::1" ∧
      s.client = s'.client ∧ ipBucket s.text ≠ ipBucket s'.text) ∧
    ∃ s s' : AddressText, s.text = "::ffff:203.0.113.9" ∧ s'.text = "::ffff:198.51.100.7" ∧
      s.client ≠ s'.client ∧ ipBucket s.text = ipBucket s'.text :=
  ⟨⟨Demo.network [13, 11, 8] (by decide), Demo.network [0, 13, 11, 8] (by decide), by decide +kernel⟩,
    ⟨Demo.mapped ⟨203, 0, 113, 9⟩, Demo.mapped ⟨198, 51, 100, 7⟩, by decide +kernel⟩⟩

end Lumenia.Sponsor.RateLimit

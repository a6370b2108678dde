import Mathlib.Data.List.Induction
import Mathlib.Data.Rat.Lemmas
import Mathlib.Tactic.FieldSimp
import Mathlib.Tactic.Ring
import StagedCalculus.Numeral

/-!
# The grammar of numerals

This module says which texts are numerals and which number each of them writes, by rules on
sequences of characters, and shows that reading a text follows these rules with one exception.

* `Natural`, `Integer`, `Whole` and `Denotes` are the grammar. The part of a decimal in front of the
  point may be empty, a sign, or an integer; its sign is the sign of the number, also in front of a
  point that no digit precedes.
* `Oversigned` is the exception: a decimal that starts with several signs is read as if only the
  first of them stood there. No integer and no fraction is read in this way.
* `read_spec`: the texts that are read are those of the grammar and the exception, each with its
  number, and every other text is refused with one error, which quotes it.
-/

namespace StagedCalculus.Numeral

/-! ## Rules -/

/-- A natural number: a digit, then digits and underscores. Underscores have no value. -/
inductive Natural : List Char → Nat → Prop where
  | digit {c : Char} (hc : Digits.isDigit c) : Natural [c] (Digits.digitValue c)
  | snoc {cs : List Char} {n : Nat} {c : Char} (h : Natural cs n) (hc : Digits.isDigit c) :
      Natural (cs ++ [c]) (n * 10 + Digits.digitValue c)
  | underscore {cs : List Char} {n : Nat} (h : Natural cs n) : Natural (cs ++ ['_']) n

/-- An integer: a natural number with at most one sign in front of it. -/
inductive Integer : List Char → Int → Prop where
  | unsigned {cs : List Char} {n : Nat} (h : Natural cs n) : Integer cs n
  | positive {cs : List Char} {n : Nat} (h : Natural cs n) : Integer ('+' :: cs) n
  | negative {cs : List Char} {n : Nat} (h : Natural cs n) : Integer ('-' :: cs) (-n)

/-- What may stand in front of a decimal point: nothing, a sign, or an integer. -/
inductive Whole : List Char → Int → Prop where
  | empty : Whole [] 0
  | sign {c : Char} (hc : isSign c) : Whole [c] 0
  | integer {cs : List Char} {i : Int} (h : Integer cs i) : Whole cs i

/-- The number with the whole part `i` and the fraction `r`, which counts downwards if the text of
the whole part starts with a minus sign. -/
def decimalValue (whole : List Char) (i : Int) (r : Rat) : Rat :=
  if whole.head? = some '-' then i - r else i + r

/-- The digits behind a decimal point write the fraction `r`: their number over a power of ten. -/
def Decimals (cs : List Char) (r : Rat) : Prop :=
  (∀ c ∈ cs, Digits.isDigit c) ∧ ∃ n, Natural cs n ∧ r = n / 10 ^ cs.length

/-- A text without white space at its ends writes a number. -/
inductive Denotes : List Char → Rat → Prop where
  | integer {cs : List Char} {i : Int} (h : Integer cs i) : Denotes cs i
  | fraction {numerator denominator : List Char} {n d : Int} (first : '/' ∉ numerator)
      (hn : Integer (Blank.trim numerator) n) (hd : Integer (Blank.trim denominator) d)
      (nonzero : d ≠ 0) : Denotes (numerator ++ '/' :: denominator) (n / d)
  | decimal {whole decimals : List Char} {i : Int} {r : Rat} (hw : Whole whole i)
      (hd : Decimals decimals r) : Denotes (whole ++ '.' :: decimals) (decimalValue whole i r)

/-- A decimal with more than one sign in front of it, and the number that it would write with the
first of these signs alone. -/
inductive Oversigned : List Char → Rat → Prop where
  | decimal {sign : Char} {signs whole decimals : List Char} {i : Int} {r : Rat} (hs : isSign sign)
      (several : signs ≠ []) (hss : ∀ c ∈ signs, isSign c) (hw : Whole (sign :: whole) i)
      (hd : Decimals decimals r) :
      Oversigned (sign :: signs ++ whole ++ '.' :: decimals) (decimalValue (sign :: whole) i r)

/-! ## Splitting -/

theorem splitAt?_eq_none {sep : Char} {cs : List Char} : splitAt? sep cs = none ↔ sep ∉ cs := by
  induction cs with
  | nil => simp [splitAt?]
  | cons c cs ih =>
    by_cases hc : c = sep
    · simp [splitAt?, hc]
    · simp [splitAt?, hc, ih, Ne.symm hc]

theorem splitAt?_eq_some {sep : Char} {cs left right : List Char} :
    splitAt? sep cs = some (left, right) ↔ cs = left ++ sep :: right ∧ sep ∉ left := by
  induction cs generalizing left with
  | nil => simp [splitAt?]
  | cons c cs ih =>
    by_cases hc : c = sep
    · cases left with
      | nil => simp [splitAt?, hc]
      | cons l left => grind [splitAt?]
    · cases left with
      | nil => simp [splitAt?, hc]
      | cons l left =>
        have hcons : splitAt? sep (c :: cs) = some (l :: left, right) ↔
            splitAt? sep cs = some (left, right) ∧ c = l := by
          simp only [splitAt?, if_neg hc, Option.map_eq_some_iff, Prod.exists, Prod.mk.injEq,
            List.cons.injEq]
          grind
        rw [hcons, ih, List.cons_append, List.cons.injEq, List.mem_cons]
        grind

/-! ## Natural numbers -/

theorem value_concat (cs : List Char) (c : Char) :
    Digits.value (cs ++ [c]) = Digits.value cs * 10 + Digits.digitValue c := by
  simp [Digits.value]

theorem ne_underscore {c : Char} (hc : Digits.isDigit c) : c ≠ '_' := by
  rintro rfl
  exact absurd hc (by decide)

theorem readNatural_singleton (c : Char) :
    readNatural [c] = if Digits.isDigit c then some (Digits.digitValue c) else none := by
  by_cases hc : c = '_'
  · subst hc
    rfl
  · simp [readNatural, Digits.read?, Digits.value, hc]

/-- The last character of a natural number is an underscore or one more digit. -/
theorem readNatural_concat {cs : List Char} (hne : cs ≠ []) (c : Char) :
    readNatural (cs ++ [c]) =
      if c = '_' then readNatural cs
      else if Digits.isDigit c then (readNatural cs).map (· * 10 + Digits.digitValue c)
      else none := by
  obtain ⟨a, as, rfl⟩ := List.exists_cons_of_ne_nil hne
  by_cases ha : a = '_'
  · simp [readNatural, ha]
  by_cases hc : c = '_'
  · simp [readNatural, ha, hc, List.filter_append]
  have hfilter : (as ++ [c]).filter (· ≠ '_') = as.filter (· ≠ '_') ++ [c] := by
    simp [List.filter_append, hc]
  simp only [readNatural, List.cons_append, if_neg ha, if_neg hc, hfilter]
  simp only [Digits.read?, ← List.cons_append, List.all_append, value_concat]
  cases hd : Digits.isDigit c <;> cases hall : (a :: as.filter (· ≠ '_')).all Digits.isDigit <;>
    simp_all

theorem Natural.ne_nil {cs : List Char} {n : Nat} (h : Natural cs n) : cs ≠ [] := by
  cases h <;> simp

theorem readNatural_eq_some {cs : List Char} {n : Nat} :
    readNatural cs = some n ↔ Natural cs n := by
  constructor
  · intro h
    induction cs using List.reverseRecOn generalizing n with
    | nil => simp [readNatural] at h
    | append_singleton cs c ih =>
      by_cases hne : cs = []
      · subst hne
        rw [List.nil_append, readNatural_singleton] at h
        grind [Natural]
      · rw [readNatural_concat hne] at h
        split_ifs at h with hu hd
        · exact hu ▸ .underscore (ih h)
        · obtain ⟨m, hm, rfl⟩ := Option.map_eq_some_iff.1 h
          exact .snoc (ih hm) hd
  · intro h
    induction h with
    | digit hc => rw [readNatural_singleton, if_pos hc]
    | snoc h hc ih =>
      rw [readNatural_concat h.ne_nil, if_neg (ne_underscore hc), if_pos hc, ih, Option.map_some]
    | underscore h ih => rw [readNatural_concat h.ne_nil, if_pos rfl, ih]

/-- Digits behind a natural number make it longer: it is multiplied by a power of ten, and the
digits count as the number that they write. -/
theorem readNatural_append {cs ds : List Char} (hne : cs ≠ []) (hds : ∀ c ∈ ds, Digits.isDigit c) :
    readNatural (cs ++ ds) =
      (readNatural cs).map fun n => n * 10 ^ ds.length + Digits.value ds := by
  induction ds using List.reverseRecOn with
  | nil => simp [Digits.value]
  | append_singleton ds d ih =>
    have hd : Digits.isDigit d := hds d (by simp)
    rw [← List.append_assoc, readNatural_concat (by simp [hne]), if_neg (ne_underscore hd),
      if_pos hd, ih fun c hc => hds c (by simp [hc]), Option.map_map, value_concat,
      List.length_append, List.length_singleton]
    congr 1
    funext n
    simp only [Function.comp_apply]
    ring

theorem readNatural_digits {ds : List Char} (hne : ds ≠ []) (hds : ∀ c ∈ ds, Digits.isDigit c) :
    readNatural ds = some (Digits.value ds) := by
  induction ds using List.reverseRecOn with
  | nil => exact absurd rfl hne
  | append_singleton ds d ih =>
    have hd : Digits.isDigit d := hds d (by simp)
    by_cases hnil : ds = []
    · subst hnil
      rw [List.nil_append, readNatural_singleton, if_pos hd]
      simp [Digits.value]
    · rw [readNatural_concat hnil, if_neg (ne_underscore hd), if_pos hd,
        ih hnil fun c hc => hds c (by simp [hc]), Option.map_some, value_concat]

/-- The first character of a natural number is a digit. -/
theorem Natural.isDigit_head {c : Char} {cs : List Char} {n : Nat} (h : Natural (c :: cs) n) :
    Digits.isDigit c := by
  have hread := readNatural_eq_some.2 h
  by_contra hc
  by_cases hu : c = '_' <;> simp [readNatural, Digits.read?, hu, hc] at hread

theorem not_isDigit_of_isSign {c : Char} (h : isSign c) : ¬ Digits.isDigit c := by
  simp only [isSign, Bool.or_eq_true, decide_eq_true_eq] at h
  rcases h with rfl | rfl <;> decide

/-! ## Integers -/

/-- A number that was read counts as a number of a larger kind. -/
theorem bind_cast_eq_some {α β : Type} {cast : α → β} {o : Option α} {b : β} :
    (o >>= fun a => pure (cast a)) = some b ↔ ∃ a, o = some a ∧ b = cast a := by
  cases o <;> simp [eq_comm]

theorem readInteger_eq_some {cs : List Char} {i : Int} :
    readInteger cs = some i ↔ Integer cs i := by
  constructor
  · intro h
    unfold readInteger at h
    split at h
    all_goals
      obtain ⟨_, hread, rfl⟩ := Option.map_eq_some_iff.1 h
      obtain ⟨n, hn, rfl⟩ := bind_cast_eq_some.1 hread
      have hn := readNatural_eq_some.1 hn
    · exact .negative hn
    · exact .positive hn
    · exact .unsigned hn
  · intro h
    cases h with
    | positive h => simp [readInteger, readNatural_eq_some.2 h]
    | negative h => simp [readInteger, readNatural_eq_some.2 h]
    | @unsigned _ n h =>
      unfold readInteger
      split
      · exact absurd h.isDigit_head (by decide)
      · exact absurd h.isDigit_head (by decide)
      · simp [readNatural_eq_some.2 h]

/-! ## Fractions -/

theorem readFraction_eq_some {numerator denominator : List Char} {q : Rat} :
    readFraction numerator denominator = some q ↔
      ∃ n d, Integer (Blank.trim numerator) n ∧ Integer (Blank.trim denominator) d ∧ d ≠ 0 ∧
        q = n / d := by
  unfold readFraction
  constructor
  · intro h
    split at h
    · rename_i n d hn hd
      have hd0 : d ≠ 0 := fun he => by simp [he] at h
      rw [if_neg hd0, Option.some.injEq] at h
      exact ⟨n, d, readInteger_eq_some.1 hn, readInteger_eq_some.1 hd, hd0,
        by rw [← h, Rat.divInt_eq_div]⟩
    · cases h
  · rintro ⟨n, d, hn, hd, hd0, rfl⟩
    simp [readInteger_eq_some.2 hn, readInteger_eq_some.2 hd, hd0, Rat.divInt_eq_div]

/-! ## Decimals -/

theorem decimals_iff {ds : List Char} {r : Rat} :
    Decimals ds r ↔
      ds ≠ [] ∧ (∀ c ∈ ds, Digits.isDigit c) ∧ r = Digits.value ds / 10 ^ ds.length := by
  constructor
  · rintro ⟨hds, n, hn, rfl⟩
    have hread := readNatural_digits hn.ne_nil hds
    rw [readNatural_eq_some.2 hn, Option.some.injEq] at hread
    exact ⟨hn.ne_nil, hds, by rw [hread]⟩
  · rintro ⟨hne, hds, rfl⟩
    exact ⟨hds, _, readNatural_eq_some.1 (readNatural_digits hne hds), rfl⟩

/-- The part in front of a decimal point, after its signs: nothing, or a natural number. -/
inductive Unsigned : List Char → Nat → Prop where
  | empty : Unsigned [] 0
  | natural {cs : List Char} {n : Nat} (h : Natural cs n) : Unsigned cs n

theorem Unsigned.dropWhile_isSign {cs : List Char} {n : Nat} (h : Unsigned cs n) :
    cs.dropWhile isSign = cs := by
  cases h with
  | empty => rfl
  | natural h =>
    obtain ⟨c, cs, rfl⟩ := List.exists_cons_of_ne_nil h.ne_nil
    exact List.dropWhile_cons_of_neg fun hs => not_isDigit_of_isSign hs h.isDigit_head

/-- The number that is written by signs and a number without a sign: the first sign counts. -/
def signedValue (cs : List Char) (q : Rat) : Rat :=
  if cs.head? = some '-' then -q else q

theorem divInt_pow (i : Int) (l : Nat) : Rat.divInt i (Nat.pow 10 l) = i / 10 ^ l := by
  simp [Rat.divInt_eq_div]

/-- The digits on both sides of a decimal point, read as one natural number. -/
theorem readNatural_around_point {cs ds : List Char} (hne : ds ≠ [])
    (hds : ∀ c ∈ ds, Digits.isDigit c) {m : Nat} :
    readNatural (cs ++ ds) = some m ↔
      ∃ n, Unsigned cs n ∧ m = n * 10 ^ ds.length + Digits.value ds := by
  by_cases hcs : cs = []
  · subst hcs
    rw [List.nil_append, readNatural_digits hne hds, Option.some.injEq]
    constructor
    · rintro rfl
      exact ⟨0, .empty, by omega⟩
    · rintro ⟨n, hn, rfl⟩
      cases hn with
      | empty => omega
      | natural h => exact absurd rfl h.ne_nil
  · rw [readNatural_append hcs hds, Option.map_eq_some_iff]
    constructor
    · rintro ⟨n, hn, rfl⟩
      exact ⟨n, .natural (readNatural_eq_some.1 hn), rfl⟩
    · rintro ⟨n, hn, rfl⟩
      cases hn with
      | empty => exact absurd rfl hcs
      | natural h => exact ⟨n, readNatural_eq_some.2 h, rfl⟩

theorem Unsigned.isDigit_head {c : Char} {cs : List Char} {n : Nat} (h : Unsigned (c :: cs) n) :
    Digits.isDigit c := by
  cases h with
  | natural h => exact h.isDigit_head

theorem Unsigned.head?_ne {cs : List Char} {n : Nat} (h : Unsigned cs n) :
    cs.head? ≠ some '-' := by
  intro hminus
  cases cs with
  | nil => cases hminus
  | cons c cs =>
    obtain rfl : c = '-' := by simpa using hminus
    exact absurd h.isDigit_head (by decide)

/-- Reading a decimal: all signs in front of it are removed, and the first one counts. -/
theorem readDecimal_eq_some {whole ds : List Char} {q : Rat} :
    readDecimal whole ds = some q ↔
      ∃ signs cs n r, whole = signs ++ cs ∧ (∀ c ∈ signs, isSign c) ∧ Unsigned cs n ∧
        Decimals ds r ∧ q = signedValue whole (n + r) := by
  have hvalue (n : Nat) : Rat.divInt
      (if whole.head? = some '-' then -((n * 10 ^ ds.length + Digits.value ds : Nat) : Int)
        else ((n * 10 ^ ds.length + Digits.value ds : Nat) : Int)) (Nat.pow 10 ds.length) =
      signedValue whole (n + Digits.value ds / 10 ^ ds.length) := by
    rw [divInt_pow, signedValue]
    split_ifs <;> push_cast <;> field_simp
  unfold readDecimal
  constructor
  · intro h
    split at h
    · cases h
    rename_i hds
    simp only [Bool.or_eq_true, List.isEmpty_iff, Bool.not_eq_true', not_or, Bool.not_eq_false,
      List.all_eq_true] at hds
    obtain ⟨_, hread, rfl⟩ := Option.map_eq_some_iff.1 h
    obtain ⟨m, hm, rfl⟩ := bind_cast_eq_some.1 hread
    obtain ⟨n, hn, rfl⟩ := (readNatural_around_point hds.1 hds.2).1 hm
    exact ⟨whole.takeWhile isSign, _, n, _, List.takeWhile_append_dropWhile.symm,
      List.all_eq_true.1 List.all_takeWhile, hn, decimals_iff.2 ⟨hds.1, hds.2, rfl⟩, hvalue n⟩
  · rintro ⟨signs, cs, n, r, rfl, hs, hn, hr, rfl⟩
    obtain ⟨hne, hds, rfl⟩ := decimals_iff.1 hr
    have hds' : ¬ (ds.isEmpty || !ds.all Digits.isDigit) = true := by
      simpa [hne] using hds
    have hdrop : (signs ++ cs).dropWhile isSign = cs := by
      rw [List.dropWhile_append_of_pos hs, hn.dropWhile_isSign]
    rw [if_neg hds', hdrop, (readNatural_around_point hne hds).2 ⟨n, hn, rfl⟩]
    exact congrArg some (hvalue n)

/-! ## Signs in front of a decimal -/

/-- A whole part is at most one sign, and a text without a sign behind it. -/
theorem whole_iff {whole : List Char} {i : Int} :
    Whole whole i ↔ ∃ signs cs n, whole = signs ++ cs ∧ signs.length ≤ 1 ∧
      (∀ c ∈ signs, isSign c) ∧ Unsigned cs n ∧
      i = if whole.head? = some '-' then -(n : Int) else n := by
  constructor
  · intro h
    cases h with
    | empty => exact ⟨[], [], 0, rfl, by simp, by simp, .empty, by simp⟩
    | @sign c hc => exact ⟨[c], [], 0, rfl, by simp, by simpa using hc, .empty, by simp⟩
    | integer h =>
      cases h with
      | @unsigned _ n h =>
        exact ⟨[], whole, n, rfl, by simp, by simp, .natural h,
          (if_neg (Unsigned.natural h).head?_ne).symm⟩
      | @positive cs n h => exact ⟨['+'], cs, n, rfl, by simp, by simp [isSign], .natural h, rfl⟩
      | @negative cs n h => exact ⟨['-'], cs, n, rfl, by simp, by simp [isSign], .natural h, rfl⟩
  · rintro ⟨signs, cs, n, rfl, hle, hs, hn, rfl⟩
    match signs, hle with
    | [], _ =>
      rw [List.nil_append, if_neg hn.head?_ne]
      cases hn with
      | empty => exact .empty
      | natural h => exact .integer (.unsigned h)
    | [c], _ =>
      have hc : isSign c := hs c (by simp)
      cases hn with
      | empty => simpa using Whole.sign hc
      | natural h =>
        simp only [isSign, Bool.or_eq_true, decide_eq_true_eq] at hc
        rcases hc with rfl | rfl
        · exact .integer (.positive h)
        · exact .integer (.negative h)

theorem decimalValue_eq (whole : List Char) (n : Nat) (r : Rat) :
    decimalValue whole (if whole.head? = some '-' then -(n : Int) else n) r =
      signedValue whole (n + r) := by
  rw [decimalValue, signedValue]
  split_ifs <;> push_cast <;> ring

theorem readDecimal_whole {whole ds : List Char} {i : Int} {r : Rat} (hw : Whole whole i)
    (hd : Decimals ds r) : readDecimal whole ds = some (decimalValue whole i r) := by
  obtain ⟨signs, cs, n, rfl, -, hs, hn, rfl⟩ := whole_iff.1 hw
  exact readDecimal_eq_some.2 ⟨signs, cs, n, r, rfl, hs, hn, hd, decimalValue_eq _ n r⟩

theorem readDecimal_oversigned {sign : Char} {signs whole ds : List Char} {i : Int} {r : Rat}
    (hs : isSign sign) (hss : ∀ c ∈ signs, isSign c) (hw : Whole (sign :: whole) i)
    (hd : Decimals ds r) :
    readDecimal (sign :: signs ++ whole) ds = some (decimalValue (sign :: whole) i r) := by
  obtain ⟨front, cs, n, hcons, hle, -, hn, rfl⟩ := whole_iff.1 hw
  obtain rfl : whole = cs := by
    match front, hle with
    | [], _ =>
      obtain rfl : sign :: whole = cs := hcons
      exact absurd hn.isDigit_head (not_isDigit_of_isSign hs)
    | [_], _ => exact (List.cons.inj hcons).2
  refine readDecimal_eq_some.2
    ⟨sign :: signs, whole, n, r, rfl, ?_, hn, hd, decimalValue_eq (sign :: whole) n r⟩
  rintro c (_ | ⟨_, hc⟩)
  · exact hs
  · exact hss c hc

theorem readDecimal_sound {whole ds : List Char} {q : Rat} (h : readDecimal whole ds = some q) :
    Denotes (whole ++ '.' :: ds) q ∨ Oversigned (whole ++ '.' :: ds) q := by
  obtain ⟨signs, cs, n, r, rfl, hs, hn, hd, rfl⟩ := readDecimal_eq_some.1 h
  match signs, hs with
  | [], hs =>
    rw [← decimalValue_eq]
    exact .inl (.decimal (whole_iff.2 ⟨[], cs, n, rfl, by simp, hs, hn, rfl⟩) hd)
  | sign :: signs, hs =>
    have hsign : isSign sign := hs sign (by simp)
    have hw := whole_iff.2 ⟨[sign], cs, n, rfl, by simp, by simpa using hsign, hn, rfl⟩
    -- The value depends on the first sign only, so the others may be left out.
    have hq : signedValue (sign :: signs ++ cs) (n + r) = signedValue ([sign] ++ cs) (n + r) := rfl
    rw [hq, ← decimalValue_eq]
    by_cases hnil : signs = []
    · subst hnil
      exact .inl (.decimal hw hd)
    · exact .inr (.decimal hsign hnil (fun c hc => hs c (by simp [hc])) hw hd)

/-! ## Separators -/

theorem Natural.mem {cs : List Char} {n : Nat} (h : Natural cs n) {c : Char} (hc : c ∈ cs) :
    Digits.isDigit c ∨ c = '_' := by
  induction h <;> grind

section
variable {sep : Char} (hsep : sep = '/' ∨ sep = '.')
include hsep

theorem Natural.not_mem {cs : List Char} {n : Nat} (h : Natural cs n) : sep ∉ cs := by
  intro hmem
  rcases hsep with rfl | rfl <;> exact absurd (h.mem hmem) (by decide)

theorem Integer.not_mem {cs : List Char} {i : Int} (h : Integer cs i) : sep ∉ cs := by
  cases h with
  | unsigned h => exact h.not_mem hsep
  | positive h | negative h =>
    have := h.not_mem hsep
    rcases hsep with rfl | rfl <;> simpa using this

theorem Whole.not_mem {cs : List Char} {i : Int} (h : Whole cs i) : sep ∉ cs := by
  cases h with
  | empty => simp
  | sign hc =>
    intro hmem
    obtain rfl := List.mem_singleton.1 hmem
    rcases hsep with rfl | rfl <;> exact absurd hc (by decide)
  | integer h => exact h.not_mem hsep

theorem Decimals.not_mem {ds : List Char} {r : Rat} (h : Decimals ds r) : sep ∉ ds := by
  obtain ⟨n, hn, -⟩ := h.2
  exact hn.not_mem hsep

end

/-! ## Numbers -/

theorem readTrimmed_decimal {whole ds : List Char} {r q : Rat}
    (hno : ∀ sep, sep = '/' ∨ sep = '.' → sep ∉ whole) (hd : Decimals ds r)
    (h : readDecimal whole ds = some q) : readTrimmed (whole ++ '.' :: ds) = some q := by
  have hslash : '/' ∉ whole ++ '.' :: ds := by
    simpa using ⟨hno '/' (.inl rfl), hd.not_mem (.inl rfl)⟩
  simp only [readTrimmed, splitAt?_eq_none.2 hslash,
    splitAt?_eq_some.2 ⟨rfl, hno '.' (.inr rfl)⟩, h]

theorem Denotes.readTrimmed {cs : List Char} {q : Rat} (h : Denotes cs q) :
    readTrimmed cs = some q := by
  cases h with
  | integer h =>
    have hslash : '/' ∉ cs := h.not_mem (.inl rfl)
    have hpoint : '.' ∉ cs := h.not_mem (.inr rfl)
    simp [Numeral.readTrimmed, splitAt?_eq_none.2 hslash, splitAt?_eq_none.2 hpoint,
      readInteger_eq_some.2 h]
  | fraction first hn hd nonzero =>
    simp only [Numeral.readTrimmed, splitAt?_eq_some.2 ⟨rfl, first⟩]
    exact readFraction_eq_some.2 ⟨_, _, hn, hd, nonzero, rfl⟩
  | decimal hw hd =>
    exact readTrimmed_decimal (fun _ hsep => hw.not_mem hsep) hd (readDecimal_whole hw hd)

theorem Oversigned.readTrimmed {cs : List Char} {q : Rat} (h : Oversigned cs q) :
    readTrimmed cs = some q := by
  cases h with
  | @decimal sign signs whole ds i r hs _ hss hw hd =>
    refine readTrimmed_decimal (fun sep hsep => ?_) hd (readDecimal_oversigned hs hss hw hd)
    have hwhole : sep ∉ sign :: whole := hw.not_mem hsep
    have hsigns : sep ∉ signs := fun hmem => by
      rcases hsep with rfl | rfl <;> exact absurd (hss _ hmem) (by decide)
    simp only [List.mem_cons, not_or] at hwhole
    simp [hwhole, hsigns]

theorem readTrimmed_eq_some {cs : List Char} {q : Rat} :
    readTrimmed cs = some q ↔ Denotes cs q ∨ Oversigned cs q := by
  constructor
  · intro h
    unfold readTrimmed at h
    split at h
    · rename_i numerator denominator hsplit
      obtain ⟨rfl, first⟩ := splitAt?_eq_some.1 hsplit
      obtain ⟨n, d, hn, hd, nonzero, rfl⟩ := readFraction_eq_some.1 h
      exact .inl (.fraction first hn hd nonzero)
    · split at h
      · rename_i whole decimals hsplit
        obtain ⟨rfl, -⟩ := splitAt?_eq_some.1 hsplit
        exact readDecimal_sound h
      · obtain ⟨_, hread, rfl⟩ := Option.map_eq_some_iff.1 h
        obtain ⟨i, hi, rfl⟩ := bind_cast_eq_some.1 hread
        exact .inl (.integer (readInteger_eq_some.1 hi))
  · rintro (h | h)
    · exact h.readTrimmed
    · exact h.readTrimmed

theorem read_eq_ok {text : String} {q : Rat} :
    read text = .ok q ↔ readTrimmed (Blank.trim text.toList) = some q := by
  unfold read read?
  split <;> simp [*]

theorem read_eq_error {text : String} {e : Error} :
    read text = .error e ↔ readTrimmed (Blank.trim text.toList) = none ∧
      e = .native "numeric literal" s!"`{text}` is not a number" := by
  unfold read read?
  split <;> simp [*, eq_comm]

/-- A text is read as a number exactly if the text inside the white space around it writes that
number, or is a decimal with several signs in front of it; every other text is refused. -/
theorem read_spec (text : String) :
    (∀ q, read text = .ok q ↔
      Denotes (Blank.trim text.toList) q ∨ Oversigned (Blank.trim text.toList) q) ∧
    ∀ e, read text = .error e ↔
      (∀ q, ¬ Denotes (Blank.trim text.toList) q ∧ ¬ Oversigned (Blank.trim text.toList) q) ∧
        e = .native "numeric literal" s!"`{text}` is not a number" := by
  refine ⟨fun q => read_eq_ok.trans readTrimmed_eq_some, fun e => ?_⟩
  simp only [read_eq_error, Option.eq_none_iff_forall_ne_some, ne_eq, readTrimmed_eq_some, not_or]

/-- A decimal with two signs is read, although what stands in front of its point is neither empty,
nor a sign, nor an integer, so that the grammar gives the text no number. The same two signs are
refused in an integer and in a fraction. -/
theorem read_oversigned :
    read "--1.5" = .ok (-3 / 2) ∧ splitAt? '.' "--1.5".toList = some ("--1".toList, "5".toList) ∧
      (∀ i, ¬ Whole "--1".toList i) ∧ (∀ q, ¬ Denotes "--1.5".toList q) ∧
      read "--1" = .error (.native "numeric literal" "`--1` is not a number") ∧
      read "--1/2" = .error (.native "numeric literal" "`--1/2` is not a number") := by
  have hsplit : splitAt? '.' "--1.5".toList = some ("--1".toList, "5".toList) := by decide +kernel
  have hwhole (i : Int) : ¬ Whole "--1".toList i := by
    rintro (_ | _ | h)
    have hread : readInteger "--1".toList = none := by decide +kernel
    rw [readInteger_eq_some.2 h] at hread
    cases hread
  refine ⟨by decide +kernel, hsplit, hwhole, ?_, by decide +kernel, by decide +kernel⟩
  intro q h
  generalize htext : "--1.5".toList = text at h hsplit
  cases h with
  | integer h =>
    have hread : readInteger "--1.5".toList = none := by decide +kernel
    rw [htext, readInteger_eq_some.2 h] at hread
    cases hread
  | fraction =>
    have hslash : '/' ∉ "--1.5".toList := by decide +kernel
    simp [htext] at hslash
  | decimal hw hd =>
    have hpoint := hw.not_mem (.inr rfl)
    rw [splitAt?_eq_some.2 ⟨rfl, hpoint⟩, Option.some.injEq, Prod.mk.injEq] at hsplit
    exact hwhole _ (hsplit.1 ▸ hw)

end StagedCalculus.Numeral

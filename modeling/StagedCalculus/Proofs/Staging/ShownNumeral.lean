import Mathlib.Data.List.TakeWhile
import StagedCalculus.Proofs.Staging.Session
import StagedCalculus.Proofs.Text.Numeral

/-!
# Shown numerals

This module shows that the text of a number is read back as that number, and what follows for the
literals of a store: a text stands for one literal.

* `Numeral.integer_toString`: an integer is written by the rules that integers are read by;
* `Numeral.read_write`: so is any number, and reading its text gives it back;
* `Store.Session.numerals_read_back`: the literals of every store that a session reaches are shown
  as such texts, and a literal that is built from the text of another one is the same term.
-/

namespace StagedCalculus

namespace Blank

/-- There is nothing to remove from a text without white space. -/
theorem trim_eq_self {cs : List Char} (h : ∀ c ∈ cs, isBlank c = false) : trim cs = cs := by
  have hfront : cs.dropWhile isBlank = cs :=
    List.dropWhile_eq_self_iff.2 fun hl => ne_true_of_eq_false (h _ (List.getElem_mem hl))
  have hback : cs.reverse.dropWhile isBlank = cs.reverse :=
    List.dropWhile_eq_self_iff.2 fun hl =>
      ne_true_of_eq_false (h _ (List.mem_reverse.1 (List.getElem_mem hl)))
  rw [trim, hfront, hback, List.reverse_reverse]

end Blank

namespace Numeral

/-! ## Written numbers follow the rules -/

/-- A natural number is written with its digits, the last one being its remainder. -/
theorem natural_toDigits (n : Nat) : Natural (Nat.toDigits 10 n) n := by
  have hdigit : ∀ d < 10, Digits.isDigit d.digitChar ∧ Digits.digitValue d.digitChar = d := by
    decide
  induction n using Nat.strongRecOn with
  | ind n ih =>
    rw [Nat.toDigits_eq_if (by decide)]
    split
    · rename_i hlt
      obtain ⟨hd, hvalue⟩ := hdigit n hlt
      simpa only [hvalue] using Natural.digit hd
    · rename_i hge
      obtain ⟨hd, hvalue⟩ := hdigit (n % 10) (Nat.mod_lt n (by decide))
      have hwritten := Natural.snoc (ih (n / 10) (by omega)) hd
      rwa [hvalue, Nat.div_add_mod'] at hwritten

theorem natural_toString (n : Nat) : Natural (toString n).toList n := by
  rw [Nat.toString_eq_repr, Nat.toList_repr]
  exact natural_toDigits n

theorem integer_toString (i : Int) : Integer (toString i).toList i := by
  cases i with
  | ofNat n => exact .unsigned (natural_toString n)
  | negSucc n =>
    have htext : (toString (Int.negSucc n)).toList = '-' :: (toString (n + 1)).toList := by
      change ("-" ++ toString (n + 1)).toList = _
      rw [String.toList_append]
      rfl
    rw [htext]
    exact .negative (natural_toString (n + 1))

/-! ## Reading back what was written -/

theorem Natural.not_isBlank {cs : List Char} {n : Nat} (h : Natural cs n) :
    ∀ c ∈ cs, Blank.isBlank c = false := by
  intro c hc
  rcases h.mem hc with hdigit | rfl
  · rw [Digits.isDigit, Bool.and_eq_true, decide_eq_true_eq, decide_eq_true_eq] at hdigit
    have hlow : 48 ≤ c.toNat := hdigit.1
    have hhigh : c.toNat ≤ 57 := hdigit.2
    simp only [Blank.isBlank, Blank.ranges, List.any_cons, List.any_nil, Bool.or_false,
      Bool.or_eq_false_iff, Bool.and_eq_false_iff, decide_eq_false_iff_not]
    omega
  · decide

theorem Integer.not_isBlank {cs : List Char} {i : Int} (h : Integer cs i) :
    ∀ c ∈ cs, Blank.isBlank c = false := by
  cases h with
  | unsigned h => exact h.not_isBlank
  | positive h | negative h => exact List.forall_mem_cons.2 ⟨by decide, h.not_isBlank⟩

/-- A number is written without white space, by the rules that numbers are read by. -/
theorem denotes_write (q : Rat) :
    (∀ c ∈ (write q).toList, Blank.isBlank c = false) ∧ Denotes (write q).toList q := by
  have hnumerator := integer_toString q.num
  unfold write
  split
  · rename_i hint
    refine ⟨hnumerator.not_isBlank, ?_⟩
    have hdenotes := Denotes.integer hnumerator
    rwa [Rat.coe_int_num_of_den_eq_one hint] at hdenotes
  · -- The bar is the first one: the numerator has none.
    have hdenominator : Integer (toString q.den).toList q.den := .unsigned (natural_toString q.den)
    have htext : (toString q.num ++ toString "/" ++ toString q.den).toList =
        (toString q.num).toList ++ '/' :: (toString q.den).toList := by
      simp only [String.toList_append, List.append_assoc]
      rfl
    rw [htext]
    refine ⟨?_, ?_⟩
    · intro c hc
      rcases List.mem_append.1 hc with hc | hc
      · exact hnumerator.not_isBlank c hc
      · exact List.forall_mem_cons.2 ⟨by decide, hdenominator.not_isBlank⟩ c hc
    · have hdenotes := Denotes.fraction (hnumerator.not_mem (.inl rfl))
        (by rwa [Blank.trim_eq_self hnumerator.not_isBlank])
        (by rwa [Blank.trim_eq_self hdenominator.not_isBlank]) (Int.natCast_ne_zero.2 q.den_nz)
      rwa [Int.cast_natCast, Rat.num_div_den] at hdenotes

theorem read_write (q : Rat) : read (write q) = .ok q := by
  obtain ⟨hblank, hdenotes⟩ := denotes_write q
  rw [read_eq_ok, Blank.trim_eq_self hblank]
  exact hdenotes.readTrimmed

/-- So different numbers are written differently. -/
theorem write_inj {q q' : Rat} (h : write q = write q') : q = q' := by
  have hread := read_write q
  rw [h, read_write, Except.ok.injEq] at hread
  exact hread.symm

end Numeral

namespace Store

variable {config : Config} {s : Store} {t u : TermId} {q q' : Rat}

/-! ## Literals -/

/-- A literal is shown as its number. -/
theorem display_numericLiteral (h : s.shape t = .numericLiteral q) :
    s.display t = Numeral.write q := by
  rw [display, fold, foldTo, h]
  rfl

theorem Canonical.display_numericLiteral_inj (hs : s.Canonical) (ht : s.shape t = .numericLiteral q)
    (hu : s.shape u = .numericLiteral q') : s.display t = s.display u ↔ t = u := by
  constructor
  · intro h
    rw [display_numericLiteral ht, display_numericLiteral hu] at h
    obtain rfl := Numeral.write_inj h
    exact hs.distinct t u (allocated_of_shape (by simp [ht])) (allocated_of_shape (by simp [hu]))
      (ht.trans hu.symm)
  · rintro rfl
    rfl

/-- The literal of a number is found again. -/
theorem Canonical.run_numeric (hs : s.Canonical) (ht : s.shape t = .numericLiteral q) :
    (Build.numeric q).run s = (t, s) := by
  have hallocated : s.Allocated t := allocated_of_shape (by simp [ht])
  have hintern := hs.intern_shape hallocated
  rwa [ht] at hintern

/-- In every store that a session reaches, each number has a literal, which is shown as the number
in lowest terms. However the session goes on, this text is read as the number, and building a
literal from it gives the same term. Two literals are shown as one text only if they are one
term. -/
theorem Session.numerals_read_back (hs : Session (initial config) s) :
    (∀ q : Rat, ∃ t s', (Build.numeric q).run s = (t, s') ∧ s'.shape t = .numericLiteral q ∧
      (∃ (n : Int) (d : Nat), q = n / d ∧ 0 < d ∧ n.natAbs.Coprime d ∧
        s'.display t = if d = 1 then toString n else toString n ++ "/" ++ toString d) ∧
      ∀ later, Session s' later → Numeral.read (later.display t) = .ok q ∧
        (Numeral.read (later.display t)).map (fun value => (Build.numeric value).run later) =
          .ok (t, later)) ∧
    ∀ t u q q', s.shape t = .numericLiteral q → s.shape u = .numericLiteral q' →
      (s.display t = s.display u ↔ t = u) := by
  obtain ⟨hintact, -⟩ := hs.retains (intact_initial config)
  refine ⟨fun q => ?_, fun t u q q' => hintact.display_numericLiteral_inj⟩
  have hcovers : s.Covers (.numericLiteral q) :=
    covers_of_children rfl rfl (by simp [Shape.children])
  have hshape : (s.intern (.numericLiteral q)).2.shape (s.intern (.numericLiteral q)).1 =
      .numericLiteral q := shape_intern (by simp)
  refine ⟨(s.intern (.numericLiteral q)).1, (s.intern (.numericLiteral q)).2, rfl, hshape,
    ⟨q.num, q.den, (Rat.num_div_den q).symm, q.den_pos, q.reduced, display_numericLiteral hshape⟩,
    fun later hlater => ?_⟩
  -- The literal keeps its shape however the session goes on, and no other term gets this shape.
  obtain ⟨hlaterIntact, hretains⟩ := hlater.retains (intact_intern hintact hcovers)
  have hlaterShape := hretains.shape_kept hshape (by simp)
  have hread : Numeral.read (later.display (s.intern (.numericLiteral q)).1) = .ok q := by
    rw [display_numericLiteral hlaterShape, Numeral.read_write]
  refine ⟨hread, ?_⟩
  rw [hread]
  exact congrArg Except.ok (hlaterIntact.run_numeric hlaterShape)

end Store

namespace Sample

open Build

/-- A negative fraction and an integer. -/
def twoLiterals : Build (TermId × TermId) := do
  return (← numeric (-6 / 8), ← numeric 5)

seal Store.intern Store.initial in
/-- Both literals in a new store. -/
def literals : Store.Setup (TermId × TermId) := twoLiterals.setup <| by
  repeat' apply Store.Built.add
  · exact fun _ : True => .initial {}
  · decide +kernel

end Sample

namespace Store

open Sample

/-- The fraction was not built in lowest terms. It is shown in lowest terms, its text is read as the
same number, and the literal of that number is the one that is there. -/
theorem numerals_read_back_fraction :
    ∃ config s t u, Session (initial config) s ∧ s.shape t = .numericLiteral (-6 / 8) ∧
      s.shape u = .numericLiteral 5 ∧ s.display t = "-3/4" ∧ s.display u = "5" ∧ t ≠ u ∧
      (Numeral.read "-3/4").map (fun value => (Build.numeric value).run s) = .ok (t, s) := by
  have hsession := literals.built.session
  have hchecks : ∃ t u, literals.store.shape t = .numericLiteral (-6 / 8) ∧
      literals.store.shape u = .numericLiteral 5 ∧ literals.store.display t = "-3/4" ∧
      literals.store.display u = "5" :=
    ⟨literals.value.1, literals.value.2, by decide +kernel⟩
  generalize literals.store = s at hsession hchecks
  obtain ⟨config, hs⟩ := hsession
  obtain ⟨t, u, ht, hu, htext, hutext⟩ := hchecks
  obtain ⟨hbuild, hsame⟩ := hs.numerals_read_back
  refine ⟨config, s, t, u, hs, ht, hu, htext, hutext, fun heq => ?_, ?_⟩
  · have hequal := (hsame t u _ _ ht hu).2 heq
    rw [htext, hutext] at hequal
    exact absurd hequal (by decide)
  · -- The literal that is built is the one that is there, so the store does not change.
    obtain ⟨t', s', hrun, -, -, hlater⟩ := hbuild (-6 / 8)
    rw [(hs.retains (intact_initial config)).1.run_numeric ht] at hrun
    cases hrun
    rw [← htext]
    exact (hlater s (.nothing s)).2

end Store

end StagedCalculus

import Mathlib.Order.Bounds.Defs
import StagedCalculus.Text.EditDistance

/-!
# Edit scripts

This module says what an edit is, and shows that the edit distance is the least number of edits
that turn one text into the other.

* `Edit`, `Edits` are the specification: a character is inserted, deleted or replaced anywhere in a
  text, a number of times;
* `EditDistance.least` is the recursion behind the rows. It looks at the first characters, whereas
  the rows compare longer and longer beginnings of the two texts, so the entry for two beginnings
  is the value of the recursion at their reversals (`ofChars_eq`);
* `least_le_of_edits` and `edits_least` show that no script is shorter than this value and that one
  has this length.
-/

namespace StagedCalculus.EditDistance

/-! ## Edits -/

/-- One edit of a text: a character is inserted, deleted, or replaced by another one. -/
inductive Edit : List Char → List Char → Prop where
  | insert (before after : List Char) (c : Char) : Edit (before ++ after) (before ++ c :: after)
  | delete (before after : List Char) (c : Char) : Edit (before ++ c :: after) (before ++ after)
  | substitute (before after : List Char) {c d : Char} (hne : c ≠ d) :
      Edit (before ++ c :: after) (before ++ d :: after)

/-- A script of so many edits, one after the other, turns one text into another. -/
inductive Edits : Nat → List Char → List Char → Prop where
  | nothing (a : List Char) : Edits 0 a a
  | edit {n : Nat} {a b c : List Char} (first : Edit a b) (rest : Edits n b c) : Edits (n + 1) a c

variable {a b c a' b' : List Char} {m n : Nat}

theorem Edit.symm (h : Edit a b) : Edit b a := by
  cases h with
  | insert before after c => exact .delete before after c
  | delete before after c => exact .insert before after c
  | substitute before after hne => exact .substitute before after hne.symm

theorem Edit.reverse (h : Edit a b) : Edit a.reverse b.reverse := by
  cases h with
  | insert before after c => simpa using Edit.insert after.reverse before.reverse c
  | delete before after c => simpa using Edit.delete after.reverse before.reverse c
  | substitute before after hne => simpa using Edit.substitute after.reverse before.reverse hne

theorem Edit.cons (h : Edit a b) (c : Char) : Edit (c :: a) (c :: b) := by
  cases h with
  | insert before after d => exact .insert (c :: before) after d
  | delete before after d => exact .delete (c :: before) after d
  | substitute before after hne => exact .substitute (c :: before) after hne

namespace Edits

theorem single (h : Edit a b) : Edits 1 a b := .edit h (.nothing b)

theorem trans (h : Edits m a b) (h' : Edits n b c) : Edits (m + n) a c := by
  induction h with
  | nothing a => simpa using h'
  | @edit m _ _ _ first _ ih =>
    rw [Nat.add_right_comm]
    exact .edit first (ih h')

theorem symm (h : Edits n a b) : Edits n b a := by
  induction h with
  | nothing a => exact .nothing a
  | edit first _ ih => exact ih.trans (.single first.symm)

theorem reverse (h : Edits n a b) : Edits n a.reverse b.reverse := by
  induction h with
  | nothing a => exact .nothing _
  | edit first _ ih => exact .edit first.reverse ih

theorem cons (h : Edits n a b) (c : Char) : Edits n (c :: a) (c :: b) := by
  induction h with
  | nothing a => exact .nothing _
  | edit first _ ih => exact .edit (first.cons c) ih

/-- The shorter one of two scripts. -/
theorem shorter (h : Edits m a b) (h' : Edits n a b) : Edits (min m n) a b := by
  rcases Nat.le_total m n with hle | hle
  · rwa [Nat.min_eq_left hle]
  · rwa [Nat.min_eq_right hle]

theorem zero_iff : Edits 0 a b ↔ a = b := by
  constructor
  · intro h
    cases h
    rfl
  · rintro rfl
    exact .nothing a

end Edits

/-! ## The recursion -/

/-- The least number of edits, by the first characters of both texts: they are matched or replaced,
or one of them is deleted or inserted. -/
def least : List Char → List Char → Nat
  | [], b => b.length
  | c :: a, [] => (c :: a).length
  | c :: a, d :: b =>
    min (least a b + if c = d then 0 else 1) (min (least a (d :: b) + 1) (least (c :: a) b + 1))
termination_by a b => a.length + b.length

@[simp] theorem least_nil_left (b : List Char) : least [] b = b.length := by rw [least]

@[simp] theorem least_nil_right (a : List Char) : least a [] = a.length := by
  cases a <;> rw [least]

theorem least_cons_cons (c d : Char) (a b : List Char) :
    least (c :: a) (d :: b) =
      min (least a b + if c = d then 0 else 1)
        (min (least a (d :: b) + 1) (least (c :: a) b + 1)) := by
  rw [least]

/-! ## No script is shorter -/

theorem least_cons_left_le (c : Char) (a b : List Char) : least (c :: a) b ≤ least a b + 1 := by
  cases b with
  | nil => simp
  | cons d b => rw [least_cons_cons]; omega

theorem least_cons_right_le (d : Char) (a b : List Char) : least a (d :: b) ≤ least a b + 1 := by
  cases a with
  | nil => simp
  | cons c a => rw [least_cons_cons]; omega

theorem least_le_cons_left (c : Char) (a b : List Char) : least a b ≤ least (c :: a) b + 1 := by
  -- Where `d` is inserted, the bound comes from the rest of the second text.
  induction b with
  | nil => simp; omega
  | cons d b ih =>
    have hright := least_cons_right_le d a b
    rw [least_cons_cons]
    omega

theorem least_replace (c d : Char) (a b : List Char) :
    least (c :: a) b ≤ least (d :: a) b + 1 := by
  induction b with
  | nil => simp
  | cons e b ih =>
    have hcost : (if c = e then 0 else 1) ≤ 1 := by split <;> decide
    rw [least_cons_cons, least_cons_cons]
    omega

/-- A common first character does not let two texts get further apart. -/
theorem least_cons_cons_le (h : ∀ b, least a b ≤ least a' b + 1) (c : Char) (b : List Char) :
    least (c :: a) b ≤ least (c :: a') b + 1 := by
  -- Matching the first characters leaves `a` and `a'`, deleting them leaves both as they are;
  -- inserting `d` keeps the common character, so that case is the induction hypothesis.
  induction b with
  | nil => simpa using h []
  | cons d b ih =>
    have hboth := h b
    have hleft := h (d :: b)
    rw [least_cons_cons, least_cons_cons]
    omega

theorem least_append_le (before : List Char) (h : ∀ b, least a b ≤ least a' b + 1)
    (b : List Char) : least (before ++ a) b ≤ least (before ++ a') b + 1 := by
  induction before generalizing b with
  | nil => exact h b
  | cons c before ih => exact least_cons_cons_le ih c b

/-- One edit changes the value by one at most. -/
theorem least_le_of_edit (h : Edit a a') (b : List Char) : least a b ≤ least a' b + 1 := by
  cases h with
  | insert before after c => exact least_append_le before (least_le_cons_left c after) b
  | delete before after c => exact least_append_le before (least_cons_left_le c after) b
  | @substitute before after c d _ => exact least_append_le before (least_replace c d after) b

theorem least_self (a : List Char) : least a a = 0 := by
  induction a with
  | nil => simp
  | cons c a ih => simp [least_cons_cons, ih]

theorem least_le_of_edits (h : Edits n a b) : least a b ≤ n := by
  induction h with
  | nothing a => exact Nat.le_of_eq (least_self a)
  | @edit n a b c first _ ih =>
    have hstep := least_le_of_edit first c
    omega

/-! ## One script is that short -/

theorem edits_insert (b : List Char) : Edits b.length [] b := by
  induction b with
  | nil => exact .nothing []
  | cons d b ih => exact .trans ih (.single (.insert [] b d))

/-- The script follows the choice that gives the minimum. -/
theorem edits_least (a b : List Char) : Edits (least a b) a b := by
  fun_induction least a b with
  | case1 b => exact edits_insert b
  | case2 c a => exact (edits_insert (c :: a)).symm
  | case3 c a d b ihboth ihdelete ihinsert =>
    have hboth : Edits (least a b + if c = d then 0 else 1) (c :: a) (d :: b) := by
      by_cases hcd : c = d
      · rw [if_pos hcd]
        exact hcd ▸ ihboth.cons c
      · rw [if_neg hcd]
        exact (ihboth.cons c).trans (.single (.substitute [] b hcd))
    have hdelete : Edits (least a (d :: b) + 1) (c :: a) (d :: b) := .edit (.delete [] a c) ihdelete
    have hinsert : Edits (least (c :: a) b + 1) (c :: a) (d :: b) :=
      ihinsert.trans (.single (.insert [] b d))
    exact hboth.shorter (hdelete.shorter hinsert)

/-! ## Rows -/

/-- The rest of a row, behind the entry for the beginnings that `a` and `b` are the reversals of.
The last argument is what the second text goes on with. -/
def restOfRow (a b : List Char) : List Char → List Nat
  | [] => []
  | d :: ds => least a (d :: b) :: restOfRow a (d :: b) ds

/-- The row for the beginning that `a` is the reversal of. -/
def row (a b : List Char) : List Nat := least a [] :: restOfRow a [] b

theorem advance_restOfRow (c : Char) (a b ds : List Char) :
    advance c ds (least a b) (restOfRow a b ds) (least (c :: a) b) = restOfRow (c :: a) b ds := by
  induction ds generalizing b with
  | nil => rfl
  | cons d ds ih =>
    -- The entry that is computed is the left neighbour of the next one.
    rw [restOfRow, restOfRow, advance, ← least_cons_cons, ih]

theorem nextRow_row (a b : List Char) (c : Char) : nextRow b c (row a b) = row (c :: a) b := by
  have hfirst : least a [] + 1 = least (c :: a) [] := by simp
  rw [row, nextRow, hfirst, advance_restOfRow, row]

theorem restOfRow_nil (b ds : List Char) :
    restOfRow [] b ds = List.range' (b.length + 1) ds.length := by
  induction ds generalizing b with
  | nil => rfl
  | cons d ds ih => simp [restOfRow, ih, List.range'_succ]

theorem row_nil (b : List Char) : row [] b = List.range (b.length + 1) := by
  rw [row, restOfRow_nil, List.range_eq_range', List.range'_succ]
  simp

/-- The rows that are passed belong to longer and longer beginnings of the first text. -/
theorem foldl_nextRow (start a b : List Char) :
    a.foldl (fun row c => nextRow b c row) (row start b) = row (a.reverse ++ start) b := by
  induction a generalizing start with
  | nil => rfl
  | cons c a ih =>
    rw [List.foldl_cons, nextRow_row, ih, List.reverse_cons, List.append_assoc,
      List.singleton_append]

theorem lastRow_eq (a b : List Char) : lastRow a b = row a.reverse b := by
  rw [lastRow, ← row_nil, foldl_nextRow, List.append_nil]

theorem getLastD_restOfRow (a b ds : List Char) :
    (restOfRow a b ds).getLastD (least a b) = least a (ds.reverse ++ b) := by
  induction ds generalizing b with
  | nil => rfl
  | cons d ds ih =>
    rw [restOfRow, List.getLastD_cons, ih, List.reverse_cons, List.append_assoc,
      List.singleton_append]

theorem ofChars_eq (a b : List Char) : ofChars a b = least a.reverse b.reverse := by
  rw [ofChars, lastRow_eq, row, List.getLastD_cons, getLastD_restOfRow, List.append_nil]

/-! ## The distance -/

/-- A script for the reversed texts is the reversal of one for the texts. -/
theorem edits_ofChars (a b : List Char) : Edits (ofChars a b) a b := by
  have h := (edits_least a.reverse b.reverse).reverse
  rwa [← ofChars_eq, List.reverse_reverse, List.reverse_reverse] at h

theorem ofChars_le_of_edits (h : Edits n a b) : ofChars a b ≤ n := by
  rw [ofChars_eq]
  exact least_le_of_edits h.reverse

end StagedCalculus.EditDistance

namespace StagedCalculus

open EditDistance

theorem editDistance_eq_zero {a b : String} : editDistance a b = 0 ↔ a = b := by
  constructor
  · intro h
    have hedits := edits_ofChars a.toList b.toList
    rw [← editDistance, h, Edits.zero_iff] at hedits
    exact String.toList_inj.1 hedits
  · rintro rfl
    exact Nat.le_zero.1 (ofChars_le_of_edits (.nothing _))

/-- The edit distance is the least number of single-character edits that turn one text into the
other, and thereby a metric. -/
theorem editDistance_isLeast (a b : String) :
    IsLeast {n | Edits n a.toList b.toList} (editDistance a b) ∧
      (editDistance a b = 0 ↔ a = b) ∧ editDistance a b = editDistance b a ∧
      ∀ c, editDistance a c ≤ editDistance a b + editDistance b c := by
  refine ⟨⟨edits_ofChars _ _, fun n hn => ofChars_le_of_edits hn⟩, editDistance_eq_zero, ?_,
    fun c => ?_⟩
  · exact Nat.le_antisymm (ofChars_le_of_edits (edits_ofChars _ _).symm)
      (ofChars_le_of_edits (edits_ofChars _ _).symm)
  · exact ofChars_le_of_edits ((edits_ofChars _ _).trans (edits_ofChars _ _))

end StagedCalculus

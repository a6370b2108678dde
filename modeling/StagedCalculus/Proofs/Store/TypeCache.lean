import StagedCalculus.Store.TypeCache

/-!
# Looking up remembered answers

This module proves that remembering an answer changes what is remembered under its own key alone.
-/

namespace StagedCalculus

instance : DecidableEq TypeAnswer
  | .ok ty, .ok ty' => decidable_of_iff (ty = ty') (by simp)
  | .error e, .error e' => decidable_of_iff (e = e') (by simp)
  | .ok _, .error _ => isFalse nofun
  | .error _, .ok _ => isFalse nofun

namespace TypeCache

variable {cache : TypeCache} {t t' : TermId} {restriction restriction' : Restriction}
  {answer answer' : TypeAnswer}

@[simp]
theorem get?_empty (t : TermId) (restriction : Restriction) :
    empty.get? t restriction = none := by
  simp [empty, get?, bucket]

theorem get?_insert (cache : TypeCache) (t t' : TermId) (restriction restriction' : Restriction)
    (answer : TypeAnswer) :
    (cache.insert t restriction answer).get? t' restriction' =
      if t' = t ∧ restriction' = restriction then some answer
      else cache.get? t' restriction' := by
  obtain ⟨i⟩ := t
  obtain ⟨j⟩ := t'
  unfold insert get? bucket
  simp only [Std.TreeMap.getElem?_insert, Nat.compare_eq_eq, TermId.mk.injEq]
  by_cases hterm : i = j
  · subst hterm
    by_cases hkey : restriction' = restriction
    · simp [hkey]
    · simp only [if_true, Option.getD_some, List.find?_cons, Ne.symm hkey, decide_false, hkey,
        and_false, if_false, List.find?_filter]
      congr 2
      funext e
      grind
  · simp [hterm, Ne.symm hterm]

theorem get?_insert_self (cache : TypeCache) (t : TermId) (restriction : Restriction)
    (answer : TypeAnswer) :
    (cache.insert t restriction answer).get? t restriction = some answer := by
  simp [get?_insert]

theorem get?_insert_cases
    (h : (cache.insert t restriction answer).get? t' restriction' = some answer') :
    answer' = answer ∨ cache.get? t' restriction' = some answer' := by
  rw [get?_insert] at h
  split at h
  · exact Or.inl (Option.some.inj h).symm
  · exact Or.inr h

end TypeCache

end StagedCalculus

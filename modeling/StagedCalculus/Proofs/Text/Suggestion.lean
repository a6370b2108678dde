import Mathlib.Data.Finset.Dedup
import Mathlib.Data.List.Sort
import Mathlib.Data.Set.Card
import Mathlib.Data.String.Basic
import StagedCalculus.Proofs.Text.EditDistance
import StagedCalculus.Text.Suggestion

/-!
# The order of suggestions

This module says which candidates are worth offering and which of two comes first, and shows that
the suggestions are the first three in that order.

* `Eligible`, `Closer` and `Ranking` are the specification. A ranking lists every eligible candidate
  in order; there is one for each choice of candidates, and it depends on the set of candidates
  alone (`Ranking.unique`);
* `place` keeps a list strictly ordered, so placing the candidates one by one sorts them and drops
  repetitions (`ranking_ranked`);
* `similarNames_spec`: what can be relied on in a list of suggestions.
-/

namespace StagedCalculus.Suggestion

/-! ## The specification -/

/-- A candidate worth offering: it is some edits away from the name, but not too many. -/
def Eligible (name : String) (candidates : List String) (bound : Nat) (c : String) : Prop :=
  c ∈ candidates ∧ 1 ≤ editDistance name c ∧ editDistance name c ≤ bound

/-- The first text is offered before the second one: fewer edits lead to it from the name, or as
many and it comes earlier in the order of texts. -/
def Closer (name a b : String) : Prop :=
  editDistance name a < editDistance name b ∨ editDistance name a = editDistance name b ∧ a < b

/-- All eligible candidates in the order in which they are offered. -/
structure Ranking (name : String) (candidates : List String) (bound : Nat)
    (ranking : List String) : Prop where
  ordered : ranking.Pairwise (Closer name)
  complete : ∀ c, c ∈ ranking ↔ Eligible name candidates bound c

variable {name : String} {candidates candidates' : List String} {bound : Nat}

instance (name : String) : Std.Irrefl (Closer name) where
  irrefl a h := by
    rcases h with h | ⟨-, h⟩
    · exact Nat.lt_irrefl _ h
    · exact lt_irrefl a h

instance (name : String) : Std.Antisymm (Closer name) where
  antisymm a b h h' := by
    rcases h with h | ⟨heq, h⟩ <;> rcases h' with h' | ⟨heq', h'⟩
    · omega
    · omega
    · omega
    · exact absurd h' (lt_asymm h)

namespace Ranking

variable {ranking ranking' : List String}

theorem nodup (h : Ranking name candidates bound ranking) : ranking.Nodup :=
  h.ordered.imp fun hcloser => ne_of_irrefl hcloser

theorem unique (h : Ranking name candidates bound ranking)
    (h' : Ranking name candidates' bound ranking') (hsame : ∀ c, c ∈ candidates' ↔ c ∈ candidates) :
    ranking' = ranking := by
  refine h'.ordered.eq_of_mem_iff h.ordered fun c => ?_
  rw [h'.complete, h.complete, Eligible, Eligible, hsame]

end Ranking

/-! ## Scored candidates -/

variable {a b c : Nat × String} {l : List (Nat × String)}

theorem before_iff : before a b = true ↔ a.1 < b.1 ∨ a.1 = b.1 ∧ a.2 < b.2 := by
  rw [before, Bool.or_eq_true, Bool.and_eq_true, decide_eq_true_iff, decide_eq_true_iff,
    decide_eq_true_iff]

theorem before_trans (h : before a b = true) (h' : before b c = true) : before a c = true := by
  rw [before_iff] at *
  rcases h with h | ⟨heq, h⟩ <;> rcases h' with h' | ⟨heq', h'⟩
  · exact .inl (by omega)
  · exact .inl (by omega)
  · exact .inl (by omega)
  · exact .inr ⟨heq.trans heq', h.trans h'⟩

/-- Scored candidates that come in neither order are the same. -/
theorem eq_of_not_before (h : ¬ before a b = true) (h' : ¬ before b a = true) : a = b := by
  rw [before_iff] at h h'
  have hscore : a.1 = b.1 := by omega
  refine Prod.ext hscore (le_antisymm (not_lt.1 fun hlt => ?_) (not_lt.1 fun hlt => ?_))
  · exact h' (.inr ⟨hscore.symm, hlt⟩)
  · exact h (.inr ⟨hscore, hlt⟩)

theorem mem_place : c ∈ place a l ↔ c = a ∨ c ∈ l := by
  induction l with
  | nil => simp [place]
  | cons b rest ih =>
    rw [place]
    by_cases hab : before a b = true
    · rw [if_pos hab, List.mem_cons]
    · by_cases hba : before b a = true
      · rw [if_neg hab, if_pos hba, List.mem_cons, ih, List.mem_cons, or_left_comm]
      · -- The candidate is there already.
        obtain rfl := eq_of_not_before hab hba
        rw [if_neg hab, if_neg hab, List.mem_cons, or_self_left]

theorem ordered_place (h : l.Pairwise fun a b => before a b = true) :
    (place a l).Pairwise fun a b => before a b = true := by
  induction l with
  | nil => exact List.pairwise_singleton _ _
  | cons b rest ih =>
    obtain ⟨hfirst, hrest⟩ := List.pairwise_cons.1 h
    rw [place]
    by_cases hab : before a b = true
    · rw [if_pos hab]
      refine List.pairwise_cons.2 ⟨fun c hc => ?_, h⟩
      rcases List.mem_cons.1 hc with rfl | hc
      · exact hab
      · exact before_trans hab (hfirst c hc)
    · by_cases hba : before b a = true
      · rw [if_neg hab, if_pos hba]
        refine List.pairwise_cons.2 ⟨fun c hc => ?_, ih hrest⟩
        rcases mem_place.1 hc with rfl | hc
        · exact hba
        · exact hfirst c hc
      · rwa [if_neg hab, if_neg hba]

/-! ## The ranking -/

theorem mem_scored {e : Nat × String} :
    e ∈ scored name candidates bound ↔
      Eligible name candidates bound e.2 ∧ e.1 = editDistance name e.2 := by
  obtain ⟨score, c⟩ := e
  simp only [scored, List.mem_filter, List.mem_map, Bool.and_eq_true, decide_eq_true_iff, Eligible]
  constructor
  · rintro ⟨⟨c, hc, heq⟩, hscore⟩
    cases heq
    exact ⟨⟨hc, hscore⟩, rfl⟩
  · rintro ⟨⟨hc, hscore⟩, rfl⟩
    exact ⟨⟨c, hc, rfl⟩, hscore⟩

theorem mem_ranked {e : Nat × String} :
    e ∈ ranked name candidates bound ↔
      Eligible name candidates bound e.2 ∧ e.1 = editDistance name e.2 := by
  rw [← mem_scored, ranked]
  induction scored name candidates bound with
  | nil => rfl
  | cons a rest ih => rw [List.foldr_cons, mem_place, ih, List.mem_cons]

theorem ordered_ranked :
    (ranked name candidates bound).Pairwise fun a b => before a b = true := by
  rw [ranked]
  induction scored name candidates bound with
  | nil => exact .nil
  | cons a rest ih => exact ordered_place ih

theorem ranking_ranked (name : String) (candidates : List String) (bound : Nat) :
    Ranking name candidates bound ((ranked name candidates bound).map (·.2)) where
  ordered := by
    refine List.pairwise_map.2 (ordered_ranked.imp_of_mem fun {a b} ha hb h => ?_)
    have h := before_iff.1 h
    rwa [(mem_ranked.1 ha).2, (mem_ranked.1 hb).2] at h
  complete c := by
    rw [List.mem_map]
    constructor
    · rintro ⟨e, he, rfl⟩
      exact (mem_ranked.1 he).1
    · intro hc
      exact ⟨(editDistance name c, c), mem_ranked.2 ⟨hc, rfl⟩, rfl⟩

theorem similarNames_eq (name : String) (candidates : List String) (bound : Nat) :
    similarNames name candidates bound = ((ranked name candidates bound).map (·.2)).take 3 := by
  rw [similarNames, List.map_take]

/-- The number of candidates that are ranked, whatever their repetitions. -/
theorem Ranking.length_eq {ranking : List String} (h : Ranking name candidates bound ranking) :
    ranking.length = {c | Eligible name candidates bound c}.ncard := by
  have hset : {c | Eligible name candidates bound c} = ↑ranking.toFinset := by
    ext c
    simp [h.complete]
  rw [hset, Set.ncard_coe_finset, List.toFinset_card_of_nodup h.nodup]

end StagedCalculus.Suggestion

namespace StagedCalculus

open Suggestion

/-- The suggestions are the first three of the eligible candidates, in the one order in which these
are offered: nothing is suggested twice, the name itself never, nothing that is left out comes
before anything that is offered, and it does not matter in which order and how often the candidates
are given. -/
theorem similarNames_spec (name : String) (candidates : List String) (bound : Nat) :
    (∃ ranking, Ranking name candidates bound ranking ∧
      similarNames name candidates bound = ranking.take 3) ∧
    (similarNames name candidates bound).length =
      min 3 {c | Eligible name candidates bound c}.ncard ∧
    (similarNames name candidates bound).Nodup ∧ name ∉ similarNames name candidates bound ∧
    (∀ c, Eligible name candidates bound c → c ∉ similarNames name candidates bound →
      ∀ offered ∈ similarNames name candidates bound, Closer name offered c) ∧
    ∀ candidates', (∀ c, c ∈ candidates' ↔ c ∈ candidates) →
      similarNames name candidates' bound = similarNames name candidates bound := by
  have hranking := ranking_ranked name candidates bound
  rw [similarNames_eq]
  -- All that follows holds of any ranking, however it was made.
  generalize (ranked name candidates bound).map (·.2) = ranking at hranking
  refine ⟨⟨ranking, hranking, rfl⟩, ?_, hranking.nodup.sublist (List.take_sublist _ _), ?_, ?_, ?_⟩
  · rw [List.length_take, hranking.length_eq]
  · intro hmem
    have heligible := (hranking.complete name).1 (List.mem_of_mem_take hmem)
    rw [Eligible, editDistance_eq_zero.2 rfl] at heligible
    omega
  · -- What is left out stands behind the first three.
    intro c hc hleft offered hoffered
    have hmem := (hranking.complete c).2 hc
    rw [← List.take_append_drop 3 ranking] at hmem
    have hsplit := hranking.ordered
    rw [← List.take_append_drop 3 ranking, List.pairwise_append] at hsplit
    exact hsplit.2.2 offered hoffered c ((List.mem_append.1 hmem).resolve_left hleft)
  · intro candidates' hsame
    rw [similarNames_eq, hranking.unique (ranking_ranked name candidates' bound) hsame]

/-- The order of the candidates and the repetition of one of them make no difference. Of two texts
at the same distance the one that comes first as a text is offered first. -/
theorem similarNames_reordered :
    (∀ c, c ∈ ["xs", "y", "x", "xs", "xx", "yy"] ↔ c ∈ ["y", "xx", "xs", "yy", "x"]) ∧
      similarNames "x" ["xs", "y", "x", "xs", "xx", "yy"] 2 =
        similarNames "x" ["y", "xx", "xs", "yy", "x"] 2 ∧
      similarNames "x" ["y", "xx", "xs", "yy", "x"] 2 = ["xs", "xx", "y"] := by
  have hsame : ∀ c, c ∈ ["xs", "y", "x", "xs", "xx", "yy"] ↔ c ∈ ["y", "xx", "xs", "yy", "x"] := by
    intro c
    simp only [List.mem_cons, List.not_mem_nil, or_false]
    tauto
  obtain ⟨-, -, -, -, -, hreordered⟩ := similarNames_spec "x" ["y", "xx", "xs", "yy", "x"] 2
  exact ⟨hsame, hreordered _ hsame, by decide +kernel⟩

end StagedCalculus

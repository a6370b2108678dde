import StagedCalculus.Term.Basic

/-!
# Finite maps from variables

A `VarMap` lists its entries by increasing variable index. Each variable has at most one entry,
so two maps with the same entries are equal.
-/

namespace StagedCalculus

/-- Finite map from variables to `α`, listed by increasing variable index. -/
structure VarMap (α : Type) where
  toList : List (VarId × α)
  sorted : toList.Pairwise fun a b => a.1.index < b.1.index
  deriving DecidableEq

namespace VarMap

variable {α : Type}

/-! ## Insertion into a sorted list -/

/-- Places an entry by its index; an entry that is there already is combined with the new one. -/
def place (combine : α → α → α) (v : VarId) (a : α) : List (VarId × α) → List (VarId × α)
  | [] => [(v, a)]
  | (w, b) :: rest =>
    if v.index < w.index then (v, a) :: (w, b) :: rest
    else if w.index < v.index then (w, b) :: place combine v a rest
    else (w, combine b a) :: rest

theorem lt_of_mem_place {combine : α → α → α} {v : VarId} {a : α} {n : Nat}
    {entries : List (VarId × α)} (hv : n < v.index) (hall : ∀ e ∈ entries, n < e.1.index) :
    ∀ e ∈ place combine v a entries, n < e.1.index := by
  induction entries with
  | nil => simpa [place] using hv
  | cons head rest ih =>
    obtain ⟨w, b⟩ := head
    have hw : n < w.index := hall (w, b) (by simp)
    have hrest : ∀ e ∈ rest, n < e.1.index := fun e he => hall e (by simp [he])
    intro e he
    unfold place at he
    split at he
    · rcases List.mem_cons.1 he with rfl | he
      · exact hv
      · exact hall e he
    · split at he
      · rcases List.mem_cons.1 he with rfl | he
        · exact hw
        · exact ih hrest e he
      · rcases List.mem_cons.1 he with rfl | he
        · exact hw
        · exact hrest e he

theorem place_sorted {combine : α → α → α} {v : VarId} {a : α} {entries : List (VarId × α)}
    (h : entries.Pairwise fun a b => a.1.index < b.1.index) :
    (place combine v a entries).Pairwise fun a b => a.1.index < b.1.index := by
  induction entries with
  | nil => simp [place]
  | cons head rest ih =>
    obtain ⟨w, b⟩ := head
    obtain ⟨hhead, hrest⟩ := List.pairwise_cons.1 h
    unfold place
    split
    · rename_i hlt
      refine List.pairwise_cons.2 ⟨fun e he => ?_, h⟩
      rcases List.mem_cons.1 he with rfl | he
      · exact hlt
      · exact Nat.lt_trans hlt (hhead e he)
    · split
      · rename_i hlt
        exact List.pairwise_cons.2 ⟨lt_of_mem_place hlt hhead, ih hrest⟩
      · exact List.pairwise_cons.2 ⟨hhead, hrest⟩

/-! ## Operations -/

def empty : VarMap α := ⟨[], List.Pairwise.nil⟩

instance : EmptyCollection (VarMap α) := ⟨empty⟩

def isEmpty (m : VarMap α) : Bool := m.toList.isEmpty

def get? (m : VarMap α) (v : VarId) : Option α :=
  (m.toList.find? fun e => e.1 = v).map (·.2)

def contains (m : VarMap α) (v : VarId) : Bool :=
  m.toList.any fun e => e.1 = v

/-- The variables of the map, by increasing index. -/
def vars (m : VarMap α) : List VarId := m.toList.map (·.1)

/-- Adds an entry. An entry that is there already is combined with the new one. -/
def insertWith (combine : α → α → α) (m : VarMap α) (v : VarId) (a : α) : VarMap α :=
  ⟨place combine v a m.toList, place_sorted m.sorted⟩

/-- Adds an entry, replacing one that is there already. -/
def insert (m : VarMap α) (v : VarId) (a : α) : VarMap α :=
  m.insertWith (fun _ new => new) v a

def erase (m : VarMap α) (v : VarId) : VarMap α :=
  ⟨m.toList.filter fun e => e.1 ≠ v, m.sorted.filter _⟩

/-! ## What a look-up sees -/

theorem contains_eq (m : VarMap α) (v : VarId) : m.contains v = (m.get? v).isSome := by
  rw [Bool.eq_iff_iff]
  simp [contains, get?]

/-- An entry is what a look-up of its variable finds, since no other entry has that variable. -/
theorem mem_toList {m : VarMap α} {v : VarId} {a : α} : (v, a) ∈ m.toList ↔ m.get? v = some a := by
  constructor
  · intro h
    have hfind : m.toList.find? (fun e => e.1 = v) = some (v, a) := by
      rw [List.find?_eq_some_iff_append]
      obtain ⟨before, after, hsplit⟩ := List.append_of_mem h
      refine ⟨by simp, before, after, hsplit, fun e he => ?_⟩
      have hsorted := m.sorted
      rw [hsplit] at hsorted
      have hlt := (List.pairwise_append.1 hsorted).2.2 e he (v, a) (by simp)
      simp only [Bool.not_eq_true', decide_eq_false_iff_not]
      rintro rfl
      exact Nat.lt_irrefl _ hlt
    simp [get?, hfind]
  · intro h
    obtain ⟨⟨w, b⟩, hfind, rfl⟩ := Option.map_eq_some_iff.1 h
    have hw : w = v := by simpa using List.find?_some hfind
    exact hw ▸ List.mem_of_find?_eq_some hfind

theorem mem_vars {m : VarMap α} {v : VarId} : v ∈ m.vars ↔ (m.get? v).isSome = true := by
  simp [vars, get?, List.find?_isSome]

theorem find?_place {combine : α → α → α} {v w : VarId} {a : α} {entries : List (VarId × α)}
    (h : entries.Pairwise fun a b => a.1.index < b.1.index) :
    (place combine v a entries).find? (fun e => e.1 = w) =
      if w = v then
        some (v, ((entries.find? fun e => e.1 = v).map fun e => combine e.2 a).getD a)
      else entries.find? fun e => e.1 = w := by
  induction entries with
  | nil =>
    by_cases hw : w = v
    · simp [place, hw]
    · simp [place, hw, Ne.symm hw]
  | cons head rest ih =>
    obtain ⟨u, b⟩ := head
    obtain ⟨hhead, hrest⟩ := List.pairwise_cons.1 h
    unfold place
    split
    · rename_i hlt
      -- The new entry is the least, so the variable was absent before.
      have habsent : ∀ e ∈ (u, b) :: rest, e.1 ≠ v := by
        intro e he heq
        rcases List.mem_cons.1 he with rfl | he
        · exact Nat.lt_irrefl _ (heq ▸ hlt)
        · have hgt : u.index < e.1.index := hhead e he
          rw [heq] at hgt
          exact Nat.lt_asymm hgt hlt
      have hnone : ((u, b) :: rest).find? (fun e => e.1 = v) = none := by
        simpa using habsent
      by_cases hw : w = v
      · subst hw
        simp [hnone]
      · rw [List.find?_cons_of_neg (by simpa using Ne.symm hw), if_neg hw]
    · split
      · rename_i hlt
        have huv : u ≠ v := fun heq => Nat.lt_irrefl _ (heq ▸ hlt)
        by_cases huw : u = w
        · subst huw
          simp [huv]
        · rw [List.find?_cons_of_neg (by simpa using huw), ih hrest,
            List.find?_cons_of_neg (by simpa using huv),
            List.find?_cons_of_neg (by simpa using huw)]
      · rename_i hnlt hngt
        have huv : u = v := by
          obtain ⟨i⟩ := u
          obtain ⟨j⟩ := v
          exact congrArg VarId.mk (Nat.le_antisymm (Nat.le_of_not_lt hnlt) (Nat.le_of_not_lt hngt))
        subst huv
        by_cases hw : w = u
        · subst hw
          simp
        · rw [List.find?_cons_of_neg (by simpa using Ne.symm hw), if_neg hw,
            List.find?_cons_of_neg (by simpa using Ne.symm hw)]

theorem get?_insertWith (combine : α → α → α) (m : VarMap α) (v w : VarId) (a : α) :
    (m.insertWith combine v a).get? w =
      if w = v then some (((m.get? v).map fun b => combine b a).getD a) else m.get? w := by
  unfold get? insertWith
  rw [find?_place m.sorted]
  by_cases hw : w = v
  · simp only [hw, if_true, Option.map_some, Option.map_map]
    rfl
  · simp only [hw, if_false]

theorem get?_insert (m : VarMap α) (v w : VarId) (a : α) :
    (m.insert v a).get? w = if w = v then some a else m.get? w := by
  unfold insert
  rw [get?_insertWith]
  cases m.get? v <;> rfl

theorem get?_erase (m : VarMap α) (v w : VarId) :
    (m.erase v).get? w = if w = v then none else m.get? w := by
  unfold get? erase
  by_cases hw : w = v
  · subst hw
    simp
  · rw [if_neg hw, List.find?_filter]
    congr 2
    funext e
    by_cases he : e.1 = w
    · simp [he, hw]
    · simp [he]

end VarMap

end StagedCalculus

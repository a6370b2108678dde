import Mathlib.Data.List.Basic
import Mathlib.Order.MinMax
import StagedCalculus.Proofs.Term.Parts

/-!
# Occurrences of a variable

Where a subterm stands in its node decides which of its variables the node binds, and whether they
are used inside a type. This module lists the subterms with both facts (`Shape.parts`), and states

* how strongly each operation on sets of free variables leaves a variable used
  (`FreeVariables.le_rank_union` and the lemmas after it);
* what this comes to at a node (`Shape.le_rank_freeVariables`): a variable is used in a node exactly
  as strongly as in the parts that do not bind it, any use in a type being a use inside a type.
-/

namespace StagedCalculus

/-! ## Parts of a node -/

/-- A subterm as it stands in its node. -/
structure Part (α : Type) where
  /-- The variables that the node binds in the subterm. -/
  bound : List VarId
  isType : Bool
  term : α

namespace Part

variable {α β : Type}

def map (f : α → β) (part : Part α) : Part β := ⟨part.bound, part.isType, f part.term⟩

/-- The same subterm inside the scope of more variables. -/
def under (vars : List VarId) (part : Part α) : Part α := { part with bound := vars ++ part.bound }

end Part

namespace Shape

variable {α β : Type}

/-- The values of sequential bindings. Each variable scopes over the values after its own. -/
def letParts : List (VarId × α) → List (Part α)
  | [] => []
  | (v, value) :: rest => ⟨[], false, value⟩ :: (letParts rest).map (Part.under [v])

/-- The direct subterms, each with the variables bound there and whether it is a type. -/
def parts : Shape α → List (Part α)
  | .abstraction lets params body =>
    let scope := lets.map (·.1) ++ params.map (·.1)
    letParts lets ++ params.map (fun p => ⟨scope, true, p.2⟩) ++ [⟨scope, false, body⟩]
  | .forAll vars body => [⟨vars, false, body⟩]
  | shape =>
    shape.typeParts.map (fun ty => ⟨[], true, ty⟩) ++
      shape.valueParts.map fun value => ⟨[], false, value⟩

theorem letParts_map (f : α → β) (lets : List (VarId × α)) :
    letParts (lets.map fun e => (e.1, f e.2)) = (letParts lets).map (Part.map f) := by
  induction lets with
  | nil => rfl
  | cons b rest ih =>
    simp only [List.map_cons, letParts, ih, List.map_map, List.cons.injEq]
    exact ⟨rfl, rfl⟩

theorem parts_map (f : α → β) (shape : Shape α) :
    (shape.map f).parts = shape.parts.map (Part.map f) := by
  cases shape <;>
    simp [map, parts, letParts_map, typeParts, valueParts, Part.map, Slot.map, Function.comp_def]

theorem mem_letParts {lets : List (VarId × α)} {part : Part α} (h : part ∈ letParts lets) :
    part.isType = false ∧ part.term ∈ lets.map (·.2) := by
  induction lets generalizing part with
  | nil => cases h
  | cons b rest ih =>
    rcases List.mem_cons.1 h with rfl | h
    · exact ⟨rfl, List.mem_cons_self⟩
    · obtain ⟨inner, hinner, rfl⟩ := List.mem_map.1 h
      obtain ⟨htype, hmem⟩ := ih hinner
      exact ⟨htype, List.mem_cons_of_mem b.2 hmem⟩

theorem exists_letPart {lets : List (VarId × α)} {b : VarId × α} (h : b ∈ lets) :
    ∃ part ∈ letParts lets, part.term = b.2 ∧ ∀ v ∈ part.bound, v ∈ lets.map (·.1) := by
  induction lets with
  | nil => cases h
  | cons first rest ih =>
    rcases List.mem_cons.1 h with rfl | hmem
    · exact ⟨⟨[], false, b.2⟩, List.mem_cons_self, rfl, by simp⟩
    · obtain ⟨part, hpart, hterm, hbound⟩ := ih hmem
      refine ⟨part.under [first.1], List.mem_cons_of_mem _ (List.mem_map_of_mem hpart), hterm,
        fun v hv => ?_⟩
      rcases List.mem_append.1 hv with hfirst | hrest
      · exact List.mem_singleton.1 hfirst ▸ List.mem_cons_self
      · exact List.mem_cons_of_mem _ (hbound v hrest)

/-- A part is a subterm, in the position that it says. -/
theorem term_mem_of_mem_parts {shape : Shape α} {part : Part α} (h : part ∈ shape.parts) :
    part.term ∈ if part.isType then shape.typeParts else shape.valueParts := by
  cases shape with
  | abstraction lets params body =>
    simp only [parts, List.mem_append, List.mem_map, List.mem_singleton] at h
    rcases h with (h | ⟨p, hp, rfl⟩) | rfl
    · obtain ⟨htype, hmem⟩ := mem_letParts h
      rw [htype]
      exact List.mem_append_left _ hmem
    · exact List.mem_map.2 ⟨p, hp, rfl⟩
    · exact List.mem_append_right _ (List.mem_singleton_self _)
  | forAll vars body =>
    rw [parts, List.mem_singleton] at h
    subst h
    exact List.mem_singleton_self _
  | _ =>
    simp only [parts, List.mem_append, List.mem_map] at h
    rcases h with ⟨ty, hty, rfl⟩ | ⟨value, hvalue, rfl⟩
    · exact hty
    · exact hvalue

/-- Every subterm is a part, and whatever is bound there is bound by the node. -/
theorem exists_part {shape : Shape α} {child : α} (h : child ∈ shape.children) :
    ∃ part ∈ shape.parts, part.term = child ∧ ∀ v ∈ part.bound, v ∈ shape.binders := by
  cases shape with
  | abstraction lets params body =>
    simp only [children, List.mem_append, List.mem_map, List.mem_singleton] at h
    rcases h with (⟨b, hb, rfl⟩ | ⟨p, hp, rfl⟩) | rfl
    · obtain ⟨part, hpart, hterm, hbound⟩ := exists_letPart hb
      exact ⟨part, List.mem_append_left _ (List.mem_append_left _ hpart), hterm,
        fun v hv => List.mem_append_left _ (hbound v hv)⟩
    · exact ⟨_, List.mem_append_left _ (List.mem_append_right _ (List.mem_map_of_mem hp)), rfl,
        fun v hv => hv⟩
    · exact ⟨_, List.mem_append_right _ (List.mem_singleton_self _), rfl, fun v hv => hv⟩
  | forAll vars body =>
    rw [children, List.mem_singleton] at h
    exact ⟨_, List.mem_singleton_self _, h.symm, fun v hv => hv⟩
  | _ =>
    rcases mem_children.1 h with htype | hvalue
    · exact ⟨_, List.mem_append_left _ (List.mem_map_of_mem htype), rfl, by simp⟩
    · exact ⟨_, List.mem_append_right _ (List.mem_map_of_mem hvalue), rfl, by simp⟩

theorem term_mem_children {shape : Shape α} {part : Part α} (h : part ∈ shape.parts) :
    part.term ∈ shape.children := by
  have hmem := term_mem_of_mem_parts h
  rw [mem_children]
  split at hmem
  · exact Or.inl hmem
  · exact Or.inr hmem

end Shape

/-! ## Uses left by the operations -/

namespace FreeVariables

variable {fv other : FreeVariables} {v w : VarId} {n : Nat}

theorem rank_le_two (fv : FreeVariables) (v : VarId) : fv.rank v ≤ 2 := by
  unfold rank
  split <;> simp

theorem le_rank_iff_mem (fv : FreeVariables) (hn : 0 < n) :
    n ≤ fv.rank v ↔ ∃ usage, (v, usage) ∈ fv.toList ∧ n ≤ if usage = .intoType then 2 else 1 := by
  constructor
  · intro h
    cases hget : fv.get? v with
    | none =>
      rw [rank, hget] at h
      exact absurd h (Nat.not_le_of_lt hn)
    | some usage => exact ⟨usage, VarMap.mem_toList.2 hget, rank_of_get? hget ▸ h⟩
  · rintro ⟨usage, hmem, h⟩
    rwa [rank_of_get? (VarMap.mem_toList.1 hmem)]

/-- Uses are collected one after the other, and the strongest of them is left. -/
theorem le_rank_foldl_use {entries : List (VarId × Usage)} (usage : VarId × Usage → Usage) :
    n ≤ (entries.foldl (fun acc e => acc.use e.1 (usage e)) fv).rank v ↔
      n ≤ fv.rank v ∨ ∃ e ∈ entries, e.1 = v ∧ n ≤ if usage e = .intoType then 2 else 1 := by
  induction entries generalizing fv with
  | nil => simp
  | cons e rest ih =>
    rw [List.foldl_cons, ih]
    simp only [List.mem_cons, exists_eq_or_imp, ← or_assoc]
    refine or_congr_left ?_
    by_cases hv : v = e.1
    · subst hv
      rw [rank_use_self, le_max_iff]
      simp
    · rw [rank_use_of_ne hv]
      simp [Ne.symm hv]

theorem le_rank_union : n ≤ (fv.union other).rank v ↔ n ≤ fv.rank v ∨ n ≤ other.rank v := by
  refine (le_rank_foldl_use Prod.snd).trans ?_
  rcases Nat.eq_zero_or_pos n with rfl | hn
  · simp
  · rw [le_rank_iff_mem other hn]
    grind

/-- Every use in a type position is a use inside a type. -/
theorem le_rank_unionAsType (hn : n ≤ 2) :
    n ≤ (fv.unionAsType other).rank v ↔ n ≤ fv.rank v ∨ 1 ≤ other.rank v := by
  refine (le_rank_foldl_use fun _ => .intoType).trans ?_
  rw [le_rank_iff_mem other Nat.one_pos]
  have hone : ∀ usage : Usage, 1 ≤ if usage = .intoType then 2 else 1 := by
    intro usage
    cases usage <;> decide
  simp only [hone, and_true, if_true, hn]
  grind

theorem le_rank_erase (hn : 0 < n) :
    n ≤ FreeVariables.rank (fv.erase w) v ↔ v ≠ w ∧ n ≤ fv.rank v := by
  by_cases hv : v = w
  · rw [rank, VarMap.get?_erase, if_pos hv]
    simp [hv, Nat.pos_iff_ne_zero.1 hn]
  · rw [rank, VarMap.get?_erase, if_neg hv]
    simp [hv, rank]

theorem le_rank_eraseAll {vars : List VarId} (hn : 0 < n) :
    n ≤ (fv.eraseAll vars).rank v ↔ v ∉ vars ∧ n ≤ fv.rank v := by
  induction vars generalizing fv with
  | nil => simp [eraseAll]
  | cons w rest ih =>
    change n ≤ FreeVariables.rank (eraseAll (fv.erase w) rest) v ↔ _
    rw [ih, le_rank_erase hn, List.mem_cons, not_or]
    grind

section Folds

variable {γ : Type} {terms : List γ} (f : γ → FreeVariables)

theorem le_rank_foldl_union :
    n ≤ (terms.foldl (fun acc t => acc.union (f t)) fv).rank v ↔
      n ≤ fv.rank v ∨ ∃ t ∈ terms, n ≤ (f t).rank v := by
  induction terms generalizing fv with
  | nil => simp
  | cons t rest ih =>
    rw [List.foldl_cons, ih, le_rank_union]
    simp only [List.mem_cons, exists_eq_or_imp, or_assoc]

theorem le_rank_foldl_unionAsType (hn : n ≤ 2) :
    n ≤ (terms.foldl (fun acc t => acc.unionAsType (f t)) fv).rank v ↔
      n ≤ fv.rank v ∨ ∃ t ∈ terms, 1 ≤ (f t).rank v := by
  induction terms generalizing fv with
  | nil => simp
  | cons t rest ih =>
    rw [List.foldl_cons, ih, le_rank_unionAsType hn]
    simp only [List.mem_cons, exists_eq_or_imp, or_assoc]

end Folds

end FreeVariables

/-! ## Uses in a node -/

/-- The part uses a variable that the node does not bind there at least so strongly. A type uses its
variables inside a type, however it mentions them itself. -/
def Part.Uses (n : Nat) (v : VarId) (part : Part FreeVariables) : Prop :=
  v ∉ part.bound ∧ (if part.isType then 1 else n) ≤ part.term.rank v

theorem Part.uses_under {n : Nat} {v : VarId} {vars : List VarId} {part : Part FreeVariables} :
    (part.under vars).Uses n v ↔ v ∉ vars ∧ part.Uses n v := by
  rw [Uses, Uses, under, List.mem_append, not_or, and_assoc]

namespace Shape

open FreeVariables

variable {n : Nat} {v : VarId}

theorem le_rank_variable {w : VarId} (hn : 0 < n) :
    n ≤ (freeVariables (.variable w)).rank v ↔ n = 1 ∧ w = v := by
  change n ≤ (use ∅ w .intoValue).rank v ↔ _
  by_cases hv : v = w
  · subst hv
    rw [rank_use_self]
    simp
    omega
  · rw [rank_use_of_ne hv, rank_empty]
    simp [Ne.symm hv]
    omega

/-- The last binding is removed first, so a value keeps its own variable and those after it. -/
theorem le_rank_underLets {lets : List (VarId × FreeVariables)} {fv : FreeVariables} (hn : 0 < n) :
    n ≤ (underLets lets fv).rank v ↔
      (v ∉ lets.map (·.1) ∧ n ≤ fv.rank v) ∨ ∃ part ∈ letParts lets, part.Uses n v := by
  induction lets with
  | nil => simp [underLets, letParts]
  | cons b rest ih =>
    have hinner : (∃ part ∈ (letParts rest).map (Part.under [b.1]), part.Uses n v) ↔
        v ≠ b.1 ∧ ∃ part ∈ letParts rest, part.Uses n v := by
      simp only [List.mem_map, exists_exists_and_eq_and, Part.uses_under, List.mem_singleton]
      grind
    change n ≤ (union ((underLets rest fv).erase b.1) b.2).rank v ↔ _
    rw [le_rank_union, le_rank_erase hn, ih, letParts]
    simp only [List.map_cons, List.mem_cons, exists_eq_or_imp, hinner, not_or]
    simp only [Part.Uses, List.not_mem_nil, not_false_eq_true, true_and, Bool.false_eq_true,
      if_false]
    grind

/-- A node uses a variable as strongly as its parts do, where they do not bind it. -/
theorem le_rank_freeVariables {shape : Shape FreeVariables} (hn : 0 < n) (hn2 : n ≤ 2) :
    n ≤ shape.freeVariables.rank v ↔
      (n = 1 ∧ shape = .variable v) ∨ ∃ part ∈ shape.parts, part.Uses n v := by
  have hempty : ¬ n ≤ FreeVariables.rank ∅ v := Nat.not_le_of_lt hn
  cases shape with
  | «variable» w => simp [le_rank_variable hn, parts, typeParts, valueParts]
  | abstraction lets params body =>
    rw [freeVariables, le_rank_underLets hn, le_rank_eraseAll hn,
      le_rank_foldl_unionAsType Prod.snd hn2, le_rank_union]
    simp only [hempty, parts, List.mem_append, List.mem_map, List.mem_singleton, or_and_right,
      exists_or, exists_eq_left, exists_exists_and_eq_and]
    simp only [Part.Uses, List.mem_append, if_true, Bool.false_eq_true, if_false]
    grind
  | forAll vars body =>
    rw [freeVariables, le_rank_eraseAll hn, le_rank_union, or_iff_right hempty]
    simp [parts, Part.Uses]
  | application callee args =>
    refine (le_rank_foldl_union id).trans ?_
    rw [le_rank_union, or_iff_right hempty]
    simp [parts, typeParts, valueParts, Part.Uses]
  | cast subject target =>
    rw [freeVariables, le_rank_unionAsType hn2, le_rank_union, or_iff_right hempty, or_comm]
    simp [parts, typeParts, valueParts, Part.Uses]
  | _ =>
    simp only [freeVariables, le_rank_union, le_rank_unionAsType hn2, le_rank_foldl_union,
      le_rank_foldl_unionAsType _ hn2, hempty, false_or]
    simp [parts, typeParts, valueParts, Part.Uses, or_and_right, exists_or]

/-- A variable that is no leaf and unused in type positions is used no more strongly in a node than
in its value positions. -/
theorem rank_freeVariables_le {shape : Shape FreeVariables} (hleaf : v ∈ shape.leaf → 1 ≤ n)
    (htypes : ∀ part ∈ shape.typeParts, part.rank v = 0)
    (hvalues : ∀ part ∈ shape.valueParts, part.rank v ≤ n) : shape.freeVariables.rank v ≤ n := by
  refine Nat.le_of_not_lt fun hlt => ?_
  have hn2 : n + 1 ≤ 2 := Nat.le_trans hlt (rank_le_two _ v)
  rcases (le_rank_freeVariables (Nat.succ_pos n) hn2).1 hlt with ⟨hn, rfl⟩ | ⟨part, hpart, -, huses⟩
  · have := hleaf (List.mem_singleton_self v)
    omega
  · have hmem := term_mem_of_mem_parts hpart
    split at hmem
    · simp [*] at huses
    · have := hvalues part.term hmem
      simp [*] at huses
      omega

end Shape

end StagedCalculus

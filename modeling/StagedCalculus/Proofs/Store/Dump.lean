import StagedCalculus.Proofs.Term.Parts
import StagedCalculus.Store.Dump

/-!
# Well-nested dumps

This module shows that the markers of every dump are nested like parentheses, and says what a dump
is rendered as without the counter of levels.

* `Dump.level?` counts the levels as rendering does, but has no answer where a level is closed that
  is not open;
* `Dump.WellNested`: a dump that leads from any level back to it. Such dumps may be put one after
  the other and one level below a line, which is all that the dump of a term does with those of its
  subterms (`Shape.wellNested_dump`);
* `Dump.renderedLine?`: the line that the item at a position is rendered as, which depends on the
  markers in front of it alone;
* `Store.dump_wellNested`: what can be relied on in the dump of a term.
-/

namespace StagedCalculus

namespace Dump

/-! ## Levels -/

/-- The level behind the items, counted from a level on, if none is closed that is not open. -/
def level? : Nat → Dump → Option Nat
  | level, [] => some level
  | level, .indent :: rest => level? (level + 1) rest
  | 0, .dedent :: _ => none
  | level + 1, .dedent :: rest => level? level rest
  | level, .text _ :: rest => level? level rest

/-- From any level on, the items lead back to it and close no level that they did not open. -/
def WellNested (dump : Dump) : Prop := ∀ level, level? level dump = some level

variable {dump first second : Dump} {level level' : Nat}

theorem level?_append (level : Nat) (first second : Dump) :
    level? level (first ++ second) = (level? level first).bind fun level' => level? level' second := by
  fun_induction level? level first with
  | case1 level => rfl
  | case2 level rest ih => exact ih
  | case3 rest => rfl
  | case4 level rest ih => exact ih
  | case5 level line rest ih => exact ih

/-- Each level that is open was opened and not closed. -/
theorem count_of_level? (h : level? level dump = some level') :
    level + dump.count .indent = level' + dump.count .dedent := by
  fun_induction level? level dump with
  | case1 level =>
    cases h
    rfl
  | case2 level rest ih =>
    have hrest := ih h
    simp only [List.count_cons, reduceCtorEq, beq_iff_eq, if_true, if_false, BEq.rfl]
    omega
  | case3 rest => cases h
  | case4 level rest ih =>
    have hrest := ih h
    simp only [List.count_cons, reduceCtorEq, beq_iff_eq, if_true, if_false, BEq.rfl]
    omega
  | case5 level line rest ih =>
    have hrest := ih h
    simp only [List.count_cons, reduceCtorEq, beq_iff_eq, if_false]
    omega

theorem exists_level?_of_append (h : level? level (first ++ second) = some level') :
    ∃ between, level? level first = some between ∧ level? between second = some level' := by
  rw [level?_append] at h
  exact Option.bind_eq_some_iff.1 h

/-! ## Building well-nested dumps -/

namespace WellNested

theorem nil : WellNested [] := fun _ => rfl

theorem text (line : String) : WellNested [.text line] := fun _ => rfl

theorem append (h : WellNested first) (h' : WellNested second) : WellNested (first ++ second) := by
  intro level
  rw [level?_append, h level, Option.bind_some, h' level]

theorem nested (h : WellNested dump) : WellNested (nested dump) := by
  intro level
  change level? (level + 1) (dump ++ [.dedent]) = some level
  rw [level?_append, h (level + 1)]
  rfl

theorem headed (line : String) (h : WellNested dump) : WellNested (headed line dump) :=
  (text line).append h.nested

theorem flatMap {α : Type} {l : List α} {f : α → Dump} (h : ∀ x ∈ l, WellNested (f x)) :
    WellNested (l.flatMap f) := by
  induction l with
  | nil => exact nil
  | cons x l ih =>
    rw [List.flatMap_cons]
    exact (h x List.mem_cons_self).append (ih fun y hy => h y (List.mem_cons_of_mem x hy))

end WellNested

/-! ## Rendering -/

/-- The number of levels that are opened and not closed. -/
def unclosed (dump : Dump) : Nat := dump.count .indent - dump.count .dedent

/-- What an item is rendered as on a level: two spaces for each level that is open, the text, and
the end of the line. There is nothing to render of a marker. -/
def renderedItem? (level : Nat) : DumpLine → Option String
  | .text line => some (String.join (List.replicate level "  ") ++ line ++ "\n")
  | _ => none

/-- What the item at a position is rendered as, the levels being those unclosed in front of it. -/
def renderedLine? (dump : Dump) (i : Nat) : Option String :=
  dump[i]?.bind (renderedItem? (unclosed (dump.take i)))

theorem unclosed_of_level? (h : level? 0 dump = some level) : unclosed dump = level := by
  have hcount := count_of_level? h
  rw [unclosed]
  omega

/-- Rendering goes on behind some items at the level that they lead to. -/
theorem renderAt_append (h : level? level first = some level') (second : Dump) :
    renderAt level (first ++ second) = renderAt level first ++ renderAt level' second := by
  fun_induction level? level first with
  | case1 level =>
    cases h
    rfl
  | case2 level rest ih => exact ih h
  | case3 rest => cases h
  | case4 level rest ih => exact ih h
  | case5 level line rest ih =>
    rw [List.cons_append, renderAt, renderAt, ih h, List.cons_append]

/-- The lines from a position on, as long as no level is closed that is not open. -/
theorem renderAt_eq (before rest : Dump) (hbefore : level? 0 before = some level)
    (hrest : level? level rest = some level') :
    renderAt level rest = (List.range rest.length).filterMap fun i =>
      renderedLine? (before ++ rest) (before.length + i) := by
  induction rest generalizing before level with
  | nil => rfl
  | cons item rest ih =>
    -- The first item belongs to what stands in front of the others.
    have hitems : level? level ([item] ++ rest) = some level' := hrest
    obtain ⟨between, hitem, hrest⟩ := exists_level?_of_append hitems
    have hnext : level? 0 (before ++ [item]) = some between := by
      rw [level?_append, hbefore, Option.bind_some, hitem]
    have htail := ih (before ++ [item]) hnext hrest
    simp only [List.append_assoc, List.singleton_append, List.length_append, List.length_singleton,
      Nat.add_assoc, Nat.add_comm 1] at htail
    have hhead : renderedLine? (before ++ item :: rest) (before.length + 0) =
        renderedItem? level item := by
      rw [renderedLine?, Nat.add_zero, List.getElem?_append_right (Nat.le_refl _), Nat.sub_self,
        List.getElem?_cons_zero, List.take_left, unclosed_of_level? hbefore, Option.bind_some]
    rw [List.length_cons, List.range_succ_eq_map, List.filterMap_cons, hhead, List.filterMap_map]
    cases item with
    | indent =>
      cases hitem
      exact htail
    | dedent =>
      cases level with
      | zero => cases hitem
      | succ level =>
        cases hitem
        exact htail
    | text line =>
      cases hitem
      exact congrArg _ htail

end Dump

namespace Shape

open Dump

variable {s : Store} {shape : Shape (TermId × Dump)}

/-! ## One node -/

/-- The dump of a node starts with a line of text. -/
theorem dump_eq_cons (s : Store) (shape : Shape (TermId × Dump)) :
    ∃ line rest, shape.dump s = .text line :: rest := by
  cases shape <;> exact ⟨_, _, rfl⟩

/-- The dump of a node is well nested if those of its subterms are. -/
theorem wellNested_dump (h : ∀ child ∈ shape.children, WellNested child.2) :
    WellNested (shape.dump s) := by
  cases shape with
  | abstraction lets params body =>
    simp only [children, List.mem_append, List.mem_map, List.mem_singleton] at h
    have hbindings : WellNested (lets.flatMap fun e =>
        headed ("let " ++ s.variableName e.1 ++ " =") e.2.2) :=
      .flatMap fun e he => .headed _ (h e.2 (.inl (.inl ⟨e, he, rfl⟩)))
    -- Between the bindings and the result stands the line of the parameters, if there are any.
    refine .headed _ ((hbindings.append ?_).append (.headed _ (h body (.inr rfl))))
    split
    · exact .nil
    · exact .text _
  | forAll vars body => exact .headed _ (h body (List.mem_singleton_self body))
  | application callee args =>
    have hargs : WellNested (args.flatMap (·.2)) :=
      .flatMap fun arg harg => h arg (List.mem_cons_of_mem callee harg)
    exact .headed _ ((h callee List.mem_cons_self).append hargs)
  | projection domain field => exact .headed _ (h domain (List.mem_singleton_self domain))
  | cast subject target => exact .headed _ (h subject List.mem_cons_self)
  | productValue ty fields =>
    refine .headed _ (.flatMap fun e he => .headed _ (h e.2 ?_))
    exact List.mem_cons_of_mem ty (List.mem_map_of_mem he)
  | _ => exact .text _

end Shape

namespace Store

open Dump

variable {s : Store} {t : TermId}

/-! ## Whole terms -/

theorem wellNested_foldTo (s : Store) (depth : Nat) (t : TermId) :
    WellNested (s.foldTo [] (fun shape => shape.dump s) depth t) := by
  -- The subterms of a node are dumped with one step less to go.
  induction depth generalizing t with
  | zero => exact .nil
  | succ depth ih =>
    refine Shape.wellNested_dump fun child hchild => ?_
    rw [Shape.children_map, List.mem_map] at hchild
    obtain ⟨child, -, rfl⟩ := hchild
    exact ih child

/-- The dump of a term closes every level that it opens and no other one, starts with a line of
text, and is rendered line by line: two spaces for each level that is unclosed in front of a line,
and the line. Where rendering meets the end of a level, it is some levels down: behind the items in
front of that marker it would render anything from there on. -/
theorem dump_wellNested (s : Store) (t : TermId) :
    (s.dump t).count .indent = (s.dump t).count .dedent ∧
    (∀ before, before <+: s.dump t → before.count .dedent ≤ before.count .indent) ∧
    (∃ line rest, s.dump t = .text line :: rest) ∧
    (s.dump t).render =
      String.join ((List.range (s.dump t).length).filterMap (renderedLine? (s.dump t))) ∧
    ∀ before rest, s.dump t = before ++ .dedent :: rest → ∃ level, ∀ further,
      renderAt 0 (before ++ further) = renderAt 0 before ++ renderAt (level + 1) further := by
  have hnested : WellNested (s.dump t) := wellNested_foldTo s (t.index + 1) t
  refine ⟨?_, ?_, Shape.dump_eq_cons s _, ?_, ?_⟩
  · simpa using count_of_level? (hnested 0)
  · -- The items in front of any position lead to some level, so they close no more than they open.
    rintro before ⟨rest, hdump⟩
    obtain ⟨level, hlevel, -⟩ := exists_level?_of_append (hdump ▸ hnested 0)
    have hcount := count_of_level? hlevel
    omega
  · have hlines := renderAt_eq [] (s.dump t) rfl (hnested 0)
    rw [render, hlines]
    simp
  · intro before rest hdump
    obtain ⟨level, hlevel, hrest⟩ := exists_level?_of_append (hdump ▸ hnested 0)
    cases level with
    | zero => cases hrest
    | succ level => exact ⟨level, renderAt_append hlevel⟩

end Store

end StagedCalculus

import StagedCalculus.Term.Basic

/-!
# Contexts

A context binds variables to terms in a chain of frames. Within one frame a variable is bound at
most once; an inner frame may shadow the frames around it.
-/

namespace StagedCalculus

/-- The bindings of one frame. -/
abbrev Frame := List (VarId × TermId)

namespace Frame

def get? (frame : Frame) (v : VarId) : Option TermId :=
  (frame.find? fun e => e.1 = v).map (·.2)

end Frame

/-- A chain of frames; bindings are added to the innermost one. -/
structure Context where
  innermost : Frame
  outer : List Frame
  deriving DecidableEq

namespace Context

/-- An empty frame with nothing around it. -/
def root : Context := ⟨[], []⟩

/-- An empty frame inside a context. -/
def child (ctx : Context) : Context := ⟨[], ctx.innermost :: ctx.outer⟩

def frames (ctx : Context) : List Frame := ctx.innermost :: ctx.outer

/-- The term of the innermost frame that binds a variable. -/
def get? (ctx : Context) (v : VarId) : Option TermId :=
  ctx.frames.findSome? fun frame => frame.get? v

/-- Binds a variable in the innermost frame, unless that frame binds it already. -/
def bind? (ctx : Context) (v : VarId) (t : TermId) : Option Context :=
  match ctx.innermost.get? v with
  | some _ => none
  | none => some { ctx with innermost := (v, t) :: ctx.innermost }

theorem get?_child (ctx : Context) (v : VarId) : ctx.child.get? v = ctx.get? v := by
  simp [get?, child, frames, Frame.get?, List.findSome?_cons]

theorem get?_bind? {ctx bound : Context} {v : VarId} {t : TermId} (h : ctx.bind? v t = some bound)
    (w : VarId) : bound.get? w = if w = v then some t else ctx.get? w := by
  unfold bind? at h
  cases hv : ctx.innermost.get? v with
  | some value => simp [hv] at h
  | none =>
    simp only [hv, Option.some.injEq] at h
    subst h
    by_cases hw : w = v
    · subst hw
      simp [get?, frames, Frame.get?]
    · have hskip : Frame.get? ((v, t) :: ctx.innermost) w = Frame.get? ctx.innermost w := by
        simp [Frame.get?, Ne.symm hw]
      simp only [get?, frames, List.findSome?_cons, hskip, if_neg hw]

end Context

end StagedCalculus

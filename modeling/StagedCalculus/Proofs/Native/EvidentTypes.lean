import StagedCalculus.Proofs.Native.Stdio
import StagedCalculus.Proofs.Staging.Idempotence
import StagedCalculus.Proofs.Staging.TypeLaw

/-!
# Types that can be read off a term

The type of a numeral, a native, a reduced product or a projection of one can be read off the term.
This module shows that inference gives the type that one reads, whatever it remembers.

* `Store.Evident`: such a term with its type;
* `evidentLaw`: inference of such a term gives that type, unless depth is lacking;
* `Engine.ruled_evidentLaw`: every rule follows this law, and so does what is remembered.
-/

namespace StagedCalculus

open Attempt

namespace Store

variable {s s' : Store} {scope : List VarId} {t ty : TermId}

/-- A term of a store is reduced if it is so later. -/
theorem Reduced.before (h : s'.Reduced scope t) (hs : s.Linked) (hle : s.Extends s')
    (ht : s.Allocated t) : s.Reduced scope t := by
  have hshapes : ∀ {t shape}, s.Allocated t → s'.shape t = shape → s.shape t = shape :=
    fun ht hshape => (hle.shape_eq ht).symm.trans hshape
  have hchild : ∀ {t child}, s.Allocated t → child ∈ (s'.shape t).children → s.Allocated child := by
    intro t child ht hmem
    rw [hle.shape_eq ht] at hmem
    exact hs.allocated_children ht hmem
  induction h with
  | «variable» hshape hmem => exact .variable (hshapes ht hshape) hmem
  | constant _ hconstant =>
    rw [hle.shape_eq ht] at hconstant
    exact .constant ht hconstant
  | unitValue hshape _ ih =>
    exact .unitValue (hshapes ht hshape) (ih (hchild ht (by simp [hshape, Shape.children])))
  | productValue hshape _ _ ih ihfields =>
    refine .productValue (hshapes ht hshape) (ih (hchild ht (by simp [hshape, Shape.children])))
      fun field hfield => ihfields field hfield (hchild ht ?_)
    rw [hshape]
    exact List.mem_cons_of_mem _ (List.mem_map_of_mem hfield)
  | functionType hshape _ _ ihparams ih =>
    refine .functionType (hshapes ht hshape) (fun slot hslot => ihparams slot hslot (hchild ht ?_))
      (ih (hchild ht (by simp [hshape, Shape.children])))
    rw [hshape]
    exact List.mem_append_left _ (List.mem_map_of_mem hslot)
  | productType hshape _ ih =>
    refine .productType (hshapes ht hshape) fun member hmember => ih member hmember (hchild ht ?_)
    rw [hshape]
    exact List.mem_map_of_mem hmember
  | function hshape hne hnodup _ _ ihparams ih =>
    refine .function (hshapes ht hshape) hne hnodup (fun before p after hsplit => ?_)
      (ih (hchild ht (by simp [hshape, Shape.children])))
    refine ihparams before p after hsplit (hchild ht ?_)
    rw [hshape, hsplit]
    simp [Shape.children]
  | quantified hshape hnodup hused hbody ih =>
    have hbody' := hchild ht (by rw [hshape]; exact List.mem_singleton_self _)
    refine .quantified (hshapes ht hshape) hnodup (fun v hv => ?_) (ih hbody')
    rw [← hle.freeVariables_eq hbody']
    exact hused v hv

/-- The annotation and the fields of a reduced product are reduced. -/
theorem Reduced.parts_of_product (h : s.Reduced scope t) {fields : List (String × TermId)}
    (ht : s.shape t = .productValue ty fields) :
    s.Reduced scope ty ∧ ∀ field ∈ fields, s.Reduced scope field.2 := by
  cases h with
  | productValue hshape hty hfields =>
    cases hshape.symm.trans ht
    exact ⟨hty, hfields⟩
  | constant _ hconstant =>
    rw [ht] at hconstant
    cases hconstant
  | _ hshape => cases hshape.symm.trans ht

/-- A missing term has no free variables. -/
theorem allocated_of_open (h : (s.freeVariables t).isEmpty = false) : s.Allocated t := by
  refine Classical.byContradiction fun hnot => ?_
  have hnone : s.entries[t.index]? = none := by
    simpa [Allocated] using hnot
  rw [freeVariables, entry, Array.getD_eq_getD_getElem?, hnone] at h
  cases h

/-- The native of a leaf is registered. -/
theorem Intact.native?_of_leaf (hs : s.Intact) {id : NativeId} (ht : s.shape t = .native id) :
    ∃ registered, s.native? id = some registered := by
  have howned := hs.owned t (allocated_of_shape_eq ht nofun) (.native id)
    (by simp [ht, Shape.handles, Shape.constants])
  exact ⟨_, Array.getElem?_eq_getElem howned⟩

/-! ## Types that can be read off -/

/-- The type that can be read off a numeral, a native, a reduced product or a projection of one. -/
inductive Evident (s : Store) : TermId → TermId → Prop
  | numeral {t ty : TermId} {value : Rat} : s.shape t = .numericLiteral value →
      s.shape ty = .numericLiteralType value → Evident s t ty
  | native {t : TermId} {id : NativeId} {registered : RegisteredNative} :
      s.shape t = .native id → s.native? id = some registered → Evident s t registered.signature
  | product {t ty : TermId} {fields : List (String × TermId)} :
      s.shape t = .productValue ty fields → s.Reduced [] t → Evident s t ty
  | projection {t domain ty memberType : TermId} {field key : String}
      {fields members : List (String × TermId)} :
      s.shape t = .projection domain field → s.shape domain = .productValue ty fields →
      s.Reduced [] domain → s.shape ty = .productType members →
      members.find? (fun e => e.1 = field) = some (key, memberType) → Evident s t memberType

theorem Evident.allocated (h : s.Evident t ty) : s.Allocated t := by
  cases h with
  | numeral hshape => exact allocated_of_shape_eq hshape nofun
  | native hshape => exact allocated_of_shape_eq hshape nofun
  | product hshape => exact allocated_of_shape_eq hshape nofun
  | projection hshape => exact allocated_of_shape_eq hshape nofun

theorem Evident.mono (h : s.Evident t ty) (hle : s.Extends s') : s'.Evident t ty := by
  cases h with
  | numeral hshape hty => exact .numeral (hle.shape_kept hshape nofun) (hle.shape_kept hty nofun)
  | native hshape hid => exact .native (hle.shape_kept hshape nofun) (hle.native?_eq hid)
  | product hshape hreduced => exact .product (hle.shape_kept hshape nofun) (hreduced.mono hle)
  | projection hshape hdomain hreduced hmembers hmember =>
    exact .projection (hle.shape_kept hshape nofun) (hle.shape_kept hdomain nofun)
      (hreduced.mono hle) (hle.shape_kept hmembers nofun) hmember

theorem Evident.closed (h : s.Evident t ty) (hs : s.Linked) :
    (s.freeVariables t).isEmpty = true := by
  cases h with
  | numeral hshape => exact hs.closed_of_shape hshape nofun rfl (List.forall_mem_nil _)
  | native hshape => exact hs.closed_leaf hshape
  | product _ hreduced => exact hreduced.closed hs
  | projection hshape _ hreduced =>
    exact hs.closed_of_shape hshape nofun rfl (List.forall_mem_singleton.2 (hreduced.closed hs))

end Store

/-- The answer is this type, unless depth is lacking. -/
inductive Answers (ty : TermId) : TypeAnswer → Prop
  | gives : Answers ty (.ok ty)
  | deep {limit : Nat} : Answers ty (.error (.depthExceeded limit))

/-- Inference gives the types that can be read off terms. -/
def evidentLaw : TypeLaw where
  holds s t answer := ∀ later, s.Extends later → later.Intact →
    (later.shape Store.comptimeType).isDeferred = true → ∀ ty, later.Evident t ty →
      Answers ty answer
  lasts _ h hle later hlater := h later (hle.trans hlater)
  deep _ _ _ _ _ _ _ _ _ := .deep
  silent {s t} e hopen later hle hlater _ ty hevident := by
    have hclosed := hevident.closed hlater.toLinked
    rw [hle.freeVariables_eq (Store.allocated_of_open hopen), hopen] at hclosed
    cases hclosed

namespace TypeLaw

variable {L : TypeLaw} {α : Type} {post : Correspondence.Post α} {c c' : Attempt α} {s s₁ : Store}

/-- However a computation ends, the store only grows and its memory follows the law. -/
theorem leads_of_run (h : L.typing.Corresponds post c c' s s) (hs : L.typing.stores s s)
    {r : Except Error α} (hrun : c.run s = (r, s₁)) :
    s.Extends s₁ ∧ s₁.Intact ∧ s₁.Remembers L := by
  have hends := h hs
  rw [hrun] at hends
  generalize c'.run s = r' at hends
  cases hends with
  | fails hleads _ => exact ⟨hleads.left, hleads.after.2⟩
  | gives hleads _ => exact ⟨hleads.left, hleads.after.2⟩

end TypeLaw

namespace Engine

open TypeLaw

variable {n : Nat} {s s' later : Store} {ctx ctx' : Context} {t ty : TermId} {answer : TypeAnswer}

/-- The annotation of a reduced product is given back when it is compiled. -/
theorem compile_annotation (hs : s.Intact) {fields : List (String × TermId)}
    (htype : (s.shape Store.comptimeType).isDeferred = true) (ht : s.Reduced [] t)
    (hshape : s.shape t = .productValue ty fields)
    (hrun : ((ofLevels n).compile ctx ty).run s = (answer, s')) : Answers ty answer := by
  have hidles : Idles (fun ty' _ => ty' = ty) ((ofLevels n).compile ctx ty) s :=
    restores_ofLevels n (ht.parts_of_product hshape).1 nofun htype (.inl rfl)
  have hends := hidles hs
  rw [hrun] at hends
  cases hends with
  | deep => exact .deep
  | gives _ _ _ hpost =>
    subst hpost
    exact .gives

theorem run_memberType {memberType : TermId} {field key : String}
    {members : List (String × TermId)} (hty : s.shape ty = .productType members)
    (hmember : members.find? (fun e => e.1 = field) = some (key, memberType)) :
    (Attempt.memberType ty field).run s = (.ok memberType, s) := by
  unfold Attempt.memberType
  have hread : (Attempt.shape ty).run s = (.ok (s.shape ty), s) := rfl
  rw [run_bind, hread, hty]
  dsimp only
  rw [hmember]
  rfl

/-- There is one literal type of a number. -/
theorem answers_numericType {value : Rat} (hlater : later.Intact) (hle : s'.Extends later)
    (hty : later.shape ty = .numericLiteralType value)
    (hrun : (Build.numericType value : Attempt TermId).run s = (answer, s')) :
    Answers ty answer := by
  obtain ⟨rfl, rfl⟩ : .ok (s.intern (.numericLiteralType value)).1 = answer ∧
      (s.intern (.numericLiteralType value)).2 = s' := Prod.mk.inj hrun
  have hnew : (s.intern (.numericLiteralType value)).2.shape
      (s.intern (.numericLiteralType value)).1 = .numericLiteralType value :=
    Store.shape_intern nofun
  have hnew' := hle.shape_kept hnew nofun
  obtain rfl := hlater.distinct _ _ (Store.allocated_of_shape_eq hnew' nofun)
    (Store.allocated_of_shape_eq hty nofun) (hnew'.trans hty.symm)
  exact .gives

/-- The level below gives the annotation as the type of a reduced product. -/
theorem answers_projection (he : evidentLaw.typing.Engines (.ofLevels n) (.ofLevels n))
    (hobeys : evidentLaw.Obeys (.ofLevels n)) (hs : evidentLaw.typing.stores s s)
    (hctx : evidentLaw.typing.scope s s ctx ctx')
    (htype : (s.shape Store.comptimeType).isDeferred = true) {domain memberType : TermId}
    {field key : String} {fields members : List (String × TermId)}
    (hdomain : s.shape domain = .productValue ty fields) (hreduced : s.Reduced [] domain)
    (hmembers : s.shape ty = .productType members)
    (hmember : members.find? (fun e => e.1 = field) = some (key, memberType))
    (hrun : (do Attempt.memberType (← (ofLevels n).infer ctx domain) field).run s =
      (answer, s')) : Answers memberType answer := by
  rcases hinfer : ((ofLevels n).infer ctx domain).run s with ⟨domainType, s₁⟩
  obtain ⟨hle, hs₁, -⟩ := leads_of_run (he.infer hctx ⟨rfl, hreduced.allocated⟩) hs hinfer
  have hdomainType : Answers ty domainType :=
    hobeys hs hctx hreduced.allocated hinfer s₁ (.refl s₁) hs₁ (hle.isDeferred htype) ty
      (.product (hle.shape_kept hdomain nofun) (hreduced.mono hle))
  rw [run_bind, hinfer] at hrun
  cases hdomainType with
  | gives =>
    dsimp only at hrun
    rw [run_memberType (hle.shape_kept hmembers nofun) hmember] at hrun
    cases hrun
    exact .gives
  | deep =>
    cases hrun
    exact .deep

/-- Every rule gives the types that can be read off if the level below does. -/
theorem ruled_evidentLaw : evidentLaw.Ruled := by
  intro n s s' ctx ctx' t answer he hobeys hs hctx ht hrun later hle hlater htype ty hevident
  have hgrows : s.Extends s' := (leads_of_run (Correspondence.corresponds_inferShape
    evidentLaw.steady_typing he hctx ⟨rfl, ht⟩) hs hrun).1
  have hearlier := hgrows.trans hle
  have hlinked := hs.2.1.toLinked
  have hbefore : ∀ {u shape}, s.Allocated u → later.shape u = shape → s.shape u = shape :=
    fun hu hshape => (hearlier.shape_eq hu).symm.trans hshape
  have htype₀ : (s.shape Store.comptimeType).isDeferred = true := by
    rw [← hearlier.shape_eq (hs.2.1.toClosed.allocated_common (by decide))]
    exact htype
  unfold inferShape at hrun
  have hread : (Attempt.shape t).run s = (.ok (s.shape t), s) := rfl
  rw [run_bind, hread] at hrun
  dsimp only at hrun
  cases hevident with
  | numeral hshape hty =>
    rw [hbefore ht hshape] at hrun
    exact answers_numericType hlater hle hty hrun
  | @native id registered hshape hid =>
    have hleaf := hbefore ht hshape
    rw [hleaf] at hrun
    obtain ⟨rfl, -⟩ : .ok (s.nativeSignature id) = answer ∧ s = s' := Prod.mk.inj hrun
    obtain ⟨registered', hid'⟩ := hs.2.1.native?_of_leaf hleaf
    cases (hearlier.native?_eq hid').symm.trans hid
    rw [Store.nativeSignature, hid']
    exact .gives
  | product hshape hreduced =>
    have hproduct := hbefore ht hshape
    rw [hproduct] at hrun
    exact compile_annotation hs.2.1 htype₀ (hreduced.before hlinked hearlier ht) hproduct hrun
  | projection hshape hdomain hreduced hmembers hmember =>
    have hprojection := hbefore ht hshape
    rw [hprojection] at hrun
    have hallocated := hlinked.allocated_children ht (by rw [hprojection]; exact List.mem_cons_self)
    have hproduct := hbefore hallocated hdomain
    have hannotation :=
      hlinked.allocated_children hallocated (by rw [hproduct]; exact List.mem_cons_self)
    exact answers_projection he hobeys hs hctx htype₀ hproduct
      (hreduced.before hlinked hearlier hallocated) (hbefore hannotation hmembers) hmember hrun

end Engine

end StagedCalculus

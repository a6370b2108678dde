import StagedCalculus.Proofs.Native.Certain

/-!
# What the built-in natives promise

A built-in native looks at its arguments to say which type a call has, and again to perform the
call. This module compares the two where nothing is left to do in the arguments.

* `Store.Promises`: the outermost layer of the type that a native gives to a call;
* `Attempt.ensures_resultType`: the native gives it to the call, unless depth is lacking;
* `Attempt.ensures_call`: whatever the call comes to has that type;
* `Attempt.ensures_inferApplication`, `Attempt.ensures_evaluate_application`: the two judgments on a
  complete call, which pass the arguments on as they are.
-/

namespace StagedCalculus

open Native

namespace Store

variable {s s' : Store} {t : TermId} {native : Native} {args : List TermId} {layer : Shape TermId}

/-- The outermost layer of the type that a built-in native gives to a call on reduced arguments. -/
inductive Promises (s : Store) : Native → List TermId → Shape TermId → Prop
  | cast {target subject : TermId} : s.Reduced [] target →
      Promises s Native.cast [target, subject] (s.shape target)
  | project {product field ty memberType : TermId} {name key : String}
      {fields members : List (String × TermId)} : s.shape product = .productValue ty fields →
      s.Reduced [] product → s.shape ty = .productType members →
      members.find? (fun e => e.1 = name) = some (key, memberType) →
      s.shape field = .stringLiteral name →
      Promises s Native.project [product, field] (s.shape memberType)
  | cimport {header : TermId} {text : String} : s.shape header = .stringLiteral text →
      Header.name? text = some "stdio" → Promises s Native.cimport [header] stdioType
  | printf {format : TermId} {text : String} : s.shape format = .stringLiteral text →
      Promises s Native.printf [format] (.numericLiteralType text.utf8ByteSize)

theorem Linked.allocated_member (hs : s.Linked) {members : List (String × TermId)}
    {name key : String} {memberType : TermId} (ht : s.shape t = .productType members)
    (hmember : members.find? (fun e => e.1 = name) = some (key, memberType)) :
    s.Allocated memberType := by
  refine hs.allocated_children (allocated_of_shape_eq ht nofun) ?_
  rw [ht]
  exact List.mem_map_of_mem (List.mem_of_find?_eq_some hmember)

theorem Linked.allocated_annotation (hs : s.Linked) {ty : TermId} {fields : List (String × TermId)}
    (ht : s.shape t = .productValue ty fields) : s.Allocated ty := by
  refine hs.allocated_children (allocated_of_shape_eq ht nofun) ?_
  rw [ht]
  exact List.mem_cons_self

theorem Promises.mono (h : s.Promises native args layer) (hs : s.Linked) (hle : s.Extends s') :
    s'.Promises native args layer := by
  cases h with
  | cast htarget =>
    rw [← hle.shape_eq htarget.allocated]
    exact .cast (htarget.mono hle)
  | project hproduct hreduced hmembers hmember hfield =>
    rw [← hle.shape_eq (hs.allocated_member hmembers hmember)]
    exact .project (hle.shape_kept hproduct nofun) (hreduced.mono hle)
      (hle.shape_kept hmembers nofun) hmember (hle.shape_kept hfield nofun)
  | cimport hheader hname => exact .cimport (hle.shape_kept hheader nofun) hname
  | printf hformat => exact .printf (hle.shape_kept hformat nofun)

/-- What is promised about arguments of a store was promised in that store. -/
theorem Promises.before (h : s'.Promises native args layer) (hs : s.Linked) (hle : s.Extends s')
    (hargs : ∀ arg ∈ args, s.Allocated arg) : s.Promises native args layer := by
  have hbefore : ∀ {u shape}, s.Allocated u → s'.shape u = shape → s.shape u = shape :=
    fun hu hshape => (hle.shape_eq hu).symm.trans hshape
  cases h with
  | cast htarget =>
    have htarget' := hargs _ List.mem_cons_self
    rw [hle.shape_eq htarget']
    exact .cast (htarget.before hs hle htarget')
  | project hproduct hreduced hmembers hmember hfield =>
    have hproduct' := hargs _ List.mem_cons_self
    have hfield' := hargs _ (List.mem_cons_of_mem _ List.mem_cons_self)
    have hshape := hbefore hproduct' hproduct
    have hmembers' := hbefore (hs.allocated_annotation hshape) hmembers
    rw [hle.shape_eq (hs.allocated_member hmembers' hmember)]
    exact .project hshape (hreduced.before hs hle hproduct') hmembers' hmember
      (hbefore hfield' hfield)
  | cimport hheader hname => exact .cimport (hbefore (hargs _ List.mem_cons_self) hheader) hname
  | printf hformat => exact .printf (hbefore (hargs _ List.mem_cons_self) hformat)

/-- If the term is a product, then it is annotated by the types that are remembered for its
fields. -/
def Annotated (s : Store) (t : TermId) : Prop :=
  ∀ ty fields, s.shape t = .productValue ty fields → ∃ members, s.shape ty = .productType members ∧
    List.Forall₂ (fun field member => field.1 = member.1 ∧
      s.types.get? field.2 [] = some (.ok member.2)) fields members

theorem Annotated.mono (h : s.Annotated t) (ht : s.Allocated t) (hle : s.Precedes s') :
    s'.Annotated t := by
  intro ty fields hshape
  obtain ⟨members, hmembers, htypes⟩ := h ty fields ((hle.shape_eq ht).symm.trans hshape)
  exact ⟨members, hle.shape_kept hmembers nofun,
    htypes.imp fun _ _ hfield => ⟨hfield.1, hle.types _ _ _ hfield.2⟩⟩

/-- Nothing is left to do in a generic signature. -/
theorem Generic.reduced {comptime : Bool} (h : s.Generic comptime t) (hs : s.Standard) :
    s.Reduced [] t := by
  obtain ⟨hsignature, hfunction, hposition, hused, -⟩ := h
  have htop : s.Allocated topType := allocated_of_shape_eq hs.common.topType nofun
  refine .quantified hsignature (List.nodup_singleton _) (List.forall_mem_singleton.2 hused) ?_
  refine .functionType hfunction (List.forall_mem_singleton.2 (.variable hposition (by simp)))
    (.constant htop ?_)
  rw [hs.common.topType]
  rfl

/-- The term is the imported module, the type of which can be read off. -/
def Imported (s : Store) (t : TermId) : Prop :=
  ∃ ty, s.Represents stdioType ty ∧ s.Evident t ty

theorem Stdio.imported (h : s.Stdio t) (hs : s.Standard) : s.Imported t := by
  obtain ⟨hproduct, hty, hleaf⟩ := h
  have hleaf' := allocated_of_shape_eq hleaf nofun
  refine ⟨_, ⟨allocated_of_shape_eq hty nofun, hty⟩, .product hproduct (.productValue hproduct
    (.productType hty (List.forall_mem_singleton.2 (hs.generic_printf.reduced hs)))
    (List.forall_mem_singleton.2 (.constant hleaf' ?_)))⟩
  rw [hleaf]
  rfl

end Store

namespace Attempt

open Store Engine Correspondence

variable {n : Nat} {s : Store} {native : Native} {args : List TermId} {layer : Shape TermId}
  {tolerated : Error → Prop} {t : TermId} {text : String}

/-! ## Parts of the natives -/

/-- Compiling a text gives it back. -/
theorem ensures_compile_text (ht : s.shape t = .stringLiteral text) :
    Ensures Error.IsDepth (fun t' _ => t' = t)
      ((ofLevels n).run .root (Script.compile t)) s := by
  refine .query (.reduce .compile t) (ensures_reduce_reduced ?_)
  exact .constant (allocated_of_shape_eq ht nofun) (by rw [ht]; rfl)

theorem ensures_expectString (name : String) (ht : s.shape t = .stringLiteral text) :
    Ensures tolerated (fun found _ => found = text)
      ((ofLevels n).run .root (expectString name t)) s := by
  refine .reads rfl ?_
  rw [ht]
  exact .stays rfl rfl

/-- Nothing but a text is expected. -/
theorem ensures_expected (name : String) (t : TermId) :
    Ensures (fun _ => True) (fun text s' => s'.shape t = .stringLiteral text)
      ((ofLevels n).run .root (expectString name t)) s := by
  refine .reads rfl ?_
  cases hshape : s.shape t with
  | stringLiteral text => exact .stays rfl hshape
  | _ => exact .fails rfl trivial

/-- The leaf and the signature of `printf`. -/
theorem ensures_exported :
    Ensures tolerated (fun r s' => s'.shape r.1 = .native printfId ∧ r.2 = signatureOf printfId)
      ((ofLevels n).run .root (exported "printf")) s := by
  refine .withCertain fun hs => ?_
  refine .bind (.builtin hs.standard.findNative?_printf) fun leaf? s₁ h₁ hleaf => ?_
  obtain ⟨leaf, rfl, hleaf⟩ := hleaf
  refine .reads rfl ?_
  rw [hleaf]
  exact .withCertain fun hs₁ =>
    .reads rfl (.stays rfl ⟨hleaf, hs₁.standard.nativeSignature_eq printfId⟩)

theorem ensures_exportedAll :
    Ensures tolerated (fun r s' => ∃ leaf,
        r = ([("printf", signatureOf printfId)], [("printf", leaf)]) ∧
        s'.shape leaf = .native printfId)
      ((ofLevels n).run .root (exportedAll ["printf"])) s := by
  refine .script ensures_exported fun r s₁ h₁ hr => ?_
  obtain ⟨leaf, ty⟩ := r
  obtain ⟨hleaf, rfl⟩ := hr
  exact .stays rfl ⟨leaf, rfl, hleaf⟩

/-- The module of all natives that the header exposes. -/
theorem ensures_imported :
    Ensures tolerated (fun module s' => s'.Imported module)
      ((ofLevels n).run .root (do
        let (members, fields) ← exportedAll ["printf"]
        Script.intern (.productValue (← Script.intern (.productType members)) fields))) s := by
  refine .script ensures_exportedAll fun r s₁ h₁ hr => ?_
  obtain ⟨leaf, rfl, hleaf⟩ := hr
  refine .withCertain fun hs₁ => ?_
  have hmembers : s₁.Covers stdioType := covers_of_children rfl rfl
    (List.forall_mem_singleton.2 hs₁.standard.generic_printf.allocated)
  refine .bind (.intern hmembers nofun) fun ty s₂ h₂ hty => ?_
  have hleaf₂ := h₂.shape_kept hleaf nofun
  have hproduct : s₂.Covers (.productValue ty [("printf", leaf)]) :=
    covers_of_children rfl rfl (List.forall_mem_cons.2 ⟨hty.allocated,
      List.forall_mem_singleton.2 (allocated_of_shape_eq hleaf₂ nofun)⟩)
  refine .bind (.intern hproduct nofun) fun module s₃ h₃ hmodule => ?_
  have hstdio : s₃.Stdio module := .product hmodule.shape_eq (h₃.shape_kept hty.shape_eq nofun)
    (h₃.shape_kept hleaf₂ nofun)
  exact .withCertain fun hs₃ => .stays rfl (hstdio.imported hs₃.standard)

theorem ensures_importHeader (ht : s.shape t = .stringLiteral text)
    (hname : Header.name? text = some "stdio") :
    Ensures tolerated (fun module s' => s'.Imported module)
      ((ofLevels n).run .root (importHeader t)) s := by
  refine .script (ensures_expectString "cimport" ht) fun found s₁ h₁ hfound => ?_
  subst hfound
  rw [hname]
  exact ensures_imported

/-- There is one header to import. -/
theorem ensures_importable (t : TermId) :
    Ensures (fun _ => True) (fun module s' => s'.Imported module ∧
        ∃ text, s'.shape t = .stringLiteral text ∧ Header.name? text = some "stdio")
      ((ofLevels n).run .root (importHeader t)) s := by
  refine .script (ensures_expected "cimport" t) fun text s₁ h₁ htext => ?_
  cases hname : Header.name? text with
  | none => exact .fails rfl trivial
  | some name =>
    dsimp only
    cases hexports : exports? name with
    | none => exact .fails rfl trivial
    | some names =>
      obtain ⟨rfl, rfl⟩ : name = "stdio" ∧ names = ["printf"] := by
        unfold exports? at hexports
        split at hexports
        · exact ⟨rfl, (Option.some.inj hexports).symm⟩
        · cases hexports
      exact ensures_imported.imp fun module s₂ h₂ hmodule =>
        ⟨hmodule, text, h₂.shape_kept htext nofun, hname⟩

/-! ## The types of calls -/

/-- The native gives the promised type to the call. -/
theorem ensures_resultType (h : s.Promises native args layer)
    {hook : List TermId → Script (Option TermId)} (hhook : native.resultType = some hook) :
    Ensures Error.IsDepth (fun ty? s' => ∃ ty, ty? = some ty ∧ s'.Represents layer ty)
      ((ofLevels n).run .root (hook args)) s := by
  cases h with
  | cast htarget =>
    cases hhook
    refine .script (.query (.reduce .compile _) (ensures_reduce_reduced htarget))
      fun target s₁ h₁ heq => ?_
    subst heq
    exact .stays rfl ⟨_, rfl, h₁.allocated htarget.allocated, h₁.shape_eq htarget.allocated⟩
  | @project product field ty memberType name key fields members hproduct hreduced hmembers hmember
      hfield =>
    cases hhook
    refine .withCertain fun hs => ?_
    have hmemberType := hs.toLinked.allocated_member hmembers hmember
    refine .script (ensures_compile_text hfield) fun field' s₁ h₁ heq => ?_
    subst heq
    have hfield₁ := h₁.shape_kept hfield nofun
    refine .withCertain fun hs₁ => .asks (.isValue field') rfl ?_
    rw [hs₁.isValue_text hfield₁]
    refine .script (ensures_expectString "project" hfield₁) fun found s₂ h₂ hfound => ?_
    subst hfound
    have hle₂ := h₁.trans h₂
    have hcovers : s₂.Covers (.projection product found) := covers_of_children rfl rfl
      (List.forall_mem_singleton.2 (hle₂.allocated hreduced.allocated))
    refine .script (.query (.intern _) (.intern hcovers nofun))
      fun projection s₃ h₃ hprojection => ?_
    have hle₃ := hle₂.trans h₃
    refine .bind (ensures_infer_evident (.projection hprojection.shape_eq
      (hle₃.shape_kept hproduct nofun) (hreduced.mono hle₃.toExtends)
      (hle₃.shape_kept hmembers nofun) hmember)) fun ty' s₄ h₄ hty' => ?_
    subst hty'
    have hle₄ := hle₃.trans h₄
    exact .stays rfl ⟨ty', rfl, hle₄.allocated hmemberType, hle₄.shape_eq hmemberType⟩
  | cimport hheader hname =>
    cases hhook
    refine .script (ensures_compile_text hheader) fun header s₁ h₁ heq => ?_
    subst heq
    have hheader₁ := h₁.shape_kept hheader nofun
    refine .withCertain fun hs₁ => .asks (.isValue header) rfl ?_
    rw [hs₁.isValue_text hheader₁]
    refine .script (ensures_importHeader hheader₁ hname) fun module s₂ h₂ hmodule => ?_
    obtain ⟨ty, hty, hevident⟩ := hmodule
    refine .bind (ensures_infer_evident hevident) fun ty' s₃ h₃ heq => ?_
    subst heq
    exact .stays rfl ⟨ty', rfl, hty.mono h₃.toExtends⟩
  | @printf format text hformat =>
    cases hhook
    refine .script (ensures_compile_text hformat) fun format' s₁ h₁ heq => ?_
    subst heq
    refine .asks (.shape format') rfl ?_
    rw [h₁.shape_kept hformat nofun]
    have hcovers : s₁.Covers (.numericLiteralType text.utf8ByteSize) :=
      covers_of_children rfl rfl (List.forall_mem_nil _)
    exact .script (.query (.intern _) (.intern hcovers nofun)) fun ty s₂ h₂ hty =>
      .stays rfl ⟨ty, rfl, hty⟩

/-! ## What calls come to -/

/-- A cast that evaluation performs gives its subject, whose type is remembered. -/
theorem ensures_reduceCast {subject target : TermId} {p : TermId → Prop}
    (hsubject : s.Reduced [] subject) (hreduce : ∀ s₁, s.Precedes s₁ →
      Ensures (fun _ => True) (fun ty _ => p ty) ((ofLevels n).reduce .evaluate .root target) s₁) :
    Ensures (fun _ => True)
      (fun v s' => v = subject ∧ ∃ ty, p ty ∧ s'.Allocated ty ∧
        s'.types.get? subject [] = some (.ok ty))
      ((ofLevels n).reduceCast .evaluate .root subject target) s := by
  refine .bind ((ensures_reduce_reduced hsubject).tolerate fun _ _ => trivial)
    fun subject' s₁ h₁ heq => ?_
  subst heq
  refine .bind (hreduce s₁ h₁) fun target' s₂ h₂ htarget => .withCertain fun hs₂ => ?_
  have hsubject₂ := hsubject.mono (h₁.trans h₂).toExtends
  refine .bind (ensures_infer_stores (hsubject₂.closed hs₂.toLinked) hsubject₂.allocated)
    fun ty s₃ h₃ hty => ?_
  split
  · rename_i heq
    subst heq
    exact .pure ⟨rfl, ty, htarget, hty⟩
  · refine .reads rfl ?_
    rw [if_neg (by simp)]
    exact .fails rfl trivial

theorem ensures_evaluate_cast {subject target : TermId} {p : TermId → Prop}
    (ht : s.shape t = .cast subject target) (hsubject : s.Reduced [] subject)
    (hreduce : ∀ n s₁, s.Precedes s₁ →
      Ensures (fun _ => True) (fun ty _ => p ty) ((ofLevels n).reduce .evaluate .root target) s₁) :
    Ensures (fun _ => True)
      (fun v s' => v = subject ∧ ∃ ty, p ty ∧ s'.Allocated ty ∧
        s'.types.get? subject [] = some (.ok ty))
      ((ofLevels n).reduce .evaluate .root t) s := by
  cases n with
  | zero => exact .fails rfl trivial
  | succ n =>
    refine .reads rfl ?_
    rw [ht]
    exact ensures_reduceCast hsubject (hreduce n)

/-- A projection that evaluation performs gives a field of the product. -/
theorem ensures_evaluate_projection {product : TermId} {name : String}
    (ht : s.shape t = .projection product name) (hproduct : s.Reduced [] product) :
    Ensures (fun _ => True)
      (fun v s' => ∃ ty fields key, s'.shape product = .productValue ty fields ∧
        fields.find? (fun f => f.1 = name) = some (key, v))
      ((ofLevels n).reduce .evaluate .root t) s := by
  cases n with
  | zero => exact .fails rfl trivial
  | succ n =>
    refine .reads rfl ?_
    rw [ht]
    refine .bind ((ensures_reduce_reduced hproduct).tolerate fun _ _ => trivial)
      fun product' s₁ h₁ heq => ?_
    subst heq
    refine .reads rfl ?_
    cases hshape : s₁.shape product' with
    | productValue ty fields =>
      dsimp only
      cases hfield : fields.find? (fun f => f.1 = name) with
      | none => exact .fails rfl trivial
      | some field => exact .pure ⟨ty, fields, field.1, hshape, hfield⟩
    | _ => exact .fails rfl trivial

/-- From this store on, inference gives the term a type with this outermost layer. -/
def Fulfils (s : Store) (layer : Shape TermId) (t : TermId) : Prop :=
  ∀ n, Ensures Error.IsDepth (fun ty s' => s'.Represents layer ty) ((ofLevels n).infer .root t) s

theorem fulfils_remembered {ty : TermId} (hclosed : (s.freeVariables t).isEmpty = true)
    (hget : s.types.get? t [] = some (.ok ty)) (hty : s.Represents layer ty) :
    Fulfils s layer t := fun n => by
  refine (ensures_infer_remembered hclosed hget).imp fun ty' s' hle heq => ?_
  subst heq
  exact hty.mono hle.toExtends

theorem ensures_castCall {target subject : TermId} (htarget : s.Reduced [] target)
    (hsubject : s.Reduced [] subject) :
    Ensures (fun _ => True)
      (fun v s' => ∃ layer, s'.Promises Native.cast [target, subject] layer ∧ Fulfils s' layer v)
      ((ofLevels n).run .root (castCall [target, subject])) s := by
  have hcovers : s.Covers (.cast subject target) := covers_of_children rfl rfl
    (List.forall_mem_cons.2 ⟨hsubject.allocated, List.forall_mem_singleton.2 htarget.allocated⟩)
  refine .script (.query (.intern _) (.intern hcovers nofun)) fun t s₁ h₁ ht => ?_
  refine (Ensures.query (.reduce .evaluate t) (ensures_evaluate_cast (p := fun ty => ty = target)
    ht.shape_eq (hsubject.mono h₁.toExtends) fun n s₂ h₂ => ?_)).imp fun v s₂ h₂ hv => ?_
  · have htarget₂ := htarget.mono (h₁.trans h₂).toExtends
    exact (ensures_reduce_reduced htarget₂).tolerate fun _ _ => trivial
  · obtain ⟨rfl, ty, rfl, hty, hget⟩ := hv
    have hle := (h₁.trans h₂).toExtends
    refine ⟨_, .cast (htarget.mono hle), fulfils_remembered ?_ hget ⟨hty, rfl⟩⟩
    exact (hsubject.mono hle).closed h₂.intact.toLinked

theorem ensures_projectCall {product field : TermId} (hproduct : s.Reduced [] product)
    (hannotated : s.Annotated product) :
    Ensures (fun _ => True)
      (fun v s' => ∃ layer, s'.Promises Native.project [product, field] layer ∧ Fulfils s' layer v)
      ((ofLevels n).run .root (projectCall [product, field])) s := by
  refine .script (ensures_expected "project" field) fun name s₁ h₁ hfield => ?_
  have hcovers : s₁.Covers (.projection product name) := covers_of_children rfl rfl
    (List.forall_mem_singleton.2 (h₁.allocated hproduct.allocated))
  refine .script (.query (.intern _) (.intern hcovers nofun)) fun t s₂ h₂ ht => ?_
  have hle₂ := h₁.trans h₂
  refine (Ensures.query (.reduce .evaluate t) (ensures_evaluate_projection ht.shape_eq
    (hproduct.mono hle₂.toExtends))).imp fun v s₃ h₃ hv => ?_
  have hle₃ := hle₂.trans h₃
  obtain ⟨ty, fields, key, hshape, hfound⟩ := hv
  have hreduced := hproduct.mono hle₃.toExtends
  obtain ⟨members, hmembers, htypes⟩ :=
    hannotated.mono hproduct.allocated hle₃ ty fields hshape
  -- The field and the member of that name stand at the same place.
  have hrel := rel_find? (p := fun f => f.1 = name) (q := fun e => e.1 = name) htypes
    fun hpair => by rw [hpair.1]
  rw [hfound] at hrel
  generalize hmember : members.find? (fun e => e.1 = name) = member at hrel
  cases hrel with
  | @some _ member hpair =>
    have hmemberType := h₃.intact.toLinked.allocated_member hmembers hmember
    have hfields := (hreduced.parts_of_product hshape).2 _ (List.mem_of_find?_eq_some hfound)
    exact ⟨_, .project hshape hreduced hmembers hmember ((h₂.trans h₃).shape_kept hfield nofun),
      fulfils_remembered (hfields.closed h₃.intact.toLinked) hpair.2 ⟨hmemberType, rfl⟩⟩

theorem ensures_cimportCall {header : TermId} :
    Ensures (fun _ => True)
      (fun v s' => ∃ layer, s'.Promises Native.cimport [header] layer ∧ Fulfils s' layer v)
      ((ofLevels n).run .root (cimportCall [header])) s := by
  refine (ensures_importable header).imp fun module s₁ h₁ hmodule => ?_
  obtain ⟨⟨ty, hty, hevident⟩, text, hheader, hname⟩ := hmodule
  refine ⟨_, .cimport hheader hname, fun n => (ensures_infer_evident hevident).imp ?_⟩
  rintro ty' s₂ h₂ rfl
  exact hty.mono h₂.toExtends

theorem ensures_printfCall {format : TermId} :
    Ensures (fun _ => True)
      (fun v s' => ∃ layer, s'.Promises Native.printf [format] layer ∧ Fulfils s' layer v)
      ((ofLevels n).run .root (printfCall [format])) s := by
  refine .script (ensures_expected "printf" format) fun text s₁ h₁ hformat => ?_
  refine .script (.query (.write text) (ensures_write text)) fun bytes s₂ h₂ hbytes => ?_
  subst hbytes
  have hcovers : s₂.Covers (.numericLiteral text.utf8ByteSize) :=
    covers_of_children rfl rfl (List.forall_mem_nil _)
  refine .imp (.query (.intern _) (.intern hcovers nofun)) fun v s₃ h₃ hv => ?_
  exact ⟨_, .printf ((h₂.trans h₃).shape_kept hformat nofun),
    fun n => ensures_infer_numeral hv.shape_eq⟩

/-- Whatever a complete call of a native comes to has the type that the native promises. -/
theorem ensures_call {id : NativeId} {registered : RegisteredNative}
    (hid : s.native? id = some registered) (hpoly : s.Polymorphic args.length registered.signature)
    (hargs : ∀ arg ∈ args, s.Reduced [] arg) (hannotated : ∀ arg ∈ args, s.Annotated arg) :
    Ensures (fun _ => True)
      (fun v s' => ∃ layer, s'.Promises registered.native args layer ∧ Fulfils s' layer v)
      ((ofLevels n).run .root (registered.native.call args)) s := by
  refine .withCertain fun hs => ?_
  rcases hs.standard.native?_cases hid with h | h | h | h <;> obtain ⟨hnative, hcount⟩ := h <;>
    have hlength := hcount.unique hpoly <;> rw [hnative]
  · obtain ⟨target, subject, rfl⟩ := List.length_eq_two.1 hlength
    exact ensures_castCall (hargs target (by simp)) (hargs subject (by simp))
  · obtain ⟨product, field, rfl⟩ := List.length_eq_two.1 hlength
    exact ensures_projectCall (hargs product (by simp)) (hannotated product (by simp))
  · obtain ⟨header, rfl⟩ := List.length_eq_one_iff.1 hlength
    exact ensures_cimportCall
  · obtain ⟨format, rfl⟩ := List.length_eq_one_iff.1 hlength
    exact ensures_printfCall

/-! ## Calls as terms -/

section Calls

variable {callee : TermId} {id : NativeId} {registered : RegisteredNative}

/-- A complete call is resolved as one. -/
theorem ensures_resolve (hcallee : s.shape callee = .native id)
    (hid : s.native? id = some registered) (hpoly : s.Polymorphic args.length registered.signature)
    (hargs : ∀ arg ∈ args, s.Allocated arg) :
    Ensures (fun _ => True) (fun r s' => r.isSaturated = true ∧
        r.supplied.length = args.length ∧ ∀ ty ∈ r.supplied, s'.Allocated ty)
      ((ofLevels n).resolve .root callee args) s := by
  intro hs
  have hleaf := allocated_of_shape_eq hcallee nofun
  have hany := ensures_own (corresponds_resolve evidentLaw.steady_typing (engines_evidentLaw n)
      scope_root ⟨rfl, hleaf⟩ (Likeness.terms_diagonal.2 ⟨rfl, hargs⟩))
    (repeats_resolve lawful_itself.toSteady (engines_ofLevels lawful_itself n)
      (repeating_ofLevels n) scope_root_itself ⟨rfl, hleaf⟩
      (Likeness.terms_diagonal.2 ⟨rfl, hargs⟩)) hs
  rcases hrun : ((ofLevels n).resolve .root callee args).run s with ⟨e | r, s'⟩
  · exact .fails trivial
  rw [hrun] at hany
  cases hany with
  | gives hle hs' hr =>
    refine .gives hle hs' ?_
    obtain ⟨ty, s₁, hinfer, -⟩ := run_bind_ok hrun
    obtain ⟨h₁, -, rfl⟩ :=
      (ensures_infer_evident (Evident.native hcallee hid)).gives_of_ok hs hinfer
    obtain ⟨htype, hnodup, hfunction, hlength⟩ := hpoly.mono h₁.toExtends
    rename_i vars slots function result
    have hblames : ∀ reason, Blames reason (fun r => r.Partitions vars slots args.length)
        (((ofLevels n).blaming reason).resolve .root callee args)
        ((ofLevels n).resolve .root callee args) s := fun reason =>
      blames_resolve hinfer (run_functionParts (.inl htype) hfunction) hnodup
    have hparts := (hblames (.arityMismatch 0 0)).result hrun
    refine ⟨?_, hparts.supplied, (Likeness.terms_diagonal.1 hr.supplied).2⟩
    have hremaining := congrArg List.length hparts.remaining
    rw [List.length_map, List.length_map, List.length_drop, hlength, Nat.sub_self] at hremaining
    rw [Resolution.isSaturated, List.length_eq_zero_iff.1 hremaining]
    rfl

/-- Reduced arguments are passed on as they are, for no cast is inserted that changes one. -/
theorem ensures_reduceArgs {pairs : List (TermId × TermId)}
    (hpairs : ∀ p ∈ pairs, s.Reduced [] p.1 ∧ s.Allocated p.2) :
    Ensures (fun _ => True) (fun values _ => values = pairs.map (·.1))
      ((ofLevels n).reduceArgs .evaluate .root pairs) s := by
  induction pairs generalizing s with
  | nil => exact .pure rfl
  | cons p rest ih =>
    obtain ⟨⟨harg, hty⟩, hrest⟩ := List.forall_mem_cons.1 hpairs
    refine .bind ((ensures_reduce_reduced harg).tolerate fun _ _ => trivial)
      fun value s₁ h₁ heq => ?_
    subst heq
    have harg₁ := harg.mono h₁.toExtends
    refine .bind (ensures_infer harg₁.allocated) fun valueType s₂ h₂ _ => ?_
    have hnext : ∀ s₃, s₂.Precedes s₃ → Ensures (fun _ => True)
        (fun values _ => values = (p :: rest).map (·.1))
        (do return p.1 :: (← (ofLevels n).reduceArgs .evaluate .root rest)) s₃ := by
      intro s₃ h₃
      have hle₃ := (h₁.trans h₂).trans h₃
      refine .bind (ih fun q hq => ?_) fun values s₄ h₄ hvalues => .pure ?_
      · exact ⟨(hrest q hq).1.mono hle₃.toExtends, hle₃.allocated (hrest q hq).2⟩
      · rw [hvalues]
        rfl
    dsimp only
    split
    · exact hnext s₂ (.refl h₂.intact)
    · have hle₂ := h₁.trans h₂
      have harg₂ := harg.mono hle₂.toExtends
      have hty₂ := hle₂.allocated hty
      have hcovers : s₂.Covers (.cast p.1 p.2) := covers_of_children rfl rfl
        (List.forall_mem_cons.2 ⟨harg₂.allocated, List.forall_mem_singleton.2 hty₂⟩)
      refine .bind (.intern hcovers nofun) fun t s₃ h₃ ht => ?_
      refine .bind (ensures_evaluate_cast (p := fun _ => True) ht.shape_eq
        (harg₂.mono h₃.toExtends) fun n s₄ h₄ => ?_) fun value s₄ h₄ hv => ?_
      · exact (ensures_reduce ((h₃.trans h₄).allocated hty₂)).imp fun _ _ _ _ => trivial
      · rw [hv.1]
        exact hnext s₄ (h₃.trans h₄)

/-- What evaluation makes of a complete call has the type that the native promises. -/
theorem ensures_evaluate_application (hcallee : s.shape callee = .native id)
    (hid : s.native? id = some registered) (hpoly : s.Polymorphic args.length registered.signature)
    (hargs : ∀ arg ∈ args, s.Reduced [] arg) (hannotated : ∀ arg ∈ args, s.Annotated arg) :
    Ensures (fun _ => True)
      (fun v s' => ∃ layer, s'.Promises registered.native args layer ∧ Fulfils s' layer v)
      ((ofLevels n).reduceApplication .evaluate .root callee args) s := by
  refine .bind (ensures_resolve hcallee hid hpoly fun arg harg => (hargs arg harg).allocated)
    fun r s₁ h₁ hr => ?_
  obtain ⟨hsaturated, hlength, hsupplied⟩ := hr
  refine .bind (ensures_reduceArgs fun p hp => ?_) fun values s₂ h₂ hvalues => ?_
  · obtain ⟨harg, hty⟩ := List.of_mem_zip hp
    exact ⟨(hargs _ harg).mono h₁.toExtends, hsupplied _ hty⟩
  rw [List.map_fst_zip hlength.ge] at hvalues
  subst hvalues
  have hle₂ := h₁.trans h₂
  have hleaf : s₂.Reduced [] callee :=
    .constant (hle₂.allocated (allocated_of_shape_eq hcallee nofun))
      (by rw [hle₂.shape_kept hcallee nofun]; rfl)
  refine .bind ((ensures_reduce_reduced hleaf).tolerate fun _ _ => trivial)
    fun callee' s₃ h₃ heq => ?_
  subst heq
  rw [if_pos hsaturated]
  have hle₃ := hle₂.trans h₃
  have hcallee₃ := hle₃.shape_kept hcallee nofun
  -- A leaf stands under no quantifier.
  have hopen : (openQuantifiers r (callee'.index + 1) .root callee').run s₃ =
      (.ok (.root, callee'), s₃) := by
    have hread : (Attempt.shape callee').run s₃ = (.ok (s₃.shape callee'), s₃) := rfl
    rw [openQuantifiers, run_bind, hread, hcallee₃]
    rfl
  refine .reads hopen (.reads rfl ?_)
  rw [hcallee₃]
  refine .reads rfl ?_
  rw [hle₃.native?_eq, hid]
  refine .reads rfl ?_
  rw [if_neg (by simp)]
  refine ensures_call ((hle₃.native?_eq id).trans hid) (hpoly.mono hle₃.toExtends)
    (fun arg harg => (hargs arg harg).mono hle₃.toExtends)
    fun arg harg => (hannotated arg harg).mono (hargs arg harg).allocated hle₃

/-- A complete call has the type that its native promises. -/
theorem ensures_inferApplication (hcallee : s.shape callee = .native id)
    (hid : s.native? id = some registered) (hpoly : s.Polymorphic args.length registered.signature)
    (hargs : ∀ arg ∈ args, s.Allocated arg) {hook : List TermId → Script (Option TermId)}
    (hhook : registered.native.resultType = some hook)
    (hpromise : s.Promises registered.native args layer) {r : Resolution} {s' : Store}
    (hresolve : ((ofLevels n).resolve .root callee args).run s = (.ok r, s')) :
    Ensures Error.IsDepth (fun ty s' => s'.Represents layer ty)
      ((ofLevels n).inferApplication .root callee args) s := by
  refine .withCertain fun hs => ?_
  refine .bind ((ensures_resolve hcallee hid hpoly hargs).of_ok hresolve) fun r s₁ h₁ hr => ?_
  rw [if_pos hr.1]
  have hcallee₁ := h₁.shape_kept hcallee nofun
  have hrefined : Ensures Error.IsDepth (fun ty? s' => ∃ ty, ty? = some ty ∧ s'.Represents layer ty)
      ((ofLevels n).refinedType .root callee args) s₁ := by
    have hnative : (nativeCallee (ofLevels n) .root callee).run s₁ = (.ok (some id), s₁) := by
      have hread : (Attempt.shape callee).run s₁ = (.ok (s₁.shape callee), s₁) := rfl
      rw [nativeCallee, run_bind, hread, hcallee₁]
      rfl
    refine .reads hnative (.reads rfl ?_)
    rw [h₁.native?_eq, hid, Option.bind_some, hhook]
    exact ensures_resultType (hpromise.mono hs.toLinked h₁.toExtends) hhook
  refine .bind hrefined fun ty? s₂ h₂ hty => ?_
  obtain ⟨ty, rfl, hty⟩ := hty
  exact .pure hty

end Calls

end Attempt

end StagedCalculus

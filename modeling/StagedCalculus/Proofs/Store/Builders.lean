import StagedCalculus.Proofs.Store.Growth

/-!
# Builders keep stores closed

This module proves that the store without terms is linked, and that adding a variable, a nominal
type or a native leaves a closed store closed.
-/

namespace StagedCalculus

namespace Store

variable {s : Store}

theorem linked_empty (config : Config) : (empty config).Linked := by
  refine ⟨fun t ht => ?_, fun t ht => ?_, fun key t ht => ?_, fun t restriction ty h => ?_,
    fun id registered h => ?_, fun id registered h => ?_⟩
  · simp [Allocated, empty] at ht
  · simp [Allocated, empty] at ht
  · simp [empty] at ht
  · simp [empty] at h
  · simp [empty, native?] at h
  · simp [empty, native?] at h

theorem closed_freshVariable (hs : s.Closed) (comptime : Bool) (name : Option String) :
    (s.freshVariable comptime name).2.Closed :=
  ⟨⟨hs.children, hs.free, hs.index, hs.types, hs.signatures, hs.confined⟩, hs.common⟩

theorem closed_freshNamedType (hs : s.Closed) (name : String) : (s.freshNamedType name).2.Closed :=
  closed_intern ⟨⟨hs.children, hs.free, hs.index, hs.types, hs.signatures, hs.confined⟩, hs.common⟩
    (by simp [Shape.children])

theorem closed_builtin (hs : s.Closed) (name : String) : (s.builtin name).2.Closed := by
  unfold builtin
  cases s.findNative? name with
  | none => exact hs
  | some id => exact closed_intern hs (by simp [Shape.children])

/-- Writing changes the output alone. -/
theorem write_cases (s : Store) (text : String) :
    ∃ output, (s.write text).2 = { s with output } := by
  unfold write
  split <;> exact ⟨_, rfl⟩

theorem extends_write (s : Store) (text : String) : s.Extends (s.write text).2 := by
  obtain ⟨output, houtput⟩ := write_cases s text
  rw [houtput]
  exact .of_eq rfl rfl rfl

theorem output_write (s : Store) (text : String) :
    (s.write text).2.output = (s.output.write text).2 := by
  unfold write
  rcases s.output.write text with ⟨e | bytes, output⟩ <;> rfl

/-- And the text goes to the sink that there is. -/
theorem sink_write (s : Store) (text : String) :
    (s.write text).2.output.sink = s.output.sink := by
  rw [output_write, Output.write]
  split
  · rfl
  · split <;> rfl

theorem closed_output (hs : s.Closed) (output : Output) : ({ s with output } : Store).Closed :=
  ⟨⟨hs.children, hs.free, hs.index, hs.types, hs.signatures, hs.confined⟩, hs.common⟩

theorem native?_push {native : RegisteredNative} {id : NativeId} {registered : RegisteredNative}
    (h : ({ s with natives := s.natives.push native } : Store).native? id = some registered) :
    registered = native ∨ s.native? id = some registered := by
  simp only [native?, Array.getElem?_push] at h
  split at h
  · exact Or.inl (by simpa using h.symm)
  · exact Or.inr h

theorem closed_register (hs : s.Closed) {native : Native} {signature : TermId}
    {captured : List TermId} (hcaptured : ∀ t ∈ captured, s.Allocated t)
    (hnative : native.Confined captured) (hsignature : s.Allocated signature) :
    (s.register native signature).2.Closed := by
  refine closed_intern (s := { s with natives := s.natives.push ⟨native, signature⟩ })
    ⟨⟨hs.children, hs.free, hs.index, hs.types, fun id registered h => ?_,
      fun id registered h => ?_⟩, hs.common⟩
    (by simp [Shape.children])
  · rcases native?_push h with rfl | hold
    · exact hsignature
    · exact hs.signatures id registered hold
  · rcases native?_push h with rfl | hold
    · exact ⟨captured, hcaptured, hnative⟩
    · exact hs.confined id registered hold

end Store

end StagedCalculus

import ClassMap.Procedure
import ClassMap.Proofs.Resolution.Association

/-!
Procedures name fields in two places, as what they return and as what an argument is bound to. A
class whose procedures are resolved has all of these fields, under exactly the names that the
procedures keep.
-/

set_option autoImplicit false
set_option relaxedAutoImplicit false

namespace ClassMap.Scope

open Traversal

variable {s : Scope} {c : ClassDecl} {name : String}

/-- A field that an argument is bound to is one of the class. -/
def BindsField (s : Scope) (c : ClassDecl) (value : ArgumentValue) : Prop :=
  ∀ name isReturn, value = .runtime (some name) isReturn → ∃ f ∈ s.fieldsOf c, f.name = name

theorem exists_of_discard_field {use : FieldUse} (hname : Text.Trimmed name)
    (hfield : (discard (s.field c name use) : Except MappingError Unit) = .ok ()) :
    ∃ f ∈ s.fieldsOf c, f.name = name := by
  obtain ⟨f, hf⟩ := discard_eq_ok_iff.mp hfield
  obtain ⟨hmem, heq⟩ := field_eq_ok hname hf
  exact ⟨f, hmem, heq⟩

theorem trimmed_of_argument? {tag : Tag} {argument : ArgumentOptions} {isReturn : Bool}
    (hargument : argument? c tag = .ok (some argument))
    (hvalue : argument.value = .runtime (some name) isReturn) : Text.Trimmed name := by
  unfold argument? at hargument
  split at hargument
  · simp only [ArgumentOptions.parseRuntime, bind_eq_ok_iff, pure_eq_ok_iff,
      Option.some.injEq] at hargument
    obtain ⟨_, ⟨_, -, _, -, rfl⟩, rfl⟩ := hargument
    simp only [ArgumentValue.runtime.injEq] at hvalue
    exact TagReader.trimmed_of_text? hvalue.1
  · split at hargument
    · simp only [ArgumentOptions.parseConstant, bind_eq_ok_iff, pure_eq_ok_iff,
        Option.some.injEq] at hargument
      obtain ⟨_, ⟨_, -, rfl⟩, rfl⟩ := hargument
      exact absurd hvalue (by simp)
    · exact absurd hargument (by simp)

/-- Adding an argument keeps all arguments bound to fields of the class. -/
theorem bindsField_of_addArgument {tag : Tag} {before after : List ArgumentOptions}
    (hstep : s.addArgument c before tag = .ok after)
    (hbefore : ∀ argument ∈ before, s.BindsField c argument.value) :
    ∀ argument ∈ after, s.BindsField c argument.value := by
  unfold addArgument at hstep
  obtain ⟨found, hfound, hrest⟩ := bind_eq_ok_iff.mp hstep
  cases found with
  | none =>
    rw [pure_eq_ok_iff] at hrest
    exact hrest ▸ hbefore
  | some added =>
    dsimp only at hrest
    split at hrest
    · exact absurd hrest (by simp [throw, throwThe, MonadExceptOf.throw, bind, Except.bind])
    · simp only [bind_eq_ok_iff, pure_eq_ok_iff] at hrest
      obtain ⟨⟨⟩, hcheck, rfl⟩ := hrest
      intro argument hargument
      rcases List.mem_append.mp hargument with hargument | hargument
      · exact hbefore argument hargument
      · obtain rfl := List.mem_singleton.mp hargument
        intro name isReturn hvalue
        simp only [checkArgument, hvalue] at hcheck
        exact exists_of_discard_field (trimmed_of_argument? hfound hvalue) hcheck

theorem bindsField_of_arguments {arguments : List ArgumentOptions}
    (harguments : s.arguments c = .ok arguments) :
    ∀ argument ∈ arguments, s.BindsField c argument.value :=
  foldlM_keeps (fun arguments ↦ ∀ argument ∈ arguments, s.BindsField c argument.value) harguments
    (fun _ _ _ _ hstep hbefore ↦ bindsField_of_addArgument hstep hbefore)
    fun _ hargument ↦ absurd hargument List.not_mem_nil

theorem bindsField_of_bindArgument {procedure : String} {arguments : List ArgumentOptions}
    {value : ArgumentValue} (harguments : s.arguments c = .ok arguments)
    (hbind : bindArgument c procedure arguments name = .ok value) : s.BindsField c value := by
  unfold bindArgument at hbind
  split at hbind
  · rename_i argument hfound
    obtain rfl := Except.ok.inj hbind
    exact bindsField_of_arguments harguments argument (List.mem_of_find?_eq_some hfound)
  · exact absurd hbind (by simp)

theorem procedure_eq_ok {arguments : List ArgumentOptions} {kind : ProcedureKind} {tag : Tag}
    {d : ProcedureDescriptor} (hprocedure : s.procedure c arguments kind tag = .ok d) :
    ∃ (procedure : String) (names : List String),
      names.mapM (bindArgument c procedure arguments) = .ok d.arguments ∧
      ∀ name, d.returnFieldRef = some name →
        Text.Trimmed name ∧ discard (s.field c name (.returned procedure)) = .ok () := by
  obtain ⟨options, hoptions, hrest⟩ := bind_eq_ok_iff.mp hprocedure
  have hread : options.returnFieldRef = (TagReader.mk c.name tag).text? "return-field-ref" := by
    simp only [ProcedureOptions.parse, bind_eq_ok_iff, pure_eq_ok_iff] at hoptions
    obtain ⟨_, -, _, -, _, -, rfl⟩ := hoptions
    rfl
  refine ⟨options.name, options.arguments, ?_⟩
  cases hreturned : options.returnFieldRef with
  | none =>
    simp only [hreturned, bind_eq_ok_iff, pure_eq_ok_iff] at hrest
    obtain ⟨bound, hbound, rfl⟩ := hrest
    exact ⟨hbound, fun name hname ↦ absurd hname (by simp)⟩
  | some field =>
    simp only [hreturned, bind_eq_ok_iff, pure_eq_ok_iff] at hrest
    obtain ⟨⟨⟩, hfield, bound, hbound, rfl⟩ := hrest
    refine ⟨hbound, fun name hname ↦ ?_⟩
    obtain rfl := Option.some.inj hname
    exact ⟨TagReader.trimmed_of_text? (hread ▸ hreturned), hfield⟩

/-- What the procedures of a class name are fields of the class. -/
theorem procedures_eq_ok {procedures : List ProcedureDescriptor}
    (hprocedures : s.procedures c = .ok procedures) :
    ∀ procedure ∈ procedures,
      (∀ name, procedure.returnFieldRef = some name → ∃ f ∈ s.fieldsOf c, f.name = name) ∧
        ∀ value ∈ procedure.arguments, s.BindsField c value := by
  obtain ⟨arguments, harguments, hmap⟩ := bind_eq_ok_iff.mp hprocedures
  intro procedure hmem
  obtain ⟨⟨kind, tag⟩, -, hprocedure⟩ := exists_of_mem_mapM hmap hmem
  obtain ⟨_, names, hbound, hreturned⟩ := procedure_eq_ok hprocedure
  constructor
  · intro name hname
    obtain ⟨htrimmed, hfield⟩ := hreturned name hname
    exact exists_of_discard_field htrimmed hfield
  · intro value hvalue
    obtain ⟨argument, -, hbind⟩ := exists_of_mem_mapM hbound hvalue
    exact bindsField_of_bindArgument harguments hbind

end ClassMap.Scope

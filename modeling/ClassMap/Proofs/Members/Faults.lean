import ClassMap.Members.Table
import ClassMap.Proofs.Traversal

/-!
What can go wrong where. An error names its cause, and a computation that is put together from
others fails only by causes that one of them fails by. Cycles are found by two searches alone, one
along the supertypes and one along the nested members; reading options, patching members and putting
them together spares them.
-/

set_option autoImplicit false
set_option relaxedAutoImplicit false

namespace ClassMap

open Traversal

variable {α β σ : Type}

/-- Whatever goes wrong, its cause is one of these. -/
def FailsBy (P : MappingCause → Prop) (x : Except MappingError α) : Prop :=
  ∀ e, x = .error e → P e.cause

/-- Not what a search for a cycle reports. -/
def MappingCause.IsLocal (cause : MappingCause) : Prop :=
  cause ≠ .supertypeCycle ∧ cause ≠ .nestedCycle

/-- Whatever goes wrong, it is not a cycle. -/
abbrev SparesCycles (x : Except MappingError α) : Prop :=
  FailsBy MappingCause.IsLocal x

namespace FailsBy

variable {P Q : MappingCause → Prop} {x y : Except MappingError α} {e : MappingError}

theorem mono (h : FailsBy P x) (hPQ : ∀ cause, P cause → Q cause) : FailsBy Q x :=
  fun e he ↦ hPQ e.cause (h e he)

@[simp] theorem ok (a : α) : FailsBy P (.ok a) :=
  fun _ he ↦ absurd he (by simp)

@[simp] theorem pure (a : α) : FailsBy P (pure a : Except MappingError α) :=
  ok a

@[simp] theorem error_iff : FailsBy P (.error e : Except MappingError α) ↔ P e.cause :=
  ⟨fun h ↦ h e rfl, fun h _ he ↦ Except.error.inj he ▸ h⟩

@[simp] theorem throw_iff : FailsBy P (throw e : Except MappingError α) ↔ P e.cause :=
  error_iff

@[simp] theorem bind {f : α → Except MappingError β} (hx : FailsBy P x)
    (hf : ∀ a, FailsBy P (f a)) : FailsBy P (x >>= f) := by
  intro e he
  rcases bind_eq_error_iff.mp he with herror | ⟨a, -, herror⟩
  · exact hx e herror
  · exact hf a e herror

@[simp] theorem map {f : α → β} (hx : FailsBy P x) : FailsBy P (f <$> x) := by
  cases x with
  | error e => exact error_iff.mpr (error_iff.mp hx)
  | ok a => exact ok (f a)

@[simp] theorem discard (hx : FailsBy P x) : FailsBy P (discard x) :=
  hx.map

@[simp] theorem ite {p : Prop} [Decidable p] (hx : FailsBy P x) (hy : FailsBy P y) :
    FailsBy P (if p then x else y) := by
  split
  · exact hx
  · exact hy

@[simp] theorem foldlM {f : σ → α → Except MappingError σ} {xs : List α} {start : σ}
    (hf : ∀ s a, FailsBy P (f s a)) : FailsBy P (xs.foldlM f start) := by
  intro e he
  obtain ⟨a, -, s, herror⟩ := exists_error_of_foldlM he
  exact hf s a e herror

@[simp] theorem mapM {f : α → Except MappingError β} {xs : List α} (hf : ∀ a, FailsBy P (f a)) :
    FailsBy P (xs.mapM f) := by
  intro e he
  obtain ⟨a, -, herror⟩ := exists_error_of_mapM he
  exact hf a e herror

@[simp] theorem forM {f : α → Except MappingError Unit} {xs : List α}
    (hf : ∀ a, FailsBy P (f a)) : FailsBy P (forM xs f) := by
  induction xs with
  | nil => exact pure ()
  | cons a rest ih => exact (hf a).bind fun _ ↦ ih

end FailsBy

theorem SparesCycles.failsBy {x : Except MappingError α} (hx : SparesCycles x) :
    FailsBy (· ≠ .supertypeCycle) x :=
  hx.mono fun _ hlocal ↦ hlocal.1

/-! ### Readers -/

section Readers

variable (r : TagReader) (key : String)

@[simp] theorem sparesCycles_parsed? (parse : String → Except OptionFault α) :
    SparesCycles (r.parsed? key parse) := by
  unfold TagReader.parsed?
  split
  · simp
  · split <;> simp [TagReader.refuse, MappingCause.IsLocal]

@[simp] theorem sparesCycles_flag (default : Bool) : SparesCycles (r.flag key default) := by
  simp [TagReader.flag]

@[simp] theorem sparesCycles_unsigned? : SparesCycles (r.unsigned? key) :=
  sparesCycles_parsed? r key _

@[simp] theorem sparesCycles_signed? : SparesCycles (r.signed? key) :=
  sparesCycles_parsed? r key _

@[simp] theorem sparesCycles_required (need : String) : SparesCycles (r.required key need) := by
  unfold TagReader.required
  split <;> simp [TagReader.refuse, MappingCause.IsLocal]

@[simp] theorem sparesCycles_someEntries (need : String) :
    SparesCycles (r.someEntries key need) := by
  unfold TagReader.someEntries
  split <;> simp [TagReader.refuse, MappingCause.IsLocal]

end Readers

/-! ### Members -/

@[simp] theorem sparesCycles_suppresses (r : TagReader) : SparesCycles (suppresses r) := by
  unfold suppresses
  split <;> simp

@[simp] theorem sparesCycles_applyInheritedPatch (className : String) (m : EffectiveMembers)
    (patch : Tag) : SparesCycles (m.applyInheritedPatch className patch) := by
  refine .bind (by simp) fun name ↦ .bind (by simp) fun ignore ↦ ?_
  simp [MappingCause.IsLocal]

@[simp] theorem sparesCycles_applyNestedPatch (className : String) (m : EffectiveMembers)
    (patch : Tag) : SparesCycles (m.applyNestedPatch className patch) := by
  refine .bind (by simp) fun name ↦ .bind (by simp) fun ignore ↦ ?_
  simp [MappingCause.IsLocal]

@[simp] theorem sparesCycles_complete (c : ClassDecl) (inherited : EffectiveMembers)
    (own : OwnMembers) : SparesCycles (EffectiveMembers.complete c inherited own) := by
  refine .bind (.foldlM fun m patch ↦ by simp) fun m ↦ ?_
  exact .bind (.mapM fun f ↦ .bind (by simp) fun key ↦ .pure (f, key)) fun keyed ↦ .pure _

@[simp] theorem sparesCycles_applyInheritedPatches (c : ClassDecl) (m : EffectiveMembers) :
    SparesCycles (m.applyInheritedPatches c) := by
  simp [EffectiveMembers.applyInheritedPatches]

@[simp] theorem sparesCycles_nestedClass (h : Hierarchy) (c : ClassDecl) (d : DeclaredMapping) :
    SparesCycles (h.nestedClass c d) := by
  unfold Hierarchy.nestedClass
  dsimp only
  split <;> simp [MappingCause.IsLocal]

@[simp] theorem sparesCycles_contribution (h : Hierarchy) (c : ClassDecl) (d : DeclaredMapping) :
    SparesCycles (h.contribution c d) := by
  refine .ite (FailsBy.error_iff.mpr (by simp [MappingCause.IsLocal])) ?_
  cases d.kind with
  | nested => exact (sparesCycles_nestedClass h c d).map
  | field => exact .pure _
  | reference => exact .pure _
  | collection => exact .pure _

@[simp] theorem sparesCycles_addField (className : String) (own : OwnMembers) (f : EffectiveField) :
    SparesCycles (own.addField className f) := by
  simp [OwnMembers.addField, MappingCause.IsLocal]

@[simp] theorem sparesCycles_addAssociation (className : String) (own : OwnMembers)
    (a : EffectiveAssociation) : SparesCycles (own.addAssociation className a) := by
  simp [OwnMembers.addAssociation, MappingCause.IsLocal]

@[simp] theorem sparesCycles_addNested (className name : String) (own : OwnMembers)
    (inner : EffectiveMembers) : SparesCycles (own.addNested className name inner) := by
  simp [OwnMembers.addNested]

end ClassMap

import ClassMap.Proofs.Hierarchy.Below
import ClassMap.Proofs.Resolution.Classes
import ClassMap.Proofs.Restatement
import ClassMap.Proofs.Text.TypeArguments

/-!
Supertypes with type arguments. The declared type of a member comes down to a name without type
arguments before it is looked up, but the name of a supertype is looked up as it is written. So a
supertype that is written with type arguments is neither a class nor a library type: it can be left
out of the declaration without a change to the mapping (`parameterized_ignored`). To write it without
the arguments changes nothing if the name that remains is not heeded, and it does change the mapping
if a further class comes to be persistent by it.
-/

set_option autoImplicit false
set_option relaxedAutoImplicit false

namespace ClassMap

open Traversal

/-! ### What is heeded -/

variable {decls : List ClassDecl} {name : String}

/-- Whether a class is found under a name, blanks around the name aside or not. -/
def namesClass (decls : List ClassDecl) (name : String) : Bool :=
  decls.any fun c ↦ c.name == name || c.name == Text.trim name

theorem asksFor_eq_false (hclass : namesClass decls name = false)
    (hparameterized : (MemberType.parse name).isParameterized = true) :
    asksFor decls name = false := by
  have hplain : ∀ other, (MemberType.parse other).isParameterized = false → other ≠ name := by
    rintro other hother rfl
    exact absurd (hother.symm.trans hparameterized) (by simp)
  rw [asksFor, ← namesClass, hclass, Bool.false_or, List.any_eq_false]
  intro c _
  rw [List.any_eq_true]
  rintro ⟨member, -, hasked⟩
  rcases Bool.or_eq_true_iff.mp hasked with hcontainer | helement
  · have hcontainers : ∀ other ∈ Hierarchy.containerNames (MemberType.parse member.type),
        (MemberType.parse other).isParameterized = false := by
      simp only [Hierarchy.containerNames, List.forall_mem_cons]
      refine ⟨by decide, by decide, by decide, by decide, by decide,
        MemberType.isParameterized_rawName_parse _, ?_⟩
      exact fun _ hother ↦ absurd hother List.not_mem_nil
    exact hplain name (hcontainers name (List.contains_iff_mem.mp hcontainer)) rfl
  · exact hplain name (MemberType.isParameterized_of_elementType? (beq_iff_eq.mp helement)) rfl

/-- A name with type arguments is not heeded unless a class has it. -/
theorem heeds_eq_false (hclass : namesClass decls name = false)
    (hparameterized : (MemberType.parse name).isParameterized = true) :
    heeds decls name = false := by
  have hlibrary : LibraryType.find? name = none := by
    by_contra hsome
    obtain ⟨type, hfind⟩ := Option.ne_none_iff_exists'.mp hsome
    obtain ⟨htype, rfl⟩ := LibraryType.find?_eq_some hfind
    have hplain := LibraryType.isParameterized_of_mem type htype
    exact absurd (hplain.symm.trans hparameterized) (by simp)
  rw [heeds_eq_asksFor hlibrary, asksFor_eq_false hclass hparameterized]

/-! ### Other names for supertypes -/

namespace ClassDecl

/-- The declaration with other names for its supertypes, or without some of them. -/
def withSupertypes (f : String → Option String) (c : ClassDecl) : ClassDecl :=
  { c with superclass := c.superclass.bind f, interfaces := c.interfaces.filterMap f }

variable {f g : String → Option String}

theorem supertypeNames_withSupertypes (f : String → Option String) (c : ClassDecl) :
    (c.withSupertypes f).supertypeNames = c.supertypeNames.filterMap f := by
  rw [supertypeNames, supertypeNames, withSupertypes, List.filterMap_append]
  cases c.superclass with
  | none => rfl
  | some name => cases hname : f name <;> simp [hname]

theorem withSupertypes_congr {c : ClassDecl} (hsame : ∀ name ∈ c.supertypeNames, f name = g name) :
    c.withSupertypes f = c.withSupertypes g := by
  have hinterfaces : c.interfaces.filterMap f = c.interfaces.filterMap g :=
    List.filterMap_congr fun name hname ↦ hsame name (List.mem_append_right _ hname)
  have hsuperclass : c.superclass.bind f = c.superclass.bind g := by
    cases hsome : c.superclass with
    | none => rfl
    | some name => exact hsame name (List.mem_append_left _ (by simp [hsome]))
  rw [withSupertypes, withSupertypes, hinterfaces, hsuperclass]

theorem keepsTables_withSupertypes {h : Hierarchy}
    (hf : ∀ name, (f name).filter (heeds h.classes) = (some name).filter (heeds h.classes)) :
    KeepsTables h (withSupertypes f) id where
  name _ := rfl
  supertypeNames c := by
    rw [supertypeNames_withSupertypes, List.filter_filterMap, funext hf, ← List.filter_filterMap,
      List.filterMap_some]
  marked _ := rfl
  checked _ := rfl
  generateRepositoryInfo _ := rfl
  determineExtents _ := rfl
  extentTags _ := (List.map_id _).symm
  extentName _ _ _ := rfl
  isInterface _ := rfl
  options _ := rfl
  indexTags _ := (List.map_id _).symm
  indexed := Tag.Agree.refl _

theorem keepsProcedures_withSupertypes (f : String → Option String) :
    KeepsProcedures (withSupertypes f) id where
  procedureTags _ := by
    rw [Prod.map_id, List.map_id]
    rfl
  argumentTags _ := (List.map_id _).symm
  procedure := Tag.Agree.refl _
  runtime := Tag.Agree.refl _
  constant := Tag.Agree.refl _

end ClassDecl

/-- A renaming where it does not change what is heeded, and the name as it is elsewhere. -/
def idleRenaming (decls : List ClassDecl) (f : String → Option String) (name : String) :
    Option String :=
  if (f name).filter (heeds decls) = (some name).filter (heeds decls) then f name else some name

theorem filter_idleRenaming (f : String → Option String) (name : String) :
    (idleRenaming decls f name).filter (heeds decls) = (some name).filter (heeds decls) := by
  rw [idleRenaming]
  split
  case isTrue hidle => exact hidle
  case isFalse => rfl

/-- The names of supertypes are the only ones that a renaming is asked for. -/
theorem map_withSupertypes_idleRenaming {f : String → Option String}
    (hf : ∀ c ∈ decls, ∀ name ∈ c.supertypeNames,
      (f name).filter (heeds decls) = (some name).filter (heeds decls)) :
    decls.map (ClassDecl.withSupertypes (idleRenaming decls f)) =
      decls.map (ClassDecl.withSupertypes f) :=
  List.map_congr_left fun c hc ↦ ClassDecl.withSupertypes_congr fun name hname ↦
    if_pos (hf c hc name hname)

/-- Supertypes that are not heeded may be renamed to others that are not, and left out. -/
theorem resolveDeclarations_withSupertypes {f : String → Option String}
    (hf : ∀ c ∈ decls, ∀ name ∈ c.supertypeNames,
      (f name).filter (heeds decls) = (some name).filter (heeds decls))
    (checks : ChecksMode) (databaseName : String) :
    resolveDeclarations (decls.map (ClassDecl.withSupertypes f)) checks databaseName =
      resolveDeclarations decls checks databaseName := by
  have hname : ∀ c : ClassDecl, (c.withSupertypes (idleRenaming decls f)).name = c.name :=
    fun _ ↦ rfl
  have hidle : ∀ name,
      (idleRenaming decls f name).filter (heeds decls) = (some name).filter (heeds decls) :=
    filter_idleRenaming f
  rw [← map_withSupertypes_idleRenaming hf]
  refine resolveDeclarations_map hname (ClassDecl.keepsProcedures_withSupertypes _)
    (fun h hdecls ↦ ?_) checks databaseName
  rw [← Hierarchy.classes_of_ofDeclarations hdecls] at hidle ⊢
  have hkeeps : h.KeepsSettled (ClassDecl.withSupertypes (idleRenaming h.classes f)) :=
    ⟨ClassDecl.keepsTables_withSupertypes hidle, fun _ ↦ rfl, fun _ ↦ rfl,
      fun d _ m m' _ hm ↦ EffectiveMembers.map_settled_foldlM_applyInheritedPatch hm d.name _⟩
  exact ⟨hkeeps.toKeepsTables, hkeeps.mirrorsMembers⟩

/-! ### Supertypes with type arguments -/

namespace ClassDecl

/-- The declaration without the supertypes that are written with type arguments, unless a class has
that very name. -/
def withoutParameterized (decls : List ClassDecl) (c : ClassDecl) : ClassDecl :=
  c.withSupertypes fun name ↦
    if (MemberType.parse name).isParameterized && !namesClass decls name then none else some name

/-- The name without type arguments. -/
def erasedName (name : String) : String :=
  if (MemberType.parse name).isParameterized then (MemberType.parse name).rawName else name

/-- The declaration with its supertypes written without type arguments. -/
def erased (c : ClassDecl) : ClassDecl :=
  { c with superclass := c.superclass.map erasedName, interfaces := c.interfaces.map erasedName }

theorem erased_eq_withSupertypes (c : ClassDecl) :
    c.erased = c.withSupertypes (fun name ↦ some (erasedName name)) := by
  rw [erased, withSupertypes, Option.map_eq_bind, List.filterMap_eq_map']
  rfl

end ClassDecl

/-- No supertype that is written with type arguments is heeded, be it with them or without. -/
def ErasesIdly (decls : List ClassDecl) : Prop :=
  ∀ c ∈ decls, ∀ name ∈ c.supertypeNames, (MemberType.parse name).isParameterized = true →
    heeds decls name = false ∧ heeds decls (MemberType.parse name).rawName = false

instance (decls : List ClassDecl) : Decidable (ErasesIdly decls) :=
  inferInstanceAs (Decidable (∀ c ∈ decls, ∀ name ∈ c.supertypeNames, _ → _ ∧ _))

theorem resolveDeclarations_withoutParameterized (decls : List ClassDecl) (checks : ChecksMode)
    (databaseName : String) :
    resolveDeclarations (decls.map (ClassDecl.withoutParameterized decls)) checks databaseName =
      resolveDeclarations decls checks databaseName := by
  refine resolveDeclarations_withSupertypes (fun c _ name _ ↦ ?_) checks databaseName
  split
  · rename_i hidle
    obtain ⟨hparameterized, hclass⟩ := Bool.and_eq_true_iff.mp hidle
    have hheeds := heeds_eq_false (by simpa using hclass) hparameterized
    rw [Option.filter_none, Option.filter_some, hheeds]
    rfl
  · rfl

theorem ErasesIdly.resolveDeclarations_erased (hidle : ErasesIdly decls) (checks : ChecksMode)
    (databaseName : String) :
    resolveDeclarations (decls.map ClassDecl.erased) checks databaseName =
      resolveDeclarations decls checks databaseName := by
  rw [List.map_congr_left fun c _ ↦ c.erased_eq_withSupertypes]
  refine resolveDeclarations_withSupertypes (fun c hc name hname ↦ ?_) checks databaseName
  rw [ClassDecl.erasedName]
  split
  · rename_i hparameterized
    obtain ⟨hheeds, hraw⟩ := hidle c hc name hname hparameterized
    rw [Option.filter_some, Option.filter_some, hheeds, hraw]
    rfl
  · rfl

namespace Repository.ResolvedIn

variable {r : Repository} {checks : ChecksMode} {h : Hierarchy} {s : Scope}
  {changes : List SchemaChange}

/-- A class without a marker of its own is mapped if one above it enables persistence. -/
theorem exists_name_eq_of_enablesPersistence (hr : r.ResolvedIn decls checks h s changes)
    {b c : ClassDecl} (hb : b ∈ decls) (hc : c ∈ decls) (hbelow : StrictlyBelow decls c.name b.name)
    (henables : b.enablesPersistence = true) (hmarker : c.marker? = none) :
    ∃ d ∈ r.classes, d.name = c.name := by
  rw [← hr.decls_eq] at hb hc hbelow
  have hne : b ≠ c := fun heq ↦ hbelow.1 (heq ▸ rfl)
  have hchain : b ∈ h.supertypeChain c :=
    (Hierarchy.mem_supertypeChain_iff hc).mpr ⟨hne, hb, hbelow.2⟩
  have hpersistent : h.isPersistent c = true := by
    rw [Hierarchy.isPersistent, hmarker]
    exact List.any_eq_true.mpr ⟨b, hchain, henables⟩
  have hmem : c ∈ s.classes.map (·.decl) := by
    rw [(Hierarchy.persistentClasses_eq_ok hr.built.classes).1]
    exact List.mem_filter.mpr ⟨hc, hpersistent⟩
  obtain ⟨p, hp, rfl⟩ := List.mem_map.mp hmem
  obtain ⟨d, hd, hdescribes⟩ := Scope.exists_mem_describes hr.planned hp
  exact ⟨d, hd, hdescribes.name⟩

end Repository.ResolvedIn

/-- What becomes of the supertypes that are written with type arguments. -/
structure IgnoresParameterized (decls : List ClassDecl) (checks : ChecksMode)
    (databaseName : String) : Prop where
  /-- They may as well be left out. -/
  left_out :
    resolveDeclarations (decls.map (ClassDecl.withoutParameterized decls)) checks databaseName =
      resolveDeclarations decls checks databaseName
  /-- To leave out their arguments changes nothing if the remaining names are not heeded. -/
  erased : ErasesIdly decls →
    resolveDeclarations (decls.map ClassDecl.erased) checks databaseName =
      resolveDeclarations decls checks databaseName
  /-- It changes the mapping if by the remaining names a further class is to be persistent. -/
  persistence : ∀ r, resolveDeclarations decls checks databaseName = .ok r →
    ∀ b ∈ decls, ∀ c ∈ decls, StrictlyBelow (decls.map ClassDecl.erased) c.name b.name →
      b.enablesPersistence = true → c.marker? = none → (∀ d ∈ r.classes, d.name ≠ c.name) →
        resolveDeclarations (decls.map ClassDecl.erased) checks databaseName ≠
          resolveDeclarations decls checks databaseName

/-- Type arguments are not taken off the names of supertypes. -/
theorem parameterized_ignored (decls : List ClassDecl) (checks : ChecksMode)
    (databaseName : String) : IgnoresParameterized decls checks databaseName := by
  constructor
  case left_out => exact resolveDeclarations_withoutParameterized decls checks databaseName
  case erased => exact fun hidle ↦ hidle.resolveDeclarations_erased checks databaseName
  case persistence =>
    intro r hr b hb c hc hbelow henables hmarker hmissing hsame
    obtain ⟨h, s, changes, hresolved⟩ := exists_resolvedIn (hsame.trans hr)
    obtain ⟨d, hd, hname⟩ := hresolved.exists_name_eq_of_enablesPersistence
      (List.mem_map_of_mem hb) (List.mem_map_of_mem hc) hbelow henables hmarker
    exact hmissing d hd hname

/-- Entries of a ledger, each with a number. -/
def ledgerEntry : ClassDecl where
  name := "Entry"
  tags := [⟨"ojb.class", []⟩]
  members := [⟨"id", "int", [⟨"ojb.field", [("primarykey", "true")]⟩]⟩]

/-- Payments are entries, and nobody asks what can be compared. -/
def payment : ClassDecl where
  name := "Payment"
  superclass := some "Entry"
  interfaces := ["java.lang.Comparable<Payment>"]

/-- Refunds are entries in some currency. -/
def refund : ClassDecl where
  name := "Refund"
  superclass := some "Entry<Currency>"

/-- The folder of a ledger is a list of entries. -/
def ledgerFolder : ClassDecl where
  name := "Folder"
  superclass := some "java.util.ArrayList<Entry>"

theorem parameterized_ignored_ledger :
    ErasesIdly [ledgerEntry, payment] ∧
      [ledgerEntry, payment].map ClassDecl.erased ≠ [ledgerEntry, payment] ∧
      resolveDeclarations ([ledgerEntry, payment].map ClassDecl.erased) .strict "ledger" =
        resolveDeclarations [ledgerEntry, payment] .strict "ledger" ∧
      resolveDeclarations ([ledgerEntry, refund].map ClassDecl.erased) .strict "ledger" ≠
        resolveDeclarations [ledgerEntry, refund] .strict "ledger" := by
  have hidle : ErasesIdly [ledgerEntry, payment] := by decide +kernel
  have hok : (do
      let r ← resolveDeclarations [ledgerEntry, refund] .strict "ledger"
      return r.classes.map ClassDescriptor.name) = .ok ["Entry"] := by
    decide +kernel
  obtain ⟨r, hr, hnames⟩ := bind_eq_ok_iff.mp hok
  have hmissing : ∀ d ∈ r.classes, d.name ≠ refund.name := by
    intro d hd hname
    have hmem : refund.name ∈ r.classes.map (·.name) := hname ▸ List.mem_map_of_mem hd
    rw [pure_eq_ok_iff.mp hnames] at hmem
    exact absurd hmem (by decide)
  have hbelow : StrictlyBelow ([ledgerEntry, refund].map ClassDecl.erased) refund.name
      ledgerEntry.name :=
    ⟨by decide, .single ⟨refund.erased, by simp, rfl, by decide +kernel⟩⟩
  refine ⟨hidle, by decide +kernel, (parameterized_ignored _ .strict "ledger").erased hidle, ?_⟩
  exact (parameterized_ignored _ .strict "ledger").persistence r hr ledgerEntry (by simp) refund
    (by simp) hbelow (by decide +kernel) rfl hmissing

/-- Refunds do not come to be mapped as entries are, and folders not to be collections. -/
theorem not_erasure_invisible_ledger :
    (¬ ∀ (decls : List ClassDecl) (checks : ChecksMode) (databaseName : String),
      resolveDeclarations (decls.map ClassDecl.erased) checks databaseName =
        resolveDeclarations decls checks databaseName) ∧
      (do
        let h ← Hierarchy.ofDeclarations [ledgerFolder]
        let erased ← Hierarchy.ofDeclarations [ledgerFolder.erased]
        return (h.isSubtypeName "Folder" LibraryType.collection,
          erased.isSubtypeName "Folder" LibraryType.collection)) = .ok (false, true) := by
  refine ⟨fun hall ↦ ?_, by decide +kernel⟩
  have hclasses := congrArg (Except.map fun r : Repository ↦ r.classes.map (·.name))
    (hall [ledgerEntry, refund] .strict "ledger")
  exact absurd hclasses (by decide +kernel)

end ClassMap

import Mathlib.Data.List.Perm.Subperm
import ClassMap.Proofs.Members.Complete
import ClassMap.Proofs.Members.Dependency
import ClassMap.Proofs.Members.Faults

/-!
The members of a class by plain recursion, and what the table has to do with it. The classes under
way are different declared ones, so their number bounds the depth of the recursion and any larger
bound makes no difference. A table that is made entry by entry answers with what the recursion would
come to, so computing with a table and without one come to the same, errors included. The recursion
reports a cycle only when it comes back to a class under way, and each class under way depends on
those after it.
-/

set_option autoImplicit false
set_option relaxedAutoImplicit false

namespace ClassMap

open Traversal

/-- Nothing that is under way has an entry yet. -/
def MemberTable.FreeOf (table : MemberTable) (path : List String) : Prop :=
  ∀ name ∈ path, table.lookup name = none

namespace Hierarchy

variable {h : Hierarchy} {c d : ClassDecl} {table later : MemberTable} {path : List String}
  {m : EffectiveMembers} {depth other : Nat}
  {plain : ClassDecl → Except MappingError EffectiveMembers} {compute : Compute}

/-! ### One level of the recursion -/

/-- What a class inherits from one above it, the members there coming from the recursion. -/
def inheritBy (plain : ClassDecl → Except MappingError EffectiveMembers)
    (inherited : EffectiveMembers) (above : ClassDecl) : Except MappingError EffectiveMembers := do
  return inherited.inherit (← plain above)

/-- The same with a table that is passed on. -/
def inheritFrom (compute : Compute) :
    EffectiveMembers × MemberTable → ClassDecl →
      Except MappingError (EffectiveMembers × MemberTable) :=
  fun (inherited, table) above ↦ do
    let (members, table) ← compute table above
    return (inherited.inherit members, table)

/-- One mapping of a class, the fields of nested classes coming from the recursion. -/
def addMappingBy (h : Hierarchy) (plain : ClassDecl → Except MappingError EffectiveMembers)
    (c : ClassDecl) (own : OwnMembers) (d : DeclaredMapping) : Except MappingError OwnMembers := do
  match ← h.contribution c d with
  | .field f => own.addField c.name f
  | .association a => own.addAssociation c.name a
  | .nested name inner => own.addNested c.name name (← plain inner)

/-- The members of a class, those of the classes it needs coming from the recursion. -/
def membersBy (h : Hierarchy) (plain : ClassDecl → Except MappingError EffectiveMembers)
    (c : ClassDecl) : Except MappingError EffectiveMembers := do
  let inherited ← (h.inheritedFrom c).foldlM (inheritBy plain) {}
  let inherited ← inherited.applyInheritedPatches c
  let own ← c.mappings.foldlM (h.addMappingBy plain c) {}
  EffectiveMembers.complete c inherited own

/-- The same with a table that is passed on. -/
def membersFrom (h : Hierarchy) (compute : Compute) (table : MemberTable) (c : ClassDecl) :
    Except MappingError (EffectiveMembers × MemberTable) := do
  let (inherited, table) ← (h.inheritedFrom c).foldlM (inheritFrom compute) ({}, table)
  let inherited ← inherited.applyInheritedPatches c
  let (own, table) ← c.mappings.foldlM (h.addMappingFrom compute c) ({}, table)
  let members ← EffectiveMembers.complete c inherited own
  return (members, table)

theorem membersOf_of_mem (hpath : c.name ∈ path) :
    h.membersOf depth path c = .error ⟨c.name, .nestedCycle⟩ := by
  cases depth with
  | zero => rfl
  | succ depth =>
    have hunder : path.contains c.name = true := by simpa using hpath
    rw [membersOf, if_pos hunder]

theorem membersOf_succ (hpath : c.name ∉ path) :
    h.membersOf (depth + 1) path c = h.membersBy (h.membersOf depth (c.name :: path)) c := by
  have hunder : ¬ path.contains c.name = true := by simpa using hpath
  rw [membersOf, if_neg hunder]
  rfl

theorem computeMembers_of_mem (hnew : table.lookup c.name = none) (hpath : c.name ∈ path) :
    h.computeMembers depth path table c = .error ⟨c.name, .nestedCycle⟩ := by
  cases depth with
  | zero => rfl
  | succ depth =>
    have hunder : path.contains c.name = true := by simpa using hpath
    rw [computeMembers, hnew]
    simp only [hunder, if_true]

theorem computeMembers_of_new (hnew : table.lookup c.name = none) (hpath : c.name ∉ path) :
    h.computeMembers (depth + 1) path table c = (do
      let (members, table) ← h.membersFrom (h.computeMembers depth (c.name :: path)) table c
      return (members, (c.name, members) :: table)) := by
  have hunder : path.contains c.name = false := by simpa using hpath
  rw [computeMembers, hnew]
  simp only [hunder, Bool.false_eq_true, if_false, membersFrom, bind_assoc, pure_bind]
  rfl

theorem addMappingBy_congr {other : ClassDecl → Except MappingError EffectiveMembers}
    {mapping : DeclaredMapping} {own : OwnMembers}
    (hsame : ∀ inner, mapping.kind = .nested → h.nestedClass c mapping = .ok inner →
      plain inner = other inner) :
    h.addMappingBy plain c own mapping = h.addMappingBy other c own mapping := by
  cases hcontribution : h.contribution c mapping with
  | error e => simp only [addMappingBy, hcontribution, bind, Except.bind]
  | ok contribution =>
    rcases contribution_eq_ok hcontribution with ⟨f, rfl, -⟩ | ⟨a, rfl, -⟩ |
      ⟨inner, rfl, hkind, hinner⟩
    · simp only [addMappingBy, hcontribution, bind, Except.bind]
    · simp only [addMappingBy, hcontribution, bind, Except.bind]
    · simp only [addMappingBy, hcontribution, bind, Except.bind, hsame inner hkind hinner]

/-- One level reads the recursion at the classes that are needed only. -/
theorem membersBy_congr {other : ClassDecl → Except MappingError EffectiveMembers}
    (hsame : ∀ d, h.Needs c d → plain d = other d) : h.membersBy plain c = h.membersBy other c := by
  have hinherited : ∀ d ∈ h.inheritedFrom c, ∀ inherited,
      inheritBy plain inherited d = inheritBy other inherited d :=
    fun d hd inherited ↦ by rw [inheritBy, inheritBy, hsame d (Or.inl hd)]
  have hadd : ∀ mapping ∈ c.mappings, ∀ own,
      h.addMappingBy plain c own mapping = h.addMappingBy other c own mapping :=
    fun mapping hmapping own ↦ addMappingBy_congr fun inner hkind hinner ↦
      hsame inner (Or.inr ⟨mapping, hmapping, hkind, hinner⟩)
  rw [membersBy, membersBy, foldlM_congr hinherited, foldlM_congr hadd]

/-- Where the recursion gives the members of the classes that are needed, one level is one step. -/
theorem membersBy_eq_stepMembers {of : ClassDecl → EffectiveMembers}
    (hof : ∀ d, h.Needs c d → plain d = .ok (of d)) : h.membersBy plain c = h.stepMembers of c := by
  have hsame : h.membersBy plain c = h.membersBy (fun d ↦ .ok (of d)) c := membersBy_congr hof
  have hinherited : (h.inheritedFrom c).foldlM (inheritBy fun d ↦ .ok (of d)) {} =
      .ok (h.inheritAll of c) :=
    List.foldlM_pure
  rw [hsame, membersBy, hinherited]
  rfl

/-! ### The classes under way -/

/-- The classes under way are different declared ones, and there is room for the rest. -/
structure Underway (h : Hierarchy) (depth : Nat) (path : List String) : Prop where
  nodup : path.Nodup
  declared : ∀ name ∈ path, name ∈ h.classes.map (·.name)
  room : h.classes.length < depth + path.length

theorem Underway.start (hdepth : h.depth ≤ depth) : h.Underway depth [] :=
  ⟨List.nodup_nil, by simp, by simpa using Nat.lt_of_lt_of_le (Nat.lt_succ_self _) hdepth⟩

theorem underway_nil (h : Hierarchy) : h.Underway h.depth [] :=
  .start (Nat.le_refl h.depth)

theorem Underway.push (hpath : h.Underway (depth + 1) path) (hc : c ∈ h.classes)
    (hnew : c.name ∉ path) : h.Underway depth (c.name :: path) := by
  refine ⟨List.nodup_cons.mpr ⟨hnew, hpath.nodup⟩, ?_, ?_⟩
  · intro name hname
    rcases List.mem_cons.mp hname with rfl | hname
    · exact List.mem_map_of_mem hc
    · exact hpath.declared name hname
  · have hroom := hpath.room
    rw [List.length_cons]
    omega

/-- The bound is not met: no more classes are under way than there are. -/
theorem Underway.exists_succ (hpath : h.Underway depth path) : ∃ k, depth = k + 1 := by
  have hlength : path.length ≤ h.classes.length := by
    simpa using (List.subperm_of_subset hpath.nodup hpath.declared).length_le
  have hroom := hpath.room
  exact ⟨depth - 1, by omega⟩

theorem Needs.mem_classes (hd : h.Needs c d) : d ∈ h.classes :=
  (needs_iff_dependsOn.mp hd).mem_classes

/-- A larger bound makes no difference to the recursion. -/
theorem membersOf_eq_of_underway (hpath : h.Underway depth path) (hpath' : h.Underway other path)
    (hc : c ∈ h.classes) : h.membersOf depth path c = h.membersOf other path c := by
  induction depth generalizing other path c with
  | zero =>
    obtain ⟨k, hk⟩ := hpath.exists_succ
    exact absurd hk (by simp)
  | succ depth ih =>
    obtain ⟨other, rfl⟩ := hpath'.exists_succ
    by_cases hunder : c.name ∈ path
    · rw [membersOf_of_mem hunder, membersOf_of_mem hunder]
    · rw [membersOf_succ hunder, membersOf_succ hunder]
      exact membersBy_congr fun d hd ↦
        ih (hpath.push hc hunder) (hpath'.push hc hunder) hd.mem_classes

/-- What a class inherits stays the same if the recursion gives the same above it. -/
theorem foldlM_inheritBy_of_ok {other : ClassDecl → Except MappingError EffectiveMembers}
    (hsame : ∀ d, h.Needs c d → ∀ m, plain d = .ok m → other d = .ok m)
    (hm : (h.inheritedFrom c).foldlM (inheritBy plain) {} = .ok m) :
    (h.inheritedFrom c).foldlM (inheritBy other) {} = .ok m := by
  obtain ⟨last, hlast, rfl⟩ := exists_foldlM (g := inheritBy other) (R := Eq)
    (fun d hd inherited next start heq hstep ↦ by
      subst heq
      obtain ⟨above, habove, hnext⟩ := bind_eq_ok_iff.mp hstep
      exact ⟨next, bind_eq_ok_iff.mpr ⟨above, hsame d (Or.inl hd) above habove, hnext⟩, rfl⟩)
    rfl hm
  exact hlast

/-- One level succeeds with any recursion that gives the same where it is needed. -/
theorem membersBy_of_ok {other : ClassDecl → Except MappingError EffectiveMembers}
    (hsame : ∀ d, h.Needs c d → ∀ m, plain d = .ok m → other d = .ok m)
    (hm : h.membersBy plain c = .ok m) : h.membersBy other c = .ok m := by
  obtain ⟨raw, hraw, hrest⟩ := bind_eq_ok_iff.mp hm
  obtain ⟨inherited, hinherited, hrest⟩ := bind_eq_ok_iff.mp hrest
  obtain ⟨own, hown, hcomplete⟩ := bind_eq_ok_iff.mp hrest
  obtain ⟨last, hlast, rfl⟩ := exists_foldlM (g := h.addMappingBy other c) (R := Eq)
    (fun mapping hmapping own next start heq hstep ↦ by
      subst heq
      obtain ⟨contribution, hcontribution, hadd⟩ := bind_eq_ok_iff.mp hstep
      refine ⟨next, bind_eq_ok_iff.mpr ⟨contribution, hcontribution, ?_⟩, rfl⟩
      rcases contribution_eq_ok hcontribution with ⟨f, rfl, -⟩ | ⟨a, rfl, -⟩ |
        ⟨inner, rfl, hkind, hinner⟩
      · exact hadd
      · exact hadd
      · obtain ⟨members, hmembers, hnested⟩ := bind_eq_ok_iff.mp hadd
        have hneeds : h.Needs c inner := Or.inr ⟨mapping, hmapping, hkind, hinner⟩
        exact bind_eq_ok_iff.mpr ⟨members, hsame inner hneeds members hmembers, hnested⟩)
    rfl hown
  exact bind_eq_ok_iff.mpr ⟨raw, foldlM_inheritBy_of_ok hsame hraw,
    bind_eq_ok_iff.mpr ⟨inherited, hinherited, bind_eq_ok_iff.mpr ⟨own, hlast, hcomplete⟩⟩⟩

/-- What the recursion gives with some classes under way it gives with fewer of them. -/
theorem membersOf_of_ok {fewer : List String} (hpath : h.Underway depth path)
    (hfewer : h.Underway other fewer) (hsubset : fewer ⊆ path) (hc : c ∈ h.classes)
    (hm : h.membersOf depth path c = .ok m) : h.membersOf other fewer c = .ok m := by
  induction depth generalizing other path fewer c m with
  | zero =>
    obtain ⟨k, hk⟩ := hpath.exists_succ
    exact absurd hk (by simp)
  | succ depth ih =>
    obtain ⟨other, rfl⟩ := hfewer.exists_succ
    by_cases hunder : c.name ∈ path
    · rw [membersOf_of_mem hunder] at hm
      exact absurd hm (by simp)
    · have hnew : c.name ∉ fewer := fun hmem ↦ hunder (hsubset hmem)
      rw [membersOf_succ hunder] at hm
      rw [membersOf_succ hnew]
      exact membersBy_of_ok (fun d hd m hm ↦ ih (hpath.push hc hunder) (hfewer.push hc hnew)
        (List.cons_subset_cons c.name hsubset) hd.mem_classes hm) hm

/-- One level with a table reads it at the classes that are needed only. -/
theorem membersFrom_congr {other : Compute}
    (hsame : ∀ d, h.Needs c d → ∀ table, compute table d = other table d) :
    h.membersFrom compute table c = h.membersFrom other table c := by
  have hinherited : ∀ d ∈ h.inheritedFrom c, ∀ state,
      inheritFrom compute state d = inheritFrom other state d :=
    fun d hd state ↦ by rw [inheritFrom, inheritFrom, hsame d (Or.inl hd)]
  have hadd : ∀ mapping ∈ c.mappings, ∀ state,
      h.addMappingFrom compute c state mapping = h.addMappingFrom other c state mapping := by
    intro mapping hmapping state
    cases hcontribution : h.contribution c mapping with
    | error e => simp only [addMappingFrom, hcontribution, bind, Except.bind]
    | ok contribution =>
      rcases contribution_eq_ok hcontribution with ⟨f, rfl, -⟩ | ⟨a, rfl, -⟩ |
        ⟨inner, rfl, hkind, hinner⟩
      · simp only [addMappingFrom, hcontribution, bind, Except.bind]
      · simp only [addMappingFrom, hcontribution, bind, Except.bind]
      · have hneeds : h.Needs c inner := Or.inr ⟨mapping, hmapping, hkind, hinner⟩
        simp only [addMappingFrom, hcontribution, bind, Except.bind, hsame inner hneeds]
  rw [membersFrom, membersFrom, foldlM_congr hinherited]
  simp only [foldlM_congr hadd]

/-- A larger bound makes no difference to the computation with a table either. -/
theorem computeMembers_eq_of_underway (hpath : h.Underway depth path)
    (hpath' : h.Underway other path) (hc : c ∈ h.classes) (table : MemberTable) :
    h.computeMembers depth path table c = h.computeMembers other path table c := by
  induction depth generalizing other path c table with
  | zero =>
    obtain ⟨k, hk⟩ := hpath.exists_succ
    exact absurd hk (by simp)
  | succ depth ih =>
    obtain ⟨other, rfl⟩ := hpath'.exists_succ
    cases hlookup : table.lookup c.name with
    | some members => rw [computeMembers, computeMembers, hlookup]
    | none =>
      by_cases hunder : c.name ∈ path
      · rw [computeMembers_of_mem hlookup hunder, computeMembers_of_mem hlookup hunder]
      · have hneeds : ∀ d, h.Needs c d → ∀ table,
            h.computeMembers depth (c.name :: path) table d =
              h.computeMembers other (c.name :: path) table d :=
          fun d hd ↦ ih (hpath.push hc hunder) (hpath'.push hc hunder) hd.mem_classes
        rw [computeMembers_of_new hlookup hunder, computeMembers_of_new hlookup hunder]
        rw [membersFrom_congr hneeds]

/-! ### With a table and without one -/

/-- Computing a class with a table comes to what the recursion comes to. -/
def Compute.Follows (h : Hierarchy) (path : List String) (compute : Compute)
    (plain : ClassDecl → Except MappingError EffectiveMembers) (d : ClassDecl) : Prop :=
  ∀ table, Grounded h table → table.FreeOf path →
    (compute table d).map Prod.fst = plain d

/-- What stays true of a table while it grows. -/
def Usable (h : Hierarchy) (path : List String) (table : MemberTable) : Prop :=
  Grounded h table ∧ table.FreeOf path

theorem Grows.usable (hgrows : Grows h path table later) (hfree : table.FreeOf path) :
    h.Usable path later :=
  ⟨hgrows.grounded, fun name hname ↦ hgrows.fresh name hname (hfree name hname)⟩

theorem inheritFrom_follows (henters : compute.Enters h path)
    (hfollows : compute.Follows h path plain d) (hd : d ∈ h.classes)
    (htable : h.Usable path table) (inherited : EffectiveMembers) :
    (inheritFrom compute (inherited, table) d).map Prod.fst = inheritBy plain inherited d ∧
      ∀ result later, inheritFrom compute (inherited, table) d = .ok (result, later) →
        h.Usable path later := by
  rw [inheritBy, ← hfollows table htable.1 htable.2]
  simp only [inheritFrom]
  cases hcompute : compute table d with
  | error e => exact ⟨rfl, fun _ _ hlater ↦ absurd hlater (by simp [bind, Except.bind])⟩
  | ok result =>
    obtain ⟨members, grown⟩ := result
    refine ⟨rfl, fun _ _ hlater ↦ ?_⟩
    obtain ⟨-, rfl⟩ := Prod.mk.inj (pure_eq_ok_iff.mp hlater)
    exact (henters table d members grown hd htable.1 hcompute).1.usable htable.2

theorem addMappingFrom_follows (henters : compute.Enters h path) {mapping : DeclaredMapping}
    (hfollows : ∀ inner, mapping.kind = .nested → h.nestedClass c mapping = .ok inner →
      compute.Follows h path plain inner)
    (htable : h.Usable path table) (own : OwnMembers) :
    (h.addMappingFrom compute c (own, table) mapping).map Prod.fst =
        h.addMappingBy plain c own mapping ∧
      ∀ result later, h.addMappingFrom compute c (own, table) mapping = .ok (result, later) →
        h.Usable path later := by
  refine ⟨?_, fun result later hadd ↦
    (addMappingFrom_eq_ok henters htable.1 hadd).1.usable htable.2⟩
  cases hcontribution : h.contribution c mapping with
  | error e =>
    simp only [addMappingFrom, addMappingBy, hcontribution, bind, Except.bind, Except.map]
  | ok contribution =>
    simp only [addMappingFrom, addMappingBy, hcontribution, bind, Except.bind]
    rcases contribution_eq_ok hcontribution with ⟨f, rfl, -⟩ | ⟨a, rfl, -⟩ |
      ⟨inner, rfl, hkind, hinner⟩
    · dsimp only
      cases own.addField c.name f <;> rfl
    · dsimp only
      cases own.addAssociation c.name a <;> rfl
    · have hsame := hfollows inner hkind hinner table htable.1 htable.2
      dsimp only
      rw [← hsame]
      cases compute table inner with
      | error e => rfl
      | ok result =>
        obtain ⟨members, grown⟩ := result
        dsimp only [Except.map]
        cases own.addNested c.name (Text.trim mapping.name) members <;> rfl

/-- One level comes to the same with a table and without one. -/
theorem map_fst_membersFrom (henters : compute.Enters h path)
    (hfollows : ∀ d, h.Needs c d → compute.Follows h path plain d)
    (htable : h.Usable path table) :
    (h.membersFrom compute table c).map Prod.fst = h.membersBy plain c := by
  obtain ⟨hinherited, hfirst⟩ := map_fst_foldlM (h.Usable path) {}
    (fun d hd inherited table htable ↦
      inheritFrom_follows henters (hfollows d (Or.inl hd)) (mem_classes_of_mem_inheritedFrom hd)
        htable inherited) htable
  rw [membersFrom, membersBy, ← hinherited]
  cases hpass : (h.inheritedFrom c).foldlM (inheritFrom compute) ({}, table) with
  | error e => rfl
  | ok state =>
    obtain ⟨raw, grown⟩ := state
    -- the second pass starts from the table that the first one left
    have hgrown := hfirst raw grown hpass
    cases hpatched : raw.applyInheritedPatches c with
    | error e => simp only [bind, Except.bind, Except.map, hpatched]
    | ok inherited =>
      obtain ⟨hown, -⟩ := map_fst_foldlM (h.Usable path) {}
        (fun mapping hmapping own table htable ↦
          addMappingFrom_follows henters (fun inner hkind hinner ↦
            hfollows inner (Or.inr ⟨mapping, hmapping, hkind, hinner⟩)) htable own) hgrown
      simp only [bind, Except.bind, Except.map, hpatched] at hown ⊢
      rw [← hown]
      cases c.mappings.foldlM (h.addMappingFrom compute c) (({} : OwnMembers), grown) with
      | error e => rfl
      | ok last =>
        obtain ⟨own, _⟩ := last
        dsimp only
        cases EffectiveMembers.complete c inherited own <;> rfl

/-- What a grounded table has for a class is what the recursion comes to. -/
theorem Grounded.membersOf_eq_ok (htable : Grounded h table) (hpath : h.Underway depth path)
    (hfree : table.FreeOf path) (hc : c ∈ h.classes) (hhas : table.Has c) :
    h.membersOf depth path c = .ok (table.membersOf c) := by
  induction htable generalizing c depth path with
  | nil =>
    obtain ⟨m, hm⟩ := hhas
    exact absurd hm (by simp)
  | @cons below d m hd hbelow hnew hneeds hmade ih =>
    have hself : List.lookup d.name ((d.name, m) :: below) = some m := List.lookup_cons_self
    have hunder : d.name ∉ path := by
      intro hmem
      rw [hfree d.name hmem] at hself
      exact absurd hself (by simp)
    have hfreeBelow : below.FreeOf path := by
      intro name hname
      have hne : name ≠ d.name := fun heq ↦ hunder (heq ▸ hname)
      have hnone := hfree name hname
      rwa [List.lookup_cons, beq_false_of_ne hne] at hnone
    -- the entry of the class itself was made from what stands below it; all others stand below
    by_cases hname : c.name = d.name
    · obtain rfl := eq_of_name_eq hc hd hname
      obtain ⟨depth, rfl⟩ := hpath.exists_succ
      have hfreeAll : below.FreeOf (c.name :: path) := by
        intro name hmem
        rcases List.mem_cons.mp hmem with rfl | hmem
        · exact hnew
        · exact hfreeBelow name hmem
      rw [membersOf_succ hunder, membersBy_eq_stepMembers fun e he ↦
        ih (hpath.push hc hunder) hfreeAll (hneeds e he).1 (hneeds e he).2, hmade,
        membersOf_eq_of_lookup hself]
    · rw [membersOf_cons_of_ne hname]
      exact ih hpath hfreeBelow hc ((has_cons_iff_of_ne hname).mp hhas)

/-- Computing a class with a table comes to what the recursion comes to, errors included. -/
theorem computeMembers_follows (hpath : h.Underway depth path) (hc : c ∈ h.classes) :
    Compute.Follows h path (h.computeMembers depth path) (h.membersOf depth path) c := by
  induction depth generalizing path c with
  | zero =>
    obtain ⟨k, hk⟩ := hpath.exists_succ
    exact absurd hk (by simp)
  | succ depth ih =>
    intro table htable hfree
    cases hlookup : table.lookup c.name with
    | some members =>
      rw [htable.membersOf_eq_ok hpath hfree hc ⟨members, hlookup⟩, membersOf_eq_of_lookup hlookup,
        computeMembers, hlookup]
      rfl
    | none =>
      by_cases hunder : c.name ∈ path
      · rw [computeMembers_of_mem hlookup hunder, membersOf_of_mem hunder]
        rfl
      -- the class goes on the way, and the table has no entry for what is on the way
      · have henters : Compute.Enters h (c.name :: path)
            (h.computeMembers depth (c.name :: path)) :=
          fun _ _ _ _ hd htable hm ↦ computeMembers_eq_ok hd htable hm
        have hfreeAll : table.FreeOf (c.name :: path) := by
          intro name hmem
          rcases List.mem_cons.mp hmem with rfl | hmem
          · exact hlookup
          · exact hfree name hmem
        rw [computeMembers_of_new hlookup hunder, membersOf_succ hunder,
          ← map_fst_membersFrom henters
            (fun d hd ↦ ih (hpath.push hc hunder) hd.mem_classes) ⟨htable, hfreeAll⟩]
        cases h.membersFrom (h.computeMembers depth (c.name :: path)) table c <;> rfl

/-! ### Where a cycle is reported -/

/-- One level reports a cycle only if the recursion does so at a class that is needed. -/
theorem exists_needs_of_membersBy_error {e : MappingError}
    (he : h.membersBy plain c = .error e) (hcause : e.cause = .nestedCycle) :
    ∃ d, h.Needs c d ∧ plain d = .error e := by
  have hspares : ∀ {α : Type} {x : Except MappingError α}, SparesCycles x → x ≠ .error e :=
    fun hx herror ↦ (hx e herror).2 hcause
  rcases bind_eq_error_iff.mp he with hinherited | ⟨raw, -, hrest⟩
  · obtain ⟨d, hd, inherited, herror⟩ := exists_error_of_foldlM hinherited
    rcases bind_eq_error_iff.mp herror with herror | ⟨m, -, herror⟩
    · exact ⟨d, Or.inl hd, herror⟩
    · exact absurd herror (hspares (.pure _))
  rcases bind_eq_error_iff.mp hrest with hpatched | ⟨inherited, -, hrest⟩
  · exact absurd hpatched (hspares (sparesCycles_applyInheritedPatches c raw))
  rcases bind_eq_error_iff.mp hrest with hown | ⟨own, -, hrest⟩
  · obtain ⟨mapping, hmapping, own, herror⟩ := exists_error_of_foldlM hown
    rcases bind_eq_error_iff.mp herror with herror | ⟨contribution, hcontribution, herror⟩
    · exact absurd herror (hspares (sparesCycles_contribution h c mapping))
    rcases contribution_eq_ok hcontribution with ⟨f, rfl, -⟩ | ⟨a, rfl, -⟩ |
      ⟨inner, rfl, hkind, hinner⟩
    · exact absurd herror (hspares (sparesCycles_addField c.name own f))
    · exact absurd herror (hspares (sparesCycles_addAssociation c.name own a))
    · rcases bind_eq_error_iff.mp herror with herror | ⟨m, -, herror⟩
      · exact ⟨inner, Or.inr ⟨mapping, hmapping, hkind, hinner⟩, herror⟩
      · exact absurd herror (hspares (sparesCycles_addNested c.name (Text.trim mapping.name) own m))
  · exact absurd hrest (hspares (sparesCycles_complete c inherited own))

/-- A cycle is reported at a class that depends on itself, if every class under way depends on
those after it. -/
theorem exists_transGen_of_membersOf_error {e : MappingError} (hpath : h.Underway depth path)
    (hleads : ∀ name ∈ path, ∃ p ∈ h.classes, p.name = name ∧ Relation.TransGen h.DependsOn p c)
    (hc : c ∈ h.classes) (he : h.membersOf depth path c = .error e)
    (hcause : e.cause = .nestedCycle) :
    ∃ d ∈ h.classes, d.name = e.className ∧ Relation.TransGen h.DependsOn d d := by
  induction depth generalizing path c with
  | zero =>
    obtain ⟨k, hk⟩ := hpath.exists_succ
    exact absurd hk (by simp)
  | succ depth ih =>
    by_cases hunder : c.name ∈ path
    · rw [membersOf_of_mem hunder] at he
      obtain rfl := Except.error.inj he
      obtain ⟨p, hp, hname, hcycle⟩ := hleads c.name hunder
      obtain rfl := eq_of_name_eq hp hc hname
      exact ⟨p, hp, rfl, hcycle⟩
    · rw [membersOf_succ hunder] at he
      obtain ⟨d, hneeds, herror⟩ := exists_needs_of_membersBy_error he hcause
      have hdepends : h.DependsOn c d := needs_iff_dependsOn.mp hneeds
      -- the class goes on the way, and everything on it leads one step further
      refine ih (hpath.push hc hunder) ?_ hneeds.mem_classes herror
      intro name hname
      rcases List.mem_cons.mp hname with rfl | hname
      · exact ⟨c, hc, rfl, .single hdepends⟩
      · obtain ⟨p, hp, hpname, hway⟩ := hleads name hname
        exact ⟨p, hp, hpname, hway.tail hdepends⟩

end Hierarchy

end ClassMap

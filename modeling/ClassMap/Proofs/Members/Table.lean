import ClassMap.Proofs.Hierarchy.Below
import ClassMap.Proofs.Members.Step

/-!
The table of effective members. Its entries are made one after the other, each from the entries of
the classes it needs, which are all there before it; so every entry is what one step makes of the
final table, and what is true of a class as soon as it is true of the classes it needs is true of
every class in the table.
-/

set_option autoImplicit false
set_option relaxedAutoImplicit false

namespace ClassMap

open Traversal

/-- The members that a table has for a class. -/
def MemberTable.membersOf (table : MemberTable) (c : ClassDecl) : EffectiveMembers :=
  (table.lookup c.name).getD {}

def MemberTable.Has (table : MemberTable) (c : ClassDecl) : Prop :=
  ∃ members, table.lookup c.name = some members

namespace Hierarchy

variable {h : Hierarchy} {c d : ClassDecl} {table later last : MemberTable} {path : List String}
  {m : EffectiveMembers} {depth : Nat}

/-- A class takes over the members of another, by inheriting them or by a nested member. -/
def Needs (h : Hierarchy) (c d : ClassDecl) : Prop :=
  d ∈ h.inheritedFrom c ∨
    ∃ mapping ∈ c.mappings, mapping.kind = .nested ∧ h.nestedClass c mapping = .ok d

/-- The members of a class depend on those of the classes it needs only. -/
theorem stepMembers_congr {of other : ClassDecl → EffectiveMembers}
    (hof : ∀ d, h.Needs c d → of d = other d) : h.stepMembers of c = h.stepMembers other c := by
  have hinherit : h.inheritAll of c = h.inheritAll other c :=
    List.foldl_ext _ _ _ fun m d hd ↦ by rw [hof d (Or.inl hd)]
  have hadd : ∀ d ∈ c.mappings, ∀ own, h.addMapping of c own d = h.addMapping other c own d := by
    intro d hd own
    cases hcontribution : h.contribution c d with
    | error e => simp only [addMapping, hcontribution, bind, Except.bind]
    | ok contribution =>
      rcases contribution_eq_ok hcontribution with ⟨f, rfl, -⟩ | ⟨a, rfl, -⟩ |
        ⟨inner, rfl, hkind, hinner⟩
      · simp only [addMapping, hcontribution, bind, Except.bind]
      · simp only [addMapping, hcontribution, bind, Except.bind]
      · have hneeds : h.Needs c inner := Or.inr ⟨d, hd, hkind, hinner⟩
        simp only [addMapping, hcontribution, bind, Except.bind, hof inner hneeds]
  rw [stepMembers, stepMembers, hinherit, foldlM_congr hadd]

/-- A table made entry by entry, each from those of the classes it needs. -/
inductive Grounded (h : Hierarchy) : MemberTable → Prop
  | nil : Grounded h []
  | cons {table : MemberTable} {c : ClassDecl} {m : EffectiveMembers} (hc : c ∈ h.classes)
      (hbelow : Grounded h table) (hnew : table.lookup c.name = none)
      (hneeds : ∀ d, h.Needs c d → d ∈ h.classes ∧ table.Has d)
      (hstep : h.stepMembers table.membersOf c = .ok m) :
      Grounded h ((c.name, m) :: table)

/-- A table that has grown: what was there stays, and names that are under way are not added. -/
structure Grows (h : Hierarchy) (path : List String) (table later : MemberTable) : Prop where
  grounded : Grounded h later
  retains : ∀ name m, table.lookup name = some m → later.lookup name = some m
  fresh : ∀ name ∈ path, table.lookup name = none → later.lookup name = none

theorem Grows.refl (path : List String) (htable : Grounded h table) : Grows h path table table :=
  ⟨htable, fun _ _ hm ↦ hm, fun _ _ hnone ↦ hnone⟩

theorem Grows.trans (hfirst : Grows h path table later) (hsecond : Grows h path later last) :
    Grows h path table last :=
  ⟨hsecond.grounded, fun name m hm ↦ hsecond.retains name m (hfirst.retains name m hm),
    fun name hname hnone ↦ hsecond.fresh name hname (hfirst.fresh name hname hnone)⟩

/-- An entry for a class that is neither there nor under way. -/
theorem Grows.push (hnew : table.lookup c.name = none) (hpath : c.name ∉ path)
    (hgrows : Grows h (c.name :: path) table later)
    (hgrounded : Grounded h ((c.name, m) :: later)) :
    Grows h path table ((c.name, m) :: later) := by
  refine ⟨hgrounded, fun name members hmembers ↦ ?_, fun name hname hnone ↦ ?_⟩
  · have hne : name ≠ c.name := by
      rintro rfl
      rw [hnew] at hmembers
      exact absurd hmembers (by simp)
    rw [List.lookup_cons, beq_false_of_ne hne]
    exact hgrows.retains name members hmembers
  · have hne : name ≠ c.name := fun heq ↦ hpath (heq ▸ hname)
    rw [List.lookup_cons, beq_false_of_ne hne]
    exact hgrows.fresh name (List.mem_cons_of_mem _ hname) hnone

theorem Grows.has (hgrows : Grows h path table later) (hc : table.Has c) : later.Has c := by
  obtain ⟨m, hm⟩ := hc
  exact ⟨m, hgrows.retains c.name m hm⟩

theorem Grows.membersOf_eq (hgrows : Grows h path table later) (hc : table.Has c) :
    later.membersOf c = table.membersOf c := by
  obtain ⟨m, hm⟩ := hc
  rw [MemberTable.membersOf, MemberTable.membersOf, hm, hgrows.retains c.name m hm]

theorem mem_classes_of_mem_inheritedFrom (hd : d ∈ h.inheritedFrom c) : d ∈ h.classes := by
  unfold inheritedFrom at hd
  split at hd
  · exact (mem_supertypes hd).1
  · exact absurd hd List.not_mem_nil

theorem mem_classes_of_nestedClass {mapping : DeclaredMapping}
    (hd : h.nestedClass c mapping = .ok d) : d ∈ h.classes := by
  unfold nestedClass at hd
  dsimp only at hd
  split at hd
  · rename_i inner hinner
    exact Except.ok.inj hd ▸ mem_of_declared? hinner
  · exact absurd hd (by simp)

/-- How the members of one class are computed, with the table that they are computed from. -/
abbrev Compute :=
  MemberTable → ClassDecl → Except MappingError (EffectiveMembers × MemberTable)

/-- Computing one class lets the table grow up to an entry for it. -/
def Compute.Enters (h : Hierarchy) (path : List String) (compute : Compute) : Prop :=
  ∀ table d m later, d ∈ h.classes → Grounded h table → compute table d = .ok (m, later) →
    Grows h path table later ∧ later.lookup d.name = some m

theorem membersOf_eq_of_lookup (hlookup : table.lookup c.name = some m) :
    table.membersOf c = m := by
  rw [MemberTable.membersOf, hlookup, Option.getD_some]

variable {compute : Compute}

/-- One pass over the classes above. -/
theorem inherited_eq_ok (hcompute : compute.Enters h path) {above : List ClassDecl}
    (habove : ∀ d ∈ above, d ∈ h.classes) (htable : Grounded h table)
    {start result : EffectiveMembers}
    (hfold : above.foldlM
      (fun (inherited, table) d ↦ do
        let (members, table) ← compute table d
        return (inherited.inherit members, table)) (start, table) = .ok (result, later)) :
    Grows h path table later ∧ (∀ d ∈ above, later.Has d) ∧
      result = above.foldl (fun m d ↦ m.inherit (later.membersOf d)) start := by
  induction above generalizing start table with
  | nil =>
    obtain ⟨rfl, rfl⟩ := Prod.mk.inj (pure_eq_ok_iff.mp hfold)
    exact ⟨Grows.refl path htable, by simp, rfl⟩
  | cons d rest ih =>
    rw [List.foldlM_cons] at hfold
    simp only [bind_eq_ok_iff, pure_eq_ok_iff, Prod.exists] at hfold
    obtain ⟨_, _, ⟨m, middle, hm, heq⟩, hrest⟩ := hfold
    obtain ⟨rfl, rfl⟩ := Prod.mk.inj heq
    obtain ⟨hgrows, hlookup⟩ := hcompute table d m middle (habove d (by simp)) htable hm
    obtain ⟨hlater, hhas, hresult⟩ :=
      ih (fun e he ↦ habove e (List.mem_cons_of_mem d he)) hgrows.grounded hrest
    have hd : later.lookup d.name = some m := hlater.retains d.name m hlookup
    refine ⟨hgrows.trans hlater, ?_, ?_⟩
    · intro e he
      rcases List.mem_cons.mp he with rfl | he
      · exact ⟨m, hd⟩
      · exact hhas e he
    · rw [List.foldl_cons, membersOf_eq_of_lookup hd]
      exact hresult

/-- One mapping of a class, with the table that its nested class is computed from. -/
def addMappingFrom (h : Hierarchy) (compute : Compute) (c : ClassDecl) :
    OwnMembers × MemberTable → DeclaredMapping → Except MappingError (OwnMembers × MemberTable) :=
  fun (own, table) d ↦ do
    match ← h.contribution c d with
    | .field f => return (← own.addField c.name f, table)
    | .association a => return (← own.addAssociation c.name a, table)
    | .nested name inner =>
      let (members, table) ← compute table inner
      return (← own.addNested c.name name members, table)

/-- A mapping adds what it would add with the table as it is in the end. -/
theorem addMappingFrom_eq_ok (hcompute : compute.Enters h path) {d : DeclaredMapping}
    (htable : Grounded h table) {own result : OwnMembers}
    (hadd : h.addMappingFrom compute c (own, table) d = .ok (result, later)) :
    Grows h path table later ∧
      (∀ inner, d.kind = .nested → h.nestedClass c d = .ok inner → later.Has inner) ∧
      ∀ last, Grows h path later last → h.addMapping last.membersOf c own d = .ok result := by
  obtain ⟨contribution, hcontribution, hadd⟩ := bind_eq_ok_iff.mp hadd
  rcases contribution_eq_ok hcontribution with ⟨f, rfl, hkind, -⟩ | ⟨a, rfl, hkind, -⟩ |
    ⟨inner, rfl, hkind, hinner⟩
  · obtain ⟨own, hown, hpure⟩ := bind_eq_ok_iff.mp hadd
    obtain ⟨rfl, rfl⟩ := Prod.mk.inj (pure_eq_ok_iff.mp hpure)
    refine ⟨Grows.refl path htable, fun inner hnested ↦ ?_, fun last _ ↦ ?_⟩
    · exact absurd (hkind.symm.trans hnested) (by simp)
    · exact bind_eq_ok_iff.mpr ⟨_, hcontribution, hown⟩
  · obtain ⟨own, hown, hpure⟩ := bind_eq_ok_iff.mp hadd
    obtain ⟨rfl, rfl⟩ := Prod.mk.inj (pure_eq_ok_iff.mp hpure)
    refine ⟨Grows.refl path htable, fun inner hnested ↦ ?_, fun last _ ↦ ?_⟩
    · exact absurd hkind (by simp [hnested, MappingKind.isAssociation])
    · exact bind_eq_ok_iff.mpr ⟨_, hcontribution, hown⟩
  · simp only [bind_eq_ok_iff, pure_eq_ok_iff, Prod.exists] at hadd
    obtain ⟨m, grown, hm, own, hown, hpair⟩ := hadd
    obtain ⟨rfl, rfl⟩ := Prod.mk.inj hpair
    obtain ⟨hgrows, hlookup⟩ :=
      hcompute table inner m grown (mem_classes_of_nestedClass hinner) htable hm
    refine ⟨hgrows, fun other _ hother ↦ ?_, fun last hlast ↦ ?_⟩
    · obtain rfl := Except.ok.inj (hinner.symm.trans hother)
      exact ⟨m, hlookup⟩
    · have hmembers : last.membersOf inner = m :=
        membersOf_eq_of_lookup (hlast.retains inner.name m hlookup)
      refine bind_eq_ok_iff.mpr ⟨_, hcontribution, ?_⟩
      dsimp only
      rw [hmembers]
      exact hown

/-- One pass over the mappings of a class. -/
theorem mappings_eq_ok (hcompute : compute.Enters h path) {mappings : List DeclaredMapping}
    (htable : Grounded h table) {start result : OwnMembers}
    (hfold : mappings.foldlM (h.addMappingFrom compute c) (start, table) = .ok (result, later)) :
    Grows h path table later ∧
      (∀ d ∈ mappings, ∀ inner, d.kind = .nested → h.nestedClass c d = .ok inner →
        later.Has inner) ∧
      mappings.foldlM (h.addMapping later.membersOf c) start = .ok result := by
  induction mappings generalizing start table with
  | nil =>
    obtain ⟨rfl, rfl⟩ := Prod.mk.inj (pure_eq_ok_iff.mp hfold)
    exact ⟨Grows.refl path htable, by simp, rfl⟩
  | cons d rest ih =>
    rw [List.foldlM_cons] at hfold
    obtain ⟨⟨middleOwn, middle⟩, hstep, hrest⟩ := bind_eq_ok_iff.mp hfold
    obtain ⟨hgrows, hhas, hadded⟩ := addMappingFrom_eq_ok hcompute htable hstep
    obtain ⟨hlater, hothers, hresult⟩ := ih hgrows.grounded hrest
    refine ⟨hgrows.trans hlater, ?_, ?_⟩
    · intro e he inner hkind hinner
      rcases List.mem_cons.mp he with rfl | he
      · exact hlater.has (hhas inner hkind hinner)
      · exact hothers e he inner hkind hinner
    · exact bind_eq_ok_iff.mpr ⟨middleOwn, hadded later hlater, hresult⟩

/-- Computing the members of a class keeps the table grounded and ends with an entry for the
class. -/
theorem computeMembers_eq_ok (hc : c ∈ h.classes) (htable : Grounded h table)
    (hm : h.computeMembers depth path table c = .ok (m, later)) :
    Grows h path table later ∧ later.lookup c.name = some m := by
  induction depth generalizing path table c m later with
  | zero => exact absurd hm (by simp [computeMembers])
  | succ depth ih =>
    rw [computeMembers] at hm
    split at hm
    · rename_i members hmembers
      obtain ⟨rfl, rfl⟩ := Prod.mk.inj (Except.ok.inj hm)
      exact ⟨Grows.refl path htable, hmembers⟩
    · rename_i hnew
      split at hm
      · exact absurd hm (by simp)
      · rename_i hpath
        have hcompute : Compute.Enters h (c.name :: path)
            (h.computeMembers depth (c.name :: path)) :=
          fun table d m later hd htable hm ↦ ih hd htable hm
        simp only [bind_eq_ok_iff, pure_eq_ok_iff, Prod.exists] at hm
        obtain ⟨raw, first, hfirst, inherited, hinherited, own, second, hsecond, members, hmembers,
          hpair⟩ := hm
        obtain ⟨rfl, rfl⟩ := Prod.mk.inj hpair
        obtain ⟨hgrows, habove, rfl⟩ := inherited_eq_ok hcompute
          (fun _ hd ↦ mem_classes_of_mem_inheritedFrom hd) htable hfirst
        obtain ⟨hgrows', hnested, hown⟩ := mappings_eq_ok hcompute hgrows.grounded hsecond
        have hgrown := hgrows.trans hgrows'
        have hfresh : second.lookup c.name = none := hgrown.fresh c.name (by simp) hnew
        -- entries are only added, so the first pass reads in the last table what it read before
        have hinherit : h.inheritAll second.membersOf c =
            (h.inheritedFrom c).foldl (fun m d ↦ m.inherit (first.membersOf d)) {} :=
          List.foldl_ext _ _ _ fun m d hd ↦ by rw [hgrows'.membersOf_eq (habove d hd)]
        have hstep : h.stepMembers second.membersOf c = .ok members := by
          rw [stepMembers, hinherit]
          exact bind_eq_ok_iff.mpr ⟨inherited, hinherited,
            bind_eq_ok_iff.mpr ⟨own, hown, hmembers⟩⟩
        have hneeds : ∀ d, h.Needs c d → d ∈ h.classes ∧ second.Has d := by
          rintro d (hd | ⟨mapping, hmapping, hkind, hd⟩)
          · exact ⟨mem_classes_of_mem_inheritedFrom hd, hgrows'.has (habove d hd)⟩
          · exact ⟨mem_classes_of_nestedClass hd, hnested mapping hmapping d hkind hd⟩
        exact ⟨Grows.push hnew (by simpa using hpath) hgrown
          (.cons hc hgrown.grounded hfresh hneeds hstep), List.lookup_cons_self⟩

/-- Computing some classes one after the other lets the table grow up to entries for all of them. -/
theorem grows_foldlM {classes : List ClassDecl} (hclasses : ∀ c ∈ classes, c ∈ h.classes)
    (htable : Grounded h table)
    (hlater : classes.foldlM
      (fun table c ↦ do return (← h.computeMembers depth [] table c).2) table = .ok later) :
    Grows h [] table later ∧ ∀ c ∈ classes, later.Has c := by
  induction classes generalizing table with
  | nil =>
    obtain rfl := pure_eq_ok_iff.mp hlater
    exact ⟨Grows.refl [] htable, by simp⟩
  | cons c rest ih =>
    rw [List.foldlM_cons] at hlater
    simp only [bind_eq_ok_iff, pure_eq_ok_iff] at hlater
    obtain ⟨middle, ⟨⟨m, _⟩, hm, rfl⟩, hrest⟩ := hlater
    obtain ⟨hgrows, hlookup⟩ := computeMembers_eq_ok (hclasses c (by simp)) htable hm
    obtain ⟨hgrown, hhas⟩ :=
      ih (fun d hd ↦ hclasses d (List.mem_cons_of_mem c hd)) hgrows.grounded hrest
    refine ⟨hgrows.trans hgrown, ?_⟩
    rintro d (_ | ⟨_, hd⟩)
    · exact hgrown.has ⟨m, hlookup⟩
    · exact hhas d hd

/-- The table of all members is grounded and has an entry for every class. -/
theorem memberTable_eq_ok (hmembers : h.memberTable = .ok table) :
    Grounded h table ∧ ∀ c ∈ h.classes, table.Has c := by
  obtain ⟨hgrows, hhas⟩ := grows_foldlM (fun _ hc ↦ hc) .nil hmembers
  exact ⟨hgrows.grounded, hhas⟩

theorem membersOf_cons_of_ne {entry : String × EffectiveMembers} (hne : c.name ≠ entry.1) :
    MemberTable.membersOf (entry :: table) c = table.membersOf c := by
  rw [MemberTable.membersOf, MemberTable.membersOf, List.lookup_cons, beq_false_of_ne hne]

theorem has_cons_iff_of_ne {entry : String × EffectiveMembers} (hne : c.name ≠ entry.1) :
    MemberTable.Has (entry :: table) c ↔ table.Has c := by
  rw [MemberTable.Has, MemberTable.Has, List.lookup_cons, beq_false_of_ne hne]

/-- The classes that a class in a grounded table needs are in it, and what the table has for the
class is what one step makes of it. -/
theorem Grounded.step (htable : Grounded h table) (hc : c ∈ h.classes) (hhas : table.Has c) :
    (∀ d, h.Needs c d → d ∈ h.classes ∧ table.Has d) ∧
      h.stepMembers table.membersOf c = .ok (table.membersOf c) := by
  induction htable generalizing c with
  | nil =>
    obtain ⟨m, hm⟩ := hhas
    exact absurd hm (by simp)
  | @cons below d m hd hbelow hnew hneeds hmade ih =>
    -- an entry that is there before has another name than the new one
    have hne : ∀ e, below.Has e → e.name ≠ d.name := by
      rintro e ⟨members, hmembers⟩ hname
      rw [hname, hnew] at hmembers
      exact absurd hmembers (by simp)
    have hlater : ∀ e, below.Has e →
        MemberTable.Has ((d.name, m) :: below) e ∧
          MemberTable.membersOf ((d.name, m) :: below) e = below.membersOf e :=
      fun e he ↦ ⟨(has_cons_iff_of_ne (hne e he)).mpr he, membersOf_cons_of_ne (hne e he)⟩
    by_cases hname : c.name = d.name
    · obtain rfl := eq_of_name_eq hc hd hname
      have hmembers : MemberTable.membersOf ((c.name, m) :: below) c = m :=
        membersOf_eq_of_lookup List.lookup_cons_self
      refine ⟨fun e he ↦ ⟨(hneeds e he).1, (hlater e (hneeds e he).2).1⟩, ?_⟩
      rw [hmembers, stepMembers_congr fun e he ↦ (hlater e (hneeds e he).2).2]
      exact hmade
    · have hthere : below.Has c := (has_cons_iff_of_ne hname).mp hhas
      obtain ⟨hneeds', hstep⟩ := ih hc hthere
      refine ⟨fun e he ↦ ⟨(hneeds' e he).1, (hlater e (hneeds' e he).2).1⟩, ?_⟩
      rw [(hlater c hthere).2, stepMembers_congr fun e he ↦ (hlater e (hneeds' e he).2).2]
      exact hstep

/-- What holds of the members of a class as soon as the members of the classes it needs are known
holds of every class in a grounded table. -/
theorem Grounded.induct {motive : ClassDecl → EffectiveMembers → Prop} (htable : Grounded h table)
    (hstep : ∀ c m (of : ClassDecl → EffectiveMembers), h.stepMembers of c = .ok m →
      (∀ d, h.Needs c d → motive d (of d)) → motive c m)
    (hc : c ∈ h.classes) (hhas : table.Has c) : motive c (table.membersOf c) := by
  induction htable generalizing c with
  | nil =>
    obtain ⟨m, hm⟩ := hhas
    exact absurd hm (by simp)
  | @cons below d m hd hbelow hnew hneeds hmade ih =>
    by_cases hname : c.name = d.name
    · obtain rfl := eq_of_name_eq hc hd hname
      have hmembers : MemberTable.membersOf ((c.name, m) :: below) c = m :=
        membersOf_eq_of_lookup List.lookup_cons_self
      rw [hmembers]
      exact hstep c m below.membersOf hmade fun e he ↦ ih (hneeds e he).1 (hneeds e he).2
    · rw [membersOf_cons_of_ne hname]
      exact ih hc ((has_cons_iff_of_ne hname).mp hhas)

end Hierarchy

end ClassMap

import Mathlib.Data.List.Perm.Subperm
import ClassMap.Proofs.Members.Table

/-!
When the effective members can be computed. A grounded table with an entry for every class is a
certificate: wherever the computation starts and whatever has been computed before, it meets no
cycle and comes to the members that the certificate has. So the computation succeeds exactly when
there is such a table, and all such tables have the same entries.
-/

set_option autoImplicit false
set_option relaxedAutoImplicit false

namespace ClassMap

open Traversal

/-- Every entry of the first table is one of the second. -/
def MemberTable.Within (table full : MemberTable) : Prop :=
  ∀ name m, table.lookup name = some m → full.lookup name = some m

namespace MemberTable.Within

variable {table full : MemberTable} {name : String} {m : EffectiveMembers}

theorem cons (hentry : full.lookup name = some m) (htable : table.Within full) :
    MemberTable.Within ((name, m) :: table) full := by
  intro other members hmembers
  by_cases hsame : other = name
  · rw [hsame, List.lookup_cons_self] at hmembers
    rw [hsame, hentry, hmembers]
  · rw [List.lookup_cons, beq_false_of_ne hsame] at hmembers
    exact htable other members hmembers

theorem of_cons (hnew : table.lookup name = none)
    (htable : MemberTable.Within ((name, m) :: table) full) : table.Within full := by
  intro other members hmembers
  have hother : other ≠ name := by
    rintro rfl
    rw [hnew] at hmembers
    exact absurd hmembers (by simp)
  apply htable other members
  rw [List.lookup_cons, beq_false_of_ne hother]
  exact hmembers

end MemberTable.Within

namespace Hierarchy

variable {h : Hierarchy} {c d : ClassDecl} {full known table other : MemberTable}
  {path : List String} {m : EffectiveMembers} {depth : Nat} {compute : Compute} {name : String}

/-- Computing a class from what is within the full table comes to the entry it has there. -/
def Compute.Reproduces (full : MemberTable) (compute : Compute) (d : ClassDecl) : Prop :=
  ∀ table : MemberTable, table.Within full →
    ∃ later, compute table d = .ok (full.membersOf d, later) ∧ later.Within full

theorem inherited_reproduces {above : List ClassDecl}
    (hcompute : ∀ d ∈ above, compute.Reproduces full d) (htable : table.Within full)
    (start : EffectiveMembers) :
    ∃ later, above.foldlM
        (fun (inherited, table) d ↦ do
          let (members, table) ← compute table d
          return (inherited.inherit members, table)) (start, table) =
          .ok (above.foldl (fun m d ↦ m.inherit (full.membersOf d)) start, later) ∧
      later.Within full := by
  induction above generalizing start table with
  | nil => exact ⟨table, rfl, htable⟩
  | cons d rest ih =>
    obtain ⟨middle, hd, hmiddle⟩ := hcompute d List.mem_cons_self table htable
    obtain ⟨later, hrest, hlater⟩ := ih (fun e he ↦ hcompute e (List.mem_cons_of_mem d he))
      hmiddle (start.inherit (full.membersOf d))
    refine ⟨later, ?_, hlater⟩
    rw [List.foldlM_cons]
    exact bind_eq_ok_iff.mpr ⟨_, bind_eq_ok_iff.mpr ⟨_, hd, rfl⟩, hrest⟩

theorem addMappingFrom_reproduces {mapping : DeclaredMapping} {own result : OwnMembers}
    (hcompute : ∀ inner, mapping.kind = .nested → h.nestedClass c mapping = .ok inner →
      compute.Reproduces full inner)
    (hadd : h.addMapping full.membersOf c own mapping = .ok result) (htable : table.Within full) :
    ∃ later, h.addMappingFrom compute c (own, table) mapping = .ok (result, later) ∧
      later.Within full := by
  obtain ⟨contribution, hcontribution, hadd⟩ := bind_eq_ok_iff.mp hadd
  rcases contribution_eq_ok hcontribution with ⟨f, rfl, -⟩ | ⟨a, rfl, -⟩ |
    ⟨inner, rfl, hkind, hinner⟩
  · refine ⟨table, bind_eq_ok_iff.mpr ⟨_, hcontribution, ?_⟩, htable⟩
    exact bind_eq_ok_iff.mpr ⟨result, hadd, rfl⟩
  · refine ⟨table, bind_eq_ok_iff.mpr ⟨_, hcontribution, ?_⟩, htable⟩
    exact bind_eq_ok_iff.mpr ⟨result, hadd, rfl⟩
  · obtain ⟨later, hlater, hwithin⟩ := hcompute inner hkind hinner table htable
    refine ⟨later, bind_eq_ok_iff.mpr ⟨_, hcontribution, ?_⟩, hwithin⟩
    exact bind_eq_ok_iff.mpr ⟨_, hlater, bind_eq_ok_iff.mpr ⟨result, hadd, rfl⟩⟩

theorem mappings_reproduces {mappings : List DeclaredMapping} {start result : OwnMembers}
    (hcompute : ∀ mapping ∈ mappings, ∀ inner, mapping.kind = .nested →
      h.nestedClass c mapping = .ok inner → compute.Reproduces full inner)
    (hadd : mappings.foldlM (h.addMapping full.membersOf c) start = .ok result)
    (htable : table.Within full) :
    ∃ later, mappings.foldlM (h.addMappingFrom compute c) (start, table) = .ok (result, later) ∧
      later.Within full := by
  -- the two passes agree on what has been declared, and the table stays within the full one
  have hstep : ∀ mapping ∈ mappings, ∀ (own after : OwnMembers) (state : OwnMembers × MemberTable),
      state.1 = own ∧ state.2.Within full →
      h.addMapping full.membersOf c own mapping = .ok after →
      ∃ next, h.addMappingFrom compute c state mapping = .ok next ∧
        next.1 = after ∧ next.2.Within full := by
    rintro mapping hmapping own after ⟨_, table⟩ ⟨rfl, htable⟩ hadded
    obtain ⟨later, hlater, hwithin⟩ :=
      addMappingFrom_reproduces (hcompute mapping hmapping) hadded htable
    exact ⟨(after, later), hlater, rfl, hwithin⟩
  have hstart : (start, table).1 = start ∧ (start, table).2.Within full := ⟨rfl, htable⟩
  obtain ⟨⟨_, later⟩, hlater, rfl, hwithin⟩ := exists_foldlM hstep hstart hadd
  exact ⟨later, hlater, hwithin⟩

/-- One level of the computation, for a class that is neither there nor under way. -/
theorem computeMembers_succ (hnew : table.lookup c.name = none) (hpath : c.name ∉ path)
    (hneeds : ∀ d, h.Needs c d →
      Compute.Reproduces full (h.computeMembers depth (c.name :: path)) d)
    (hstep : h.stepMembers full.membersOf c = .ok m) (htable : table.Within full) :
    ∃ later : MemberTable, later.Within full ∧
      h.computeMembers (depth + 1) path table c = .ok (m, (c.name, m) :: later) := by
  obtain ⟨inherited, hinherited, hrest⟩ := bind_eq_ok_iff.mp hstep
  obtain ⟨own, hown, hcomplete⟩ := bind_eq_ok_iff.mp hrest
  obtain ⟨first, hfirst, hfirstWithin⟩ :=
    inherited_reproduces (fun d hd ↦ hneeds d (Or.inl hd)) htable {}
  obtain ⟨second, hsecond, hsecondWithin⟩ :=
    mappings_reproduces (fun mapping hmapping inner hkind hinner ↦
      hneeds inner (Or.inr ⟨mapping, hmapping, hkind, hinner⟩)) hown hfirstWithin
  refine ⟨second, hsecondWithin, ?_⟩
  have hunder : path.contains c.name = false := by simpa using hpath
  rw [computeMembers, hnew]
  simp only [hunder, Bool.false_eq_true, if_false]
  exact bind_eq_ok_iff.mpr ⟨_, hfirst, bind_eq_ok_iff.mpr ⟨_, hinherited,
    bind_eq_ok_iff.mpr ⟨_, hsecond, bind_eq_ok_iff.mpr ⟨_, hcomplete, rfl⟩⟩⟩⟩

/-- A class that is not under way comes to its entry when everything it needs does. -/
theorem reproduces_succ (hpath : c.name ∉ path)
    (hneeds : ∀ d, h.Needs c d →
      Compute.Reproduces full (h.computeMembers depth (c.name :: path)) d)
    (hstep : h.stepMembers full.membersOf c = .ok m) (hentry : full.lookup c.name = some m) :
    Compute.Reproduces full (h.computeMembers (depth + 1) path) c := by
  intro table htable
  have hmembers : full.membersOf c = m := membersOf_eq_of_lookup hentry
  cases hlookup : table.lookup c.name with
  | some members =>
    have hthere : full.membersOf c = members := membersOf_eq_of_lookup (htable _ _ hlookup)
    refine ⟨table, ?_, htable⟩
    rw [computeMembers, hlookup, hthere]
  | none =>
    obtain ⟨later, hwithin, hlater⟩ := computeMembers_succ hlookup hpath hneeds hstep htable
    exact ⟨(c.name, m) :: later, hmembers ▸ hlater, hwithin.cons hentry⟩

/-- The members of a class in a grounded part of the full table can be computed at a depth beyond
the size of that part, as long as nothing of it is under way. -/
theorem reproduces_computeMembers (hknown : Grounded h known) (hfull : known.Within full)
    (hc : c ∈ h.classes) (hhas : known.Has c) (hdepth : known.length < depth)
    (hpath : ∀ name ∈ path, known.lookup name = none) :
    Compute.Reproduces full (h.computeMembers depth path) c := by
  -- by induction on the grounding: what an entry needs is in the part that was there before it
  induction hknown generalizing c depth path with
  | nil =>
    obtain ⟨m, hm⟩ := hhas
    exact absurd hm (by simp)
  | @cons known d m hd hbelow hnew hneeds hmade ih =>
    have hself : List.lookup d.name ((d.name, m) :: known) = some m := List.lookup_cons_self
    have hne : ∀ name ∈ path, name ≠ d.name := by
      rintro name hname rfl
      rw [hpath _ hname] at hself
      exact absurd hself (by simp)
    have hrest : known.Within full := hfull.of_cons hnew
    have hrestPath : ∀ name ∈ path, known.lookup name = none := by
      intro name hname
      have hnone := hpath name hname
      rwa [List.lookup_cons, beq_false_of_ne (hne name hname)] at hnone
    rw [List.length_cons] at hdepth
    by_cases hname : c.name = d.name
    · obtain rfl := eq_of_name_eq hc hd hname
      obtain ⟨depth, rfl⟩ : ∃ k, depth = k + 1 := ⟨depth - 1, by omega⟩
      have hbelowPath : ∀ name ∈ c.name :: path, known.lookup name = none :=
        List.forall_mem_cons.mpr ⟨hnew, hrestPath⟩
      have hstep : h.stepMembers full.membersOf c = .ok m := by
        rw [stepMembers_congr fun e he ↦ ?_]
        · exact hmade
        · obtain ⟨members, hlookup⟩ := (hneeds e he).2
          rw [membersOf_eq_of_lookup hlookup, membersOf_eq_of_lookup (hrest _ _ hlookup)]
      refine reproduces_succ (fun hmem ↦ hne c.name hmem rfl) (fun e he ↦ ?_) hstep
        (hfull _ _ hself)
      exact ih hrest (hneeds e he).1 (hneeds e he).2 (by omega) hbelowPath
    · have hthere : known.Has c := (has_cons_iff_of_ne hname).mp hhas
      exact ih hrest hc hthere (by omega) hrestPath

theorem Grounded.mem_names (htable : Grounded h table) :
    ∀ entry ∈ table, entry.1 ∈ h.classes.map (·.name) := by
  induction htable with
  | nil => exact fun _ hentry ↦ absurd hentry List.not_mem_nil
  | cons hc _ _ _ _ ih =>
    intro entry hentry
    rcases List.mem_cons.mp hentry with rfl | hentry
    · exact List.mem_map_of_mem hc
    · exact ih entry hentry

theorem Grounded.nodup (htable : Grounded h table) : (table.map (·.1)).Nodup := by
  induction htable with
  | nil => exact List.nodup_nil
  | @cons table c m _ _ hnew _ _ ih =>
    refine List.nodup_cons.mpr ⟨fun hmem ↦ ?_, ih⟩
    obtain ⟨entry, hentry, hname⟩ := List.mem_map.mp hmem
    have hother := List.lookup_eq_none_iff.mp hnew entry hentry
    rw [hname] at hother
    exact absurd hother (by simp)

theorem Grounded.length_le (htable : Grounded h table) : table.length ≤ h.classes.length := by
  have hsub : ∀ name ∈ table.map (·.1), name ∈ h.classes.map (·.name) := by
    intro name hname
    obtain ⟨entry, hentry, rfl⟩ := List.mem_map.mp hname
    exact htable.mem_names entry hentry
  simpa using (List.subperm_of_subset htable.nodup hsub).length_le

/-- The effective members can be computed exactly when there is a grounded table with an entry for
every class. -/
theorem exists_memberTable_iff :
    (∃ table, h.memberTable = .ok table) ↔
      ∃ full, Grounded h full ∧ ∀ c ∈ h.classes, full.Has c := by
  constructor
  · intro hmembers
    obtain ⟨table, htable⟩ := hmembers
    exact ⟨table, memberTable_eq_ok htable⟩
  · intro hfull
    obtain ⟨full, hgrounded, hall⟩ := hfull
    have hdepth : full.length < h.depth := Nat.lt_succ_of_le hgrounded.length_le
    have hcompute : ∀ c ∈ h.classes, Compute.Reproduces full (h.computeMembers h.depth []) c :=
      fun c hc ↦ reproduces_computeMembers hgrounded (fun _ _ hm ↦ hm) hc (hall c hc) hdepth
        (by simp)
    have hstep : ∀ c ∈ h.classes, ∀ table : MemberTable, table.Within full →
        ∃ later, (do return (← h.computeMembers h.depth [] table c).2) =
          (.ok later : Except MappingError MemberTable) ∧ later.Within full := by
      intro c hc table htable
      obtain ⟨later, hlater, hwithin⟩ := hcompute c hc table htable
      exact ⟨later, bind_eq_ok_iff.mpr ⟨_, hlater, rfl⟩, hwithin⟩
    have hstart : MemberTable.Within [] full := fun _ _ hm ↦ absurd hm (by simp)
    obtain ⟨table, htable, -⟩ := exists_foldlM_of_keeps (MemberTable.Within · full) hstep hstart
    exact ⟨table, htable⟩

/-- Grounded tables with an entry for every class have the same entries. -/
theorem Grounded.lookup_eq (htable : Grounded h table) (hother : Grounded h other)
    (hall : ∀ c ∈ h.classes, table.Has c) (hall' : ∀ c ∈ h.classes, other.Has c) (name : String) :
    table.lookup name = other.lookup name := by
  by_cases hname : name ∈ h.classes.map (·.name)
  · obtain ⟨c, hc, rfl⟩ := List.mem_map.mp hname
    have hmembers : table.membersOf c = other.membersOf c := by
      refine htable.induct (motive := fun c m ↦ c ∈ h.classes → m = other.membersOf c) ?_ hc
        (hall c hc) hc
      intro c m of hstep hneeds hc
      obtain ⟨hneeds', hstep'⟩ := hother.step hc (hall' c hc)
      rw [stepMembers_congr fun d hd ↦ hneeds d hd (hneeds' d hd).1, hstep'] at hstep
      exact (Except.ok.inj hstep).symm
    obtain ⟨m, hm⟩ := hall c hc
    obtain ⟨m', hm'⟩ := hall' c hc
    rw [hm, hm', ← membersOf_eq_of_lookup hm, ← membersOf_eq_of_lookup hm', hmembers]
  · have hnone : ∀ {table : MemberTable}, Grounded h table → table.lookup name = none := by
      intro table htable
      refine List.lookup_eq_none_iff.mpr fun entry hentry ↦ ?_
      have hne : name ≠ entry.1 := fun heq ↦ hname (heq ▸ htable.mem_names entry hentry)
      simpa using hne
    rw [hnone htable, hnone hother]

end Hierarchy

end ClassMap

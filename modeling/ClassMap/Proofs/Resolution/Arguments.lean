import ClassMap.Proofs.Entries
import ClassMap.Proofs.Resolution.Mapped

/-!
Arguments of procedures. The arguments of a class are what its tags declare, in their order, if they
have names of their own and each can be bound. So the order of the tags does not decide whether they
can be had, and under a name every order has the same argument: classes whose argument tags are
rearranged have the same procedures.
-/

set_option autoImplicit false
set_option relaxedAutoImplicit false

namespace ClassMap

open Traversal

namespace Scope

variable {s s' : Scope} {c c' : ClassDecl} {argument : ArgumentOptions} {tag : Tag}
  {before after arguments : List ArgumentOptions} {procedures : List ProcedureDescriptor}

/-! ### What the tags declare -/

/-- The argument of a tag that declares one. -/
def readArgument (c : ClassDecl) (tag : Tag) : Except MappingError ArgumentOptions :=
  if tag.name = TagName.runtimeArgument then ArgumentOptions.parseRuntime c.name tag
  else ArgumentOptions.parseConstant c.name tag

theorem argument?_of_declaresArgument (htag : declaresArgument tag = true) :
    argument? c tag = some <$> readArgument c tag := by
  rw [argument?, readArgument]
  by_cases hruntime : tag.name = TagName.runtimeArgument
  · rw [if_pos hruntime, if_pos hruntime]
    rfl
  · have hconstant : tag.name = TagName.constantArgument := by
      simpa [declaresArgument, hruntime] using htag
    rw [if_neg hruntime, if_neg hruntime, if_pos hconstant]
    rfl

theorem addArgument_eq_ok_iff (htag : declaresArgument tag = true) :
    s.addArgument c before tag = .ok after ↔
      ∃ argument, readArgument c tag = .ok argument ∧
        before.any (·.name == argument.name) = false ∧ s.checkArgument c argument = .ok () ∧
        before ++ [argument] = after := by
  rw [addArgument, argument?_of_declaresArgument htag, bind_map_left, bind_eq_ok_iff]
  refine exists_congr fun argument ↦ and_congr_right fun _ ↦ ?_
  cases hknown : before.any (·.name == argument.name) with
  | true => simp [hknown, throw, throwThe, MonadExceptOf.throw, bind, Except.bind]
  | false =>
    simp only [hknown, Bool.false_eq_true, if_false, bind_eq_ok_iff, pure_eq_ok_iff, true_and]
    constructor
    · rintro ⟨_, hbound⟩
      exact hbound
    · exact fun hbound ↦ ⟨(), hbound⟩

theorem any_eq_false_of_nodup {rest : List ArgumentOptions}
    (hnodup : ((before ++ argument :: rest).map (·.name)).Nodup) :
    before.any (·.name == argument.name) = false := by
  rw [List.map_append, List.map_cons, List.nodup_append] at hnodup
  refine List.any_eq_false.mpr fun other hother ↦ ?_
  simpa using hnodup.2.2 other.name (List.mem_map_of_mem hother) argument.name List.mem_cons_self

/-- Some tags add the arguments that they declare, if all names stay apart and each argument can be
bound. -/
theorem foldlM_addArgument_eq_ok_iff {tags : List Tag}
    (htags : ∀ tag ∈ tags, declaresArgument tag = true) (hbefore : (before.map (·.name)).Nodup) :
    tags.foldlM (s.addArgument c) before = .ok after ↔
      ∃ arguments, tags.mapM (readArgument c) = .ok arguments ∧ before ++ arguments = after ∧
        (after.map (·.name)).Nodup ∧
          ∀ argument ∈ arguments, s.checkArgument c argument = .ok () := by
  -- the names stay apart along the way, as they are at the end
  induction tags generalizing before with
  | nil =>
    simp only [List.foldlM_nil, List.mapM_nil, pure_eq_ok_iff]
    constructor
    · rintro rfl
      exact ⟨[], rfl, List.append_nil before, hbefore, fun _ h ↦ absurd h List.not_mem_nil⟩
    · rintro ⟨_, rfl, hafter, -⟩
      rwa [List.append_nil] at hafter
  | cons tag rest ih =>
    obtain ⟨htag, hrest⟩ := List.forall_mem_cons.mp htags
    simp only [List.foldlM_cons, List.mapM_cons, bind_eq_ok_iff, pure_eq_ok_iff,
      addArgument_eq_ok_iff htag]
    constructor
    · rintro ⟨_, ⟨argument, hread, hnew, hcheck, rfl⟩, hfold⟩
      have hmiddle : ((before ++ [argument]).map (·.name)).Nodup :=
        nodup_append_singleton hbefore (by simpa using hnew)
      obtain ⟨others, hothers, hafter, hnodup, hchecks⟩ := (ih hrest hmiddle).mp hfold
      refine ⟨argument :: others, ⟨argument, hread, others, hothers, rfl⟩, ?_, hnodup, ?_⟩
      · rw [List.append_cons, hafter]
      · exact List.forall_mem_cons.mpr ⟨hcheck, hchecks⟩
    · rintro ⟨_, ⟨argument, hread, others, hothers, rfl⟩, rfl, hnodup, hchecks⟩
      obtain ⟨hcheck, hchecks⟩ := List.forall_mem_cons.mp hchecks
      have hnew := any_eq_false_of_nodup hnodup
      have hmiddle : ((before ++ [argument]).map (·.name)).Nodup :=
        nodup_append_singleton hbefore (by simpa using hnew)
      refine ⟨before ++ [argument], ⟨argument, hread, hnew, hcheck, rfl⟩, ?_⟩
      exact (ih hrest hmiddle).mpr
        ⟨others, hothers, (List.append_cons _ _ _).symm, hnodup, hchecks⟩

theorem arguments_eq_ok_iff :
    s.arguments c = .ok arguments ↔
      (argumentTags c).mapM (readArgument c) = .ok arguments ∧ (arguments.map (·.name)).Nodup ∧
        ∀ argument ∈ arguments, s.checkArgument c argument = .ok () := by
  have htags : ∀ tag ∈ argumentTags c, declaresArgument tag = true :=
    fun _ htag ↦ (List.mem_filter.mp htag).2
  rw [Scope.arguments, Mirrors.foldlM_addArgument, foldlM_addArgument_eq_ok_iff htags (by simp)]
  simp only [List.nil_append]
  constructor
  · rintro ⟨_, hread, rfl, hnodup, hchecks⟩
    exact ⟨hread, hnodup, hchecks⟩
  · rintro ⟨hread, hnodup, hchecks⟩
    exact ⟨arguments, hread, rfl, hnodup, hchecks⟩

/-! ### Rearranged tags -/

section Rearranged

variable (hname : c'.name = c.name) (hfield : s'.field c' = s.field c)
  (htags : (argumentTags c').Perm (argumentTags c))
include hname hfield

include htags in
/-- Arguments can be had from rearranged tags, in another order. -/
theorem exists_arguments_of_perm (harguments : s.arguments c = .ok arguments) :
    ∃ arguments', s'.arguments c' = .ok arguments' ∧ arguments'.Perm arguments := by
  obtain ⟨hread, hnodup, hchecks⟩ := arguments_eq_ok_iff.mp harguments
  obtain ⟨arguments', hread', hperm⟩ := exists_mapM_of_perm htags hread
  have hsame : readArgument c' = readArgument c := by
    funext tag
    rw [readArgument, readArgument, hname]
  refine ⟨arguments', arguments_eq_ok_iff.mpr ⟨hsame ▸ hread', ?_, fun argument hargument ↦ ?_⟩,
    hperm⟩
  · exact (hperm.map _).nodup_iff.mpr hnodup
  · rw [checkArgument, hfield]
    exact hchecks argument (hperm.mem_iff.mp hargument)

/-- A procedure finds the same arguments in every order. -/
theorem procedure_eq_of_perm {arguments' : List ArgumentOptions}
    (hperm : arguments'.Perm arguments) (hnodup : (arguments.map (·.name)).Nodup)
    (kind : ProcedureKind) (tag : Tag) :
    s'.procedure c' arguments' kind tag = s.procedure c arguments kind tag := by
  have hbind : ∀ procedure, bindArgument c' procedure arguments' =
      bindArgument c procedure arguments := by
    intro procedure
    funext name
    rw [bindArgument, bindArgument, hname,
      find?_eq_of_perm hperm ((hperm.map _).nodup_iff.mpr hnodup)]
  simp only [Scope.procedure, hname, hfield, hbind]

include htags in
theorem procedures_of_perm (hprocedures : procedureTags c' = procedureTags c)
    (hok : s.procedures c = .ok procedures) : s'.procedures c' = .ok procedures := by
  rw [Scope.procedures, bind_eq_ok_iff] at hok ⊢
  obtain ⟨arguments, harguments, hresolved⟩ := hok
  obtain ⟨arguments', harguments', hperm⟩ :=
    exists_arguments_of_perm hname hfield htags harguments
  have hnodup := (arguments_eq_ok_iff.mp harguments).2.1
  refine ⟨arguments', harguments', ?_⟩
  rw [hprocedures, ← hresolved]
  exact congrArg (List.mapM · (procedureTags c))
    (funext fun declared ↦ procedure_eq_of_perm hname hfield hperm hnodup declared.1 declared.2)

end Rearranged

end Scope

end ClassMap

import ClassMap.Proofs.Hierarchy.Navigation
import ClassMap.Proofs.LibraryTypes

/-!
Subtyping by name. A search that takes names from a queue goes up through declared classes and turns
to the registry of library types at every other name; it looks at each name once, so it comes to an
end on every hierarchy, with cycles or without (`Hierarchy.seeks_isSubtypeName`). Where no declared
class has the name of a library type, no way leads back from the library types to the declared
classes, and the ways of both make up one relation, that of the steps up from a name. It follows that
subtyping by name is a preorder that extends the subtyping of the declared classes and that of the
library types (`subtyping_preorder`).
-/

set_option autoImplicit false
set_option relaxedAutoImplicit false

namespace ClassMap

namespace Hierarchy

variable {h : Hierarchy} {sub sup name : String} {queue seen nodes : List String} {answer : Bool}
  {c d : ClassDecl}

/-! ### The search -/

/-- A search for `sup` through a queue of names, apart from those it has seen, and its answer. The
supertypes of a declared class go to the end of the queue. -/
inductive Seeks (h : Hierarchy) (sup : String) : List String → List String → Bool → Prop
  | exhausted {seen : List String} : Seeks h sup [] seen false
  | found {queue seen : List String} : Seeks h sup (sup :: queue) seen true
  | again {name : String} {queue seen : List String} {answer : Bool} (hne : name ≠ sup)
      (hseen : name ∈ seen) (hrest : Seeks h sup queue seen answer) :
      Seeks h sup (name :: queue) seen answer
  | declared {name : String} {queue seen : List String} {answer : Bool} {c : ClassDecl}
      (hne : name ≠ sup) (hnew : name ∉ seen) (hc : h.find? name = some c)
      (hrest : Seeks h sup (queue ++ c.supertypeNames) (name :: seen) answer) :
      Seeks h sup (name :: queue) seen answer
  | library {name : String} {queue seen : List String} (hne : name ≠ sup) (hnew : name ∉ seen)
      (hnone : h.find? name = none) (hsub : LibraryType.isSubtype name sup = true) :
      Seeks h sup (name :: queue) seen true
  | unrelated {name : String} {queue seen : List String} {answer : Bool} (hne : name ≠ sup)
      (hnew : name ∉ seen) (hnone : h.find? name = none)
      (hsub : ¬ LibraryType.isSubtype name sup = true)
      (hrest : Seeks h sup queue (name :: seen) answer) : Seeks h sup (name :: queue) seen answer

/-- The name ends a search for `sup`: it is that name, or a library type below it. -/
def Hits (h : Hierarchy) (sup name : String) : Prop :=
  name = sup ∨ (h.find? name = none ∧ LibraryType.isSubtype name sup = true)

theorem mem_namesAbove_iff {above : String} :
    above ∈ h.namesAbove name ↔ ∃ c, h.find? name = some c ∧ above ∈ c.supertypeNames := by
  unfold namesAbove
  cases h.find? name with
  | none => simp
  | some c => simp

theorem mem_mentionedNames_of_mem_namesAbove {above : String} (habove : above ∈ h.namesAbove name) :
    above ∈ h.mentionedNames := by
  obtain ⟨c, hc, habove⟩ := mem_namesAbove_iff.mp habove
  exact List.mem_flatMap.mpr ⟨c, mem_of_declared? hc, habove⟩

/-- There are only so many names, and either one more of them has been seen or the queue is
shorter. -/
theorem exists_seeks (sup : String) (hclosed : ∀ name, ∀ above ∈ h.namesAbove name, above ∈ nodes)
    (hqueue : ∀ name ∈ queue, name ∈ nodes) : ∃ answer, h.Seeks sup queue seen answer := by
  induction hleft : (Walk.unmet nodes seen).length using Nat.strongRecOn generalizing queue seen with
  | ind left ih =>
    induction queue with
    | nil => exact ⟨false, .exhausted⟩
    | cons name rest ihqueue =>
      obtain ⟨hname, hrest⟩ := List.forall_mem_cons.mp hqueue
      by_cases hne : name = sup
      · exact ⟨true, hne ▸ .found⟩
      by_cases hseen : name ∈ seen
      · obtain ⟨answer, hanswer⟩ := ihqueue hrest
        exact ⟨answer, .again hne hseen hanswer⟩
      -- the name is new, so fewer names are left, and the queue may grow again
      have hfewer : (Walk.unmet nodes (name :: seen)).length < left := by
        refine Nat.lt_of_le_of_lt (Walk.length_unmet_le fun other hother ↦ ?_)
          (hleft ▸ Walk.length_unmet_lt hname hseen)
        simpa [or_comm] using hother
      cases hfind : h.find? name with
      | some c =>
        have hsupers : ∀ other ∈ rest ++ c.supertypeNames, other ∈ nodes := by
          intro other hother
          rcases List.mem_append.mp hother with hother | hother
          · exact hrest other hother
          · exact hclosed name other (mem_namesAbove_iff.mpr ⟨c, hfind, hother⟩)
        obtain ⟨answer, hanswer⟩ := ih _ hfewer hsupers rfl
        exact ⟨answer, .declared hne hseen hfind hanswer⟩
      | none =>
        by_cases hsub : LibraryType.isSubtype name sup = true
        · exact ⟨true, .library hne hseen hfind hsub⟩
        · obtain ⟨answer, hanswer⟩ := ih _ hfewer hrest rfl
          exact ⟨answer, .unrelated hne hseen hfind hsub hanswer⟩

/-- Some name in the queue leads up to a name that ends the search. -/
def Finds (h : Hierarchy) (sup : String) (queue : List String) : Prop :=
  ∃ name ∈ queue, ∃ top, Walk.Reaches h.namesAbove name top ∧ h.Hits sup top

/-- What has been seen ends no search, and what is above it has been seen or is in the queue. -/
def Passed (h : Hierarchy) (sup : String) (seen queue : List String) : Prop :=
  ∀ name ∈ seen, ¬ h.Hits sup name ∧ ∀ above ∈ h.namesAbove name, above ∈ seen ∨ above ∈ queue

theorem Passed.finds (hpassed : h.Passed sup seen queue) (hname : name ∈ seen) {top : String}
    (hreach : Walk.Reaches h.namesAbove name top) (hhits : h.Hits sup top) : h.Finds sup queue := by
  induction hreach using Relation.ReflTransGen.head_induction_on with
  | refl => exact absurd hhits (hpassed top hname).1
  | head hstep hrest ih =>
    rcases (hpassed _ hname).2 _ hstep with hseen | hqueue
    · exact ih hseen
    · exact ⟨_, hqueue, top, hrest, hhits⟩

/-- A name that has been seen may be left out of the queue, if what is above it is there. -/
theorem Passed.finds_iff {later : List String} (hpassed : h.Passed sup seen later)
    (hname : name ∈ seen) (hqueue : ∀ other ∈ queue, other ∈ later)
    (hlater : ∀ other ∈ later, other ∈ queue ∨ other ∈ h.namesAbove name) :
    h.Finds sup later ↔ h.Finds sup (name :: queue) := by
  constructor
  · rintro ⟨other, hother, top, hreach, hhits⟩
    rcases hlater other hother with hold | habove
    · exact ⟨other, List.mem_cons_of_mem name hold, top, hreach, hhits⟩
    · exact ⟨name, List.mem_cons_self, top, hreach.head habove, hhits⟩
  · rintro ⟨other, hother, top, hreach, hhits⟩
    rcases List.mem_cons.mp hother with rfl | hother
    · exact hpassed.finds hname hreach hhits
    · exact ⟨other, hqueue other hother, top, hreach, hhits⟩

theorem Passed.cons {later : List String} (hpassed : h.Passed sup seen (name :: queue))
    (hmiss : ¬ h.Hits sup name) (hqueue : ∀ other ∈ queue, other ∈ later)
    (habove : ∀ other ∈ h.namesAbove name, other ∈ later) :
    h.Passed sup (name :: seen) later := by
  intro other hother
  rcases List.mem_cons.mp hother with rfl | hother
  · exact ⟨hmiss, fun above hmem ↦ Or.inr (habove above hmem)⟩
  · obtain ⟨hother, hsteps⟩ := hpassed other hother
    refine ⟨hother, fun above hmem ↦ ?_⟩
    rcases hsteps above hmem with hseen | hthere
    · exact Or.inl (List.mem_cons_of_mem name hseen)
    · rcases List.mem_cons.mp hthere with rfl | hthere
      · exact Or.inl List.mem_cons_self
      · exact Or.inr (hqueue above hthere)

theorem Seeks.eq_true_iff (hseeks : h.Seeks sup queue seen answer)
    (hpassed : h.Passed sup seen queue) : answer = true ↔ h.Finds sup queue := by
  induction hseeks with
  | exhausted => simp [Finds]
  | found => exact iff_of_true rfl ⟨sup, List.mem_cons_self, sup, .refl, Or.inl rfl⟩
  | @again name queue seen answer hne hseen _ ih =>
    have hlater : h.Passed sup seen queue := by
      intro other hother
      refine ⟨(hpassed other hother).1, fun above habove ↦ ?_⟩
      rcases (hpassed other hother).2 above habove with hmet | hthere
      · exact Or.inl hmet
      · rcases List.mem_cons.mp hthere with rfl | hthere
        · exact Or.inl hseen
        · exact Or.inr hthere
    rw [ih hlater]
    exact hlater.finds_iff hseen (fun _ hother ↦ hother) fun _ hother ↦ Or.inl hother
  | @declared name queue seen answer c hne hnew hc _ ih =>
    have hmiss : ¬ h.Hits sup name := by simp [Hits, hne, hc]
    -- what is above the name goes to the end of the queue
    have habove : ∀ other, other ∈ h.namesAbove name ↔ other ∈ c.supertypeNames := by
      simp [mem_namesAbove_iff, hc]
    have hlater : h.Passed sup (name :: seen) (queue ++ c.supertypeNames) :=
      hpassed.cons hmiss (fun _ hother ↦ List.mem_append_left _ hother)
        fun other hother ↦ List.mem_append_right _ ((habove other).mp hother)
    rw [ih hlater]
    refine hlater.finds_iff List.mem_cons_self (fun _ hother ↦ List.mem_append_left _ hother) ?_
    exact fun other hother ↦ (List.mem_append.mp hother).imp_right (habove other).mpr
  | @library name queue seen hne hnew hnone hsub =>
    exact iff_of_true rfl ⟨name, List.mem_cons_self, name, .refl, Or.inr ⟨hnone, hsub⟩⟩
  | @unrelated name queue seen answer hne hnew hnone hsub _ ih =>
    have hmiss : ¬ h.Hits sup name := by simp [Hits, hne, hsub]
    have hlater : h.Passed sup (name :: seen) queue :=
      hpassed.cons hmiss (fun _ hother ↦ hother) fun other hother ↦ by
        simp [mem_namesAbove_iff, hnone] at hother
    rw [ih hlater]
    exact hlater.finds_iff List.mem_cons_self (fun _ hother ↦ hother) fun _ hother ↦ Or.inl hother

theorem isSubtypeName_iff_finds :
    h.isSubtypeName sub sup = true ↔
      sup = LibraryType.object ∨ h.Finds sup [Text.trim sub] := by
  have hnodes : ∀ name, ∀ above ∈ h.namesAbove name, above ∈ Text.trim sub :: h.mentionedNames :=
    fun _ above habove ↦ List.mem_cons_of_mem _ (mem_mentionedNames_of_mem_namesAbove habove)
  have hfrom : ∀ top, top ∈ h.namesFrom (Text.trim sub) ↔
      Walk.Reaches h.namesAbove (Text.trim sub) top :=
    fun top ↦ Walk.mem_preorder_iff hnodes List.mem_cons_self (by simp)
  simp only [isSubtypeName, Bool.or_eq_true, beq_iff_eq, List.any_eq_true, Bool.and_eq_true,
    Option.isNone_iff_eq_none, hfrom, Finds, Hits, List.mem_singleton, exists_eq_left]

/-- The search comes to an end on every hierarchy, with the answer that the ways up give. -/
theorem seeks_isSubtypeName (hobject : sup ≠ LibraryType.object) :
    h.Seeks sup [Text.trim sub] [] (h.isSubtypeName sub sup) := by
  have hnodes : ∀ name, ∀ above ∈ h.namesAbove name, above ∈ Text.trim sub :: h.mentionedNames :=
    fun _ above habove ↦ List.mem_cons_of_mem _ (mem_mentionedNames_of_mem_namesAbove habove)
  have hends : ∃ answer, h.Seeks sup [Text.trim sub] [] answer :=
    exists_seeks sup hnodes (by simp)
  obtain ⟨answer, hseeks⟩ := hends
  have hpassed : h.Passed sup [] [Text.trim sub] := fun name hname ↦ absurd hname (by simp)
  have heq : h.isSubtypeName sub sup = answer := by
    rw [Bool.eq_iff_iff, isSubtypeName_iff_finds, hseeks.eq_true_iff hpassed]
    simp [hobject]
  exact heq ▸ hseeks

/-! ### Steps up from a name -/

/-- Names as declarations and the registry give them: without blanks around them, and no declared
class named like a library type. -/
structure WellNamed (h : Hierarchy) : Prop where
  trimmed : ∀ c ∈ h.classes, Text.Trimmed c.name
  supertypes_trimmed : ∀ c ∈ h.classes, ∀ name ∈ c.supertypeNames, Text.Trimmed name
  not_library : ∀ c ∈ h.classes, LibraryType.find? c.name = none

/-- The names right above a name: the supertypes of the declared class, or else of the library
type. -/
def nextNames (h : Hierarchy) (name : String) : List String :=
  match h.find? name with
  | some c => c.supertypeNames
  | none => LibraryType.namesAbove name

/-- A name leads to another by steps up. -/
abbrev LeadsUp (h : Hierarchy) : String → String → Prop :=
  Walk.Reaches h.nextNames

namespace WellNamed

variable (hnames : h.WellNamed)
include hnames

theorem find?_name (hc : c ∈ h.classes) : h.find? c.name = some c := by
  rw [find?, hnames.trimmed c hc]
  exact declared?_eq_some_iff.mpr ⟨hc, rfl⟩

theorem find?_eq_none_of_library (hlibrary : (LibraryType.find? name).isSome) :
    h.find? name = none := by
  rw [find?, LibraryType.trimmed_of_isSome hlibrary, Option.eq_none_iff_forall_ne_some]
  intro c hc
  rw [← name_of_declared? hc, hnames.not_library c (mem_of_declared? hc)] at hlibrary
  exact absurd hlibrary (by simp)

/-- From a library type no declared class is reached. -/
theorem find?_eq_none_of_reaches {top : String} (hnone : h.find? name = none)
    (hreach : Walk.Reaches LibraryType.namesAbove name top) : h.find? top = none := by
  rcases hreach.cases_tail with rfl | ⟨below, -, hstep⟩
  · exact hnone
  · obtain ⟨type, hfind, habove⟩ := LibraryType.mem_namesAbove_iff.mp hstep
    have htype := (LibraryType.find?_eq_some hfind).1
    exact hnames.find?_eq_none_of_library
      (LibraryType.isSome_find?_of_mem_supertypes type htype top habove)

theorem leadsUp_of_none {top : String} (hnone : h.find? name = none) :
    h.LeadsUp name top ↔ Walk.Reaches LibraryType.namesAbove name top := by
  have hstep : ∀ {below above : String}, h.find? below = none →
      (Walk.Step h.nextNames below above ↔ Walk.Step LibraryType.namesAbove below above) := by
    intro below above hbelow
    rw [Walk.Step, Walk.Step, nextNames, hbelow]
  constructor
  · intro hreach
    induction hreach with
    | refl => exact .refl
    | tail _ hlast ih => exact ih.tail ((hstep (hnames.find?_eq_none_of_reaches hnone ih)).mp hlast)
  · intro hreach
    induction hreach with
    | refl => exact .refl
    | tail hway hlast ih =>
      exact ih.tail ((hstep (hnames.find?_eq_none_of_reaches hnone hway)).mpr hlast)

/-- The search crosses from declared classes into library types at one name, so what it finds is
what the steps of both lead to. -/
theorem finds_iff : h.Finds sup [name] ↔ h.LeadsUp name sup := by
  simp only [Finds, List.mem_singleton, exists_eq_left]
  constructor
  · rintro ⟨top, hreach, hhits⟩
    have hway : h.LeadsUp name top := by
      refine Relation.ReflTransGen.mono (fun below above hstep ↦ ?_) _ _ hreach
      obtain ⟨c, hc, habove⟩ := mem_namesAbove_iff.mp hstep
      rw [Walk.Step, nextNames, hc]
      exact habove
    rcases hhits with rfl | ⟨hnone, hsub⟩
    · exact hway
    · exact hway.trans ((hnames.leadsUp_of_none hnone).mpr (LibraryType.isSubtype_iff.mp hsub))
  · intro hway
    induction hway using Relation.ReflTransGen.head_induction_on with
    | refl => exact ⟨sup, .refl, Or.inl rfl⟩
    | @head below above hstep hrest ih =>
      cases hfind : h.find? below with
      | none =>
        have hsub := (hnames.leadsUp_of_none hfind).mp (.head hstep hrest)
        exact ⟨below, .refl, Or.inr ⟨hfind, LibraryType.isSubtype_iff.mpr hsub⟩⟩
      | some c =>
        rw [Walk.Step, nextNames, hfind] at hstep
        obtain ⟨top, hreach, hhits⟩ := ih
        exact ⟨top, hreach.head (mem_namesAbove_iff.mpr ⟨c, hfind, hstep⟩), hhits⟩

theorem isSubtypeName_iff :
    h.isSubtypeName sub sup = true ↔ sup = LibraryType.object ∨ h.LeadsUp (Text.trim sub) sup := by
  rw [isSubtypeName_iff_finds, hnames.finds_iff]

theorem eq_object_of_leadsUp (hway : h.LeadsUp LibraryType.object sup) :
    sup = LibraryType.object := by
  have hnone : h.find? LibraryType.object = none := hnames.find?_eq_none_of_library (by decide)
  rcases ((hnames.leadsUp_of_none hnone).mp hway).cases_head with heq | ⟨above, hstep, -⟩
  · exact heq.symm
  · rw [Walk.Step, LibraryType.namesAbove_object] at hstep
    exact absurd hstep List.not_mem_nil

theorem isSubtypeName_trans {a b e : String} (hb : Text.Trimmed b)
    (hab : h.isSubtypeName a b = true) (hbe : h.isSubtypeName b e = true) :
    h.isSubtypeName a e = true := by
  rw [hnames.isSubtypeName_iff] at hab hbe ⊢
  rcases hbe with rfl | hbe
  · exact Or.inl rfl
  · rw [hb] at hbe
    rcases hab with rfl | hab
    · exact Or.inl (hnames.eq_object_of_leadsUp hbe)
    · exact Or.inr (hab.trans hbe)

/-- A way that ends at a declared class goes through declared classes only. -/
theorem leadsUp_iff (hc : c ∈ h.classes) (hd : d ∈ h.classes) :
    h.LeadsUp c.name d.name ↔ c = d ∨ h.IsBelow c d := by
  have hstep : ∀ {below : ClassDecl} {above : String}, below ∈ h.classes →
      (Walk.Step h.nextNames below.name above ↔ above ∈ below.supertypeNames) := by
    intro below above hbelow
    rw [Walk.Step, nextNames, hnames.find?_name hbelow]
  constructor
  · intro hway
    -- the way is walked from its lower end, which the induction needs to be any declared class
    have hall : ∀ {bottom : String}, h.LeadsUp bottom d.name →
        ∀ c ∈ h.classes, c.name = bottom → c = d ∨ h.IsBelow c d := by
      intro bottom hway
      induction hway using Relation.ReflTransGen.head_induction_on with
      | refl => exact fun c hc hname ↦ Or.inl (eq_of_name_eq hc hd hname)
      | @head below above hfirst hrest ih =>
        rintro c hc rfl
        have habove : above ∈ c.supertypeNames := (hstep hc).mp hfirst
        have hdirect : DirectlyBelow h.classes c.name above := ⟨c, hc, rfl, habove⟩
        cases hfind : h.find? above with
        | none =>
          -- a way that leaves the declared classes does not come back to one
          have hnone : h.find? d.name = none :=
            hnames.find?_eq_none_of_reaches hfind ((hnames.leadsUp_of_none hfind).mp hrest)
          rw [hnames.find?_name hd] at hnone
          exact absurd hnone (by simp)
        | some e =>
          have htrim : Text.trim above = above := hnames.supertypes_trimmed c hc above habove
          rw [find?, htrim] at hfind
          obtain ⟨he, rfl⟩ := declared?_eq_some_iff.mp hfind
          rcases ih e he rfl with rfl | hbelow
          · exact Or.inr (.single hdirect)
          · exact Or.inr (.head hdirect hbelow)
    exact hall hway c hc rfl
  · rintro (rfl | hbelow)
    · exact .refl
    · refine Relation.TransGen.to_reflTransGen (Relation.TransGen.mono ?_ _ _ hbelow)
      rintro below above ⟨e, he, rfl, habove⟩
      exact (hstep he).mpr habove

theorem isSubtypeName_eq_isSubtype (hc : c ∈ h.classes) (hd : d ∈ h.classes) :
    h.isSubtypeName c.name d.name = h.isSubtype c d := by
  have hobject : d.name ≠ LibraryType.object := by
    intro heq
    have hnone := hnames.not_library d hd
    rw [heq] at hnone
    exact absurd hnone (by decide)
  have htrim : Text.trim c.name = c.name := hnames.trimmed c hc
  rw [Bool.eq_iff_iff, hnames.isSubtypeName_iff, htrim, hnames.leadsUp_iff hc hd,
    isSubtype_iff hc hd]
  exact or_iff_right hobject

theorem isSubtypeName_eq_library {s t : LibraryType} (hs : s ∈ LibraryType.all)
    (hobject : t.name ≠ LibraryType.object) :
    h.isSubtypeName s.name t.name = LibraryType.isSubtype s.name t.name := by
  have hlibrary : (LibraryType.find? s.name).isSome := by rw [LibraryType.find?_of_mem s hs]; rfl
  rw [Bool.eq_iff_iff, hnames.isSubtypeName_iff, LibraryType.trimmed_of_isSome hlibrary,
    hnames.leadsUp_of_none (hnames.find?_eq_none_of_library hlibrary), LibraryType.isSubtype_iff]
  exact or_iff_right hobject

end WellNamed

/-- Subtyping by name is decided on every two names, it is a preorder on names without blanks around
them with one type above all others, and it extends the subtyping of the declared classes and that
of the library types. -/
structure OrdersNames (h : Hierarchy) : Prop where
  ends : ∀ sub sup, sup ≠ LibraryType.object →
    h.Seeks sup [Text.trim sub] [] (h.isSubtypeName sub sup)
  object : ∀ sub, h.isSubtypeName sub LibraryType.object = true
  refl : ∀ a, Text.Trimmed a → h.isSubtypeName a a = true
  trans : ∀ a b c, Text.Trimmed a → Text.Trimmed b → Text.Trimmed c →
    h.isSubtypeName a b = true → h.isSubtypeName b c = true → h.isSubtypeName a c = true
  declared : ∀ c ∈ h.classes, ∀ d ∈ h.classes,
    h.isSubtypeName c.name d.name = h.isSubtype c d
  library : ∀ s ∈ LibraryType.all, ∀ t ∈ LibraryType.all, t.name ≠ LibraryType.object →
    h.isSubtypeName s.name t.name = LibraryType.isSubtype s.name t.name

end Hierarchy

/-- In every hierarchy that is named as declarations and the registry are, subtyping by name is a
preorder that extends declared subtyping and that of the library types. -/
theorem subtyping_preorder {h : Hierarchy} (hnames : h.WellNamed) : h.OrdersNames := by
  constructor
  case ends => exact fun sub sup hobject ↦ Hierarchy.seeks_isSubtypeName hobject
  case object => exact fun sub ↦ by simp [Hierarchy.isSubtypeName]
  case refl =>
    intro a ha
    rw [hnames.isSubtypeName_iff, ha]
    exact Or.inr .refl
  case trans => exact fun a b c _ hb _ hab hbc ↦ hnames.isSubtypeName_trans hb hab hbc
  case declared => exact fun c hc d hd ↦ hnames.isSubtypeName_eq_isSubtype hc hd
  case library => exact fun s hs t _ hobject ↦ hnames.isSubtypeName_eq_library hs hobject

/-- The shelf and the rack are above each other, and one of them is a list, so both are; the crate
is a list twice over. -/
def shelving : Hierarchy where
  classes :=
    [{ name := "store.Shelf", superclass := some "store.Rack", interfaces := ["java.util.List"] },
     { name := "store.Rack", superclass := some "store.Shelf" },
     { name := "store.Crate", superclass := some "java.util.ArrayList",
       interfaces := ["store.Labelled", "java.util.List"] },
     { name := "store.Labelled", kind := .interface, interfaces := ["java.lang.Comparable<X>"] }]
  nodup := by decide

theorem wellNamed_shelving : shelving.WellNamed := by
  constructor
  case trimmed => decide +kernel
  case supertypes_trimmed => decide +kernel
  case not_library => decide +kernel

theorem subtyping_preorder_shelving : shelving.WellNamed ∧ shelving.OrdersNames ∧
    shelving.isSubtypeName "store.Rack" LibraryType.collection = true ∧
    shelving.isSubtypeName "store.Crate" "store.Labelled" = true ∧
    shelving.isSubtypeName "store.Labelled" LibraryType.collection = false := by
  refine ⟨wellNamed_shelving, subtyping_preorder wellNamed_shelving, ?_⟩
  decide +kernel

end ClassMap

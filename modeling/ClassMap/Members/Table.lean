import ClassMap.Members.Own
import ClassMap.Persistence

/-!
The effective members of every class. Those of a class are computed after those of its supertypes
and of the classes it inlines, and only once; inlining that leads back to a class under way is an
error.
-/

set_option autoImplicit false
set_option relaxedAutoImplicit false

namespace ClassMap

/-- The members computed so far, by class name. -/
abbrev MemberTable := List (String × EffectiveMembers)

namespace Hierarchy

/-- The declared classes whose members a class takes over. -/
def inheritedFrom (h : Hierarchy) (c : ClassDecl) : List ClassDecl :=
  if c.options.includeInherited then h.supertypes c else []

/-- The members of `c` and the table with everything that was needed for them. -/
def computeMembers (h : Hierarchy) :
    Nat → List String → MemberTable → ClassDecl →
      Except MappingError (EffectiveMembers × MemberTable)
  | 0, _, _, c => .error ⟨c.name, .nestedCycle⟩
  | depth + 1, path, table, c =>
    match table.lookup c.name with
    | some members => .ok (members, table)
    | none =>
      if path.contains c.name then .error ⟨c.name, .nestedCycle⟩
      else do
        let path := c.name :: path
        let (inherited, table) ← (h.inheritedFrom c).foldlM
          (fun (inherited, table) above ↦ do
            let (members, table) ← h.computeMembers depth path table above
            return (inherited.inherit members, table))
          (({} : EffectiveMembers), table)
        let inherited ← inherited.applyInheritedPatches c
        let (own, table) ← c.mappings.foldlM
          (fun (own, table) d ↦ do
            match ← h.contribution c d with
            | .field f => return (← own.addField c.name f, table)
            | .association a => return (← own.addAssociation c.name a, table)
            | .nested name inner =>
              let (members, table) ← h.computeMembers depth path table inner
              return (← own.addNested c.name name members, table))
          (({} : OwnMembers), table)
        let members ← EffectiveMembers.complete c inherited own
        return (members, (c.name, members) :: table)

/-- The effective members of all classes. -/
def memberTable (h : Hierarchy) : Except MappingError MemberTable :=
  h.classes.foldlM
    (fun table c ↦ do return (← h.computeMembers h.depth [] table c).2) []

/-- The effective members of one class by plain recursion, with nothing kept. -/
def membersOf (h : Hierarchy) :
    Nat → List String → ClassDecl → Except MappingError EffectiveMembers
  | 0, _, c => .error ⟨c.name, .nestedCycle⟩
  | depth + 1, path, c =>
    if path.contains c.name then .error ⟨c.name, .nestedCycle⟩
    else do
      let path := c.name :: path
      let inherited ← (h.inheritedFrom c).foldlM
        (fun inherited above ↦ do return inherited.inherit (← h.membersOf depth path above))
        ({} : EffectiveMembers)
      let inherited ← inherited.applyInheritedPatches c
      let own ← c.mappings.foldlM
        (fun own d ↦ do
          match ← h.contribution c d with
          | .field f => own.addField c.name f
          | .association a => own.addAssociation c.name a
          | .nested name inner => own.addNested c.name name (← h.membersOf depth path inner))
        ({} : OwnMembers)
      EffectiveMembers.complete c inherited own

end Hierarchy

end ClassMap

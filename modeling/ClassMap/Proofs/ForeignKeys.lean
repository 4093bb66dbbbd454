import ClassMap.Proofs.Constraints

/-!
The constraints of a resolved schema are the declared ones. A reference makes one for every class
that has it; a collection makes its own for the class that declares it, or for every class that has
it if the declaring one is not persistent. Each leads to the one table that its target is stored
in, and where there is no such table there is no constraint. None is lost, none is added and none
is stated twice (`constraints_exact`).
-/

set_option autoImplicit false
set_option relaxedAutoImplicit false

namespace ClassMap

open Traversal

namespace Repository

/-- The constraints of a schema are those that its classes ask for (`Constrains`), each once. The
case of the table that a constraint leads to does not count. -/
structure ExactConstraints (r : Repository) : Prop where
  declared : ∀ t ∈ r.schema.tables, ∀ fk ∈ t.foreignKeys, ∃ name target,
    r.Constrains name target fk ∧ sameTable name t.name = true
  filed : ∀ name target fk, r.Constrains name target fk →
    ∃ t ∈ r.schema.tables, sameTable name t.name = true
  stated : ∀ name target fk, r.Constrains name target fk → ∀ t ∈ r.schema.tables,
    sameTable name t.name = true → ∃ stated ∈ t.foreignKeys,
      Text.sameName stated.foreignTable fk.foreignTable = true ∧ stated.references = fk.references
  once : ∀ t ∈ r.schema.tables, t.foreignKeys.Pairwise fun a b ↦
    ¬ (Text.sameName a.foreignTable b.foreignTable = true ∧ a.references = b.references)

variable {r : Repository} {decls : List ClassDecl} {checks : ChecksMode} {h : Hierarchy}
  {s : Scope} {changes : List SchemaChange}

theorem sameConstraint_iff {a b : ForeignKey} :
    Table.sameConstraint a b = true ↔
      Text.sameName a.foreignTable b.foreignTable = true ∧ a.references = b.references := by
  rw [Table.sameConstraint, Bool.and_eq_true, beq_iff_eq]

theorem ResolvedIn.exactConstraints (hr : r.ResolvedIn decls checks h s changes) :
    r.ExactConstraints := by
  have hmade := SchemaChange.made_of_applyAll hr.applied
  constructor
  case declared =>
    intro t ht fk hfk
    exact hr.mem_constraintsOf_iff.mp ((hmade.reflects t ht).declared fk hfk)
  case filed =>
    intro name target fk hconstrains
    exact hr.exists_table_of_constrains hconstrains
  case stated =>
    intro name target fk hconstrains t ht hname
    obtain ⟨stated, hstated, hsame⟩ := hr.exists_stated hconstrains ht hname
    exact ⟨stated, hstated, sameConstraint_iff.mp hsame⟩
  case once =>
    intro t ht
    have honce : t.StatesOnce := SchemaChange.statesOnce_of_applyAll hr.applied t ht
    refine honce.imp fun {a b} hdiffer hsame ↦ ?_
    rw [sameConstraint_iff.mpr hsame] at hdiffer
    exact Bool.noConfusion hdiffer

end Repository

/-- Resolution registers the declared constraints and no others, each of them once. -/
theorem constraints_exact {decls : List ClassDecl} {checks : ChecksMode} {databaseName : String}
    {r : Repository} (hr : resolveDeclarations decls checks databaseName = .ok r) :
    r.ExactConstraints := by
  obtain ⟨h, s, changes, hresolved⟩ := exists_resolvedIn hr
  exact hresolved.exactConstraints

/-- A team has people and meets in rooms. A person leads back to the team, and so does a trainee,
who is stored in the same table under another spelling. -/
def teams : List ClassDecl :=
  [{ name := "Team"
     tags := [⟨"ojb.class", []⟩]
     members := [⟨"id", "int", [⟨"ojb.field", [("primarykey", "true")]⟩]⟩,
       ⟨"people", "Person[]", [⟨"ojb.collection", [("foreignkey", "teamId")]⟩]⟩,
       ⟨"rooms", "Room[]", [⟨"ojb.collection", [("indirection-table", "TEAM_ROOM"),
         ("foreignkey", "TEAM"), ("remote-foreignkey", "ROOM")]⟩]⟩] },
   { name := "Room"
     tags := [⟨"ojb.class", []⟩]
     members := [⟨"code", "int", [⟨"ojb.field", [("primarykey", "true")]⟩]⟩] },
   { name := "Person"
     tags := [⟨"ojb.class", [("table", "PERSON")]⟩]
     members := [⟨"id", "int", [⟨"ojb.field", [("primarykey", "true")]⟩]⟩,
       ⟨"teamId", "int", [⟨"ojb.field", [("column", "TEAM_ID")]⟩]⟩,
       ⟨"team", "Team", [⟨"ojb.reference", [("foreignkey", "teamId")]⟩]⟩] },
   { name := "Trainee"
     superclass := some "Person"
     tags := [⟨"ojb.class", [("table", "person")]⟩] }]

/-- The tables of the teams, with their constraints. -/
def teamConstraints : List (String × List ForeignKey) :=
  [("Team", []), ("Room", []), ("PERSON", [⟨"Team", [("TEAM_ID", "id")]⟩]),
    ("TEAM_ROOM", [⟨"Team", [("TEAM", "id")]⟩, ⟨"Room", [("ROOM", "code")]⟩])]

theorem constraints_exact_teams :
    ∃ r, resolveDeclarations teams .strict "office" = .ok r ∧
      r.schema.tables.map (fun t ↦ (t.name, t.foreignKeys)) = teamConstraints ∧
      r.ExactConstraints := by
  have hconstraints : ((resolveDeclarations teams .strict "office").map fun r ↦
      r.schema.tables.map fun t ↦ (t.name, t.foreignKeys)) = .ok teamConstraints := by
    decide +kernel
  obtain ⟨r, hr, htables⟩ := exists_eq_ok_of_map hconstraints
  exact ⟨r, hr, htables, constraints_exact hr⟩

end ClassMap

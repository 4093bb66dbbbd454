import ClassMap.Options.Reader

/-!
Options of references to one object and of collections of objects.
-/

set_option autoImplicit false
set_option relaxedAutoImplicit false

namespace ClassMap

structure ReferenceOptions where
  classRef : Option String
  foreignKeys : List String
  databaseForeignKey : Bool := true
  autoRetrieve : Bool := true
  autoUpdate : CascadeMode := .none
  autoDelete : CascadeMode := .none
  otmDependent : Bool := false
  proxy : Bool := false
  proxyPrefetchingLimit : Option UInt32 := none
  refresh : Bool := false
  documentation : Option String := none
deriving DecidableEq, Repr

namespace ReferenceOptions

def keys : List String :=
  ["name", "class-ref", "foreignkey", "database-foreignkey", "auto-retrieve", "auto-update",
    "auto-delete", "otm-dependent", "proxy", "proxy-prefetching-limit", "refresh",
    "documentation"]

def parse (className : String) (tag : Tag) : Except MappingError ReferenceOptions := do
  let r : TagReader := ⟨className, tag⟩
  let foreignKeys ← r.someEntries "foreignkey" "a reference needs at least one foreign key"
  return {
    classRef := r.text? "class-ref"
    foreignKeys
    databaseForeignKey := ← r.flag "database-foreignkey" true
    autoRetrieve := ← r.flag "auto-retrieve" true
    autoUpdate := (← r.parsed? "auto-update" CascadeMode.parse).getD .none
    autoDelete := (← r.parsed? "auto-delete" CascadeMode.parse).getD .none
    otmDependent := ← r.flag "otm-dependent" false
    proxy := ← r.flag "proxy" false
    proxyPrefetchingLimit := ← r.unsigned? "proxy-prefetching-limit"
    refresh := ← r.flag "refresh" false
    documentation := r.text? "documentation" }

end ReferenceOptions

structure CollectionOptions where
  elementClassRef : Option String
  foreignKeys : List String
  remoteForeignKeys : List String
  indirectionTable : Option String
  indirectionTablePrimaryKeys : Bool := false
  indirectionTableDocumentation : Option String := none
  collectionClass : Option String := none
  orderBy : List OrderBy := []
  queryCustomizer : Option String := none
  databaseForeignKey : Bool := true
  autoRetrieve : Bool := true
  autoUpdate : CascadeMode := .none
  autoDelete : CascadeMode := .none
  otmDependent : Bool := false
  proxy : Bool := false
  proxyPrefetchingLimit : Option UInt32 := none
  refresh : Bool := false
  documentation : Option String := none
deriving DecidableEq, Repr

namespace CollectionOptions

def keys : List String :=
  ["element-class-ref", "foreignkey", "remote-foreignkey", "indirection-table",
    "indirection-table-primarykeys", "indirection-table-documentation", "collection-class",
    "orderby", "query-customizer", "database-foreignkey", "auto-retrieve", "auto-update",
    "auto-delete", "otm-dependent", "proxy", "proxy-prefetching-limit", "refresh",
    "documentation"]

/-- The ordering a collection tag gives; the first entry with a bad direction is reported. -/
def parseOrderBy (r : TagReader) : Except MappingError (List OrderBy) :=
  (r.entries "orderby").mapM fun entry ↦
    match OrderBy.parse entry with
    | .ok order => .ok order
    | .error fault => .error (r.refuse "orderby" entry fault)

def parse (className : String) (tag : Tag) : Except MappingError CollectionOptions := do
  let r : TagReader := ⟨className, tag⟩
  let foreignKeys ← r.someEntries "foreignkey" "a collection needs at least one foreign key"
  let orderBy ← parseOrderBy r
  return {
    elementClassRef := r.text? "element-class-ref"
    foreignKeys
    remoteForeignKeys := r.entries "remote-foreignkey"
    indirectionTable := r.text? "indirection-table"
    indirectionTablePrimaryKeys := ← r.flag "indirection-table-primarykeys" false
    indirectionTableDocumentation := r.text? "indirection-table-documentation"
    collectionClass := r.text? "collection-class"
    orderBy
    queryCustomizer := r.text? "query-customizer"
    databaseForeignKey := ← r.flag "database-foreignkey" true
    autoRetrieve := ← r.flag "auto-retrieve" true
    autoUpdate := (← r.parsed? "auto-update" CascadeMode.parse).getD .none
    autoDelete := (← r.parsed? "auto-delete" CascadeMode.parse).getD .none
    otmDependent := ← r.flag "otm-dependent" false
    proxy := ← r.flag "proxy" false
    proxyPrefetchingLimit := ← r.unsigned? "proxy-prefetching-limit"
    refresh := ← r.flag "refresh" false
    documentation := r.text? "documentation" }

end CollectionOptions

end ClassMap

import ClassMap.Options.Reader

/-!
Options of the tag that makes a class persistent.
-/

set_option autoImplicit false
set_option relaxedAutoImplicit false

namespace ClassMap

structure ClassOptions where
  table : Option String := none
  generateTableInfo : Bool := true
  generateRepositoryInfo : Bool := true
  determineExtents : Bool := true
  includeInherited : Bool := true
  documentation : Option String := none
  tableDocumentation : Option String := none
  rowReader : Option String := none
  refresh : Bool := false
  isolationLevel : Option IsolationLevel := none
  proxy : Option String := none
  proxyPrefetchingLimit : Option UInt32 := none
deriving DecidableEq, Repr

namespace ClassOptions

def keys : List String :=
  ["table", "generate-table-info", "generate-repository-info", "determine-extents",
    "include-inherited", "documentation", "table-documentation", "row-reader", "refresh",
    "isolation-level", "proxy", "proxy-prefetching-limit"]

def parse (className : String) (tag : Tag) : Except MappingError ClassOptions := do
  let r : TagReader := ⟨className, tag⟩
  return {
    table := r.text? "table"
    generateTableInfo := ← r.flag "generate-table-info" true
    generateRepositoryInfo := ← r.flag "generate-repository-info" true
    determineExtents := ← r.flag "determine-extents" true
    includeInherited := ← r.flag "include-inherited" true
    documentation := r.text? "documentation"
    tableDocumentation := r.text? "table-documentation"
    rowReader := r.text? "row-reader"
    refresh := ← r.flag "refresh" false
    isolationLevel := ← r.parsed? "isolation-level" IsolationLevel.parse
    proxy := r.text? "proxy"
    proxyPrefetchingLimit := ← r.unsigned? "proxy-prefetching-limit" }

end ClassOptions

end ClassMap

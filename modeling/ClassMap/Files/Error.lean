import ClassMap.Error
import ClassMap.Files.Pattern
import ClassMap.Options.Choice

/-!
What can go wrong outside the declarations themselves: files that cannot be read or written, and
documents that are not what they should be.
-/

set_option autoImplicit false
set_option relaxedAutoImplicit false

namespace ClassMap

/-- Why a document holds no declarations. -/
inductive DeclarationFault where
  | wrongRoot (name : String)
  | unexpectedElement (name : String)
  | missingAttribute (element key : String)
  | missingType (member className : String)
  | severalSuperclasses (className : String)
  | interfaceImplements (className : String)
deriving DecidableEq, Repr

namespace DeclarationFault

def missing (element key : String) : String :=
  s!"<{element}> is missing the '{key}' attribute"

def message : DeclarationFault → String
  | wrongRoot name => s!"expected <declarations> root element, found <{name}>"
  | unexpectedElement name => s!"unexpected element <{name}>"
  | missingAttribute element key => missing element key
  | missingType member className => missing "field" "type" ++ s!" (member {member} of {className})"
  | severalSuperclasses className => s!"class {className} extends more than one class"
  | interfaceImplements className => s!"interface {className} cannot use implements"

end DeclarationFault

/-- Why a document is no project. -/
inductive ProjectFault where
  | wrongRoot (name : String)
  | unknownChecks (word : String)
  | badPattern (pattern : String) (error : PatternError)
  | missingSource (path : String)
deriving DecidableEq, Repr

def ProjectFault.message : ProjectFault → String
  | wrongRoot name => s!"expected <Project> root element, found <{name}>"
  | unknownChecks word => ChecksMode.unknownMessage word
  | badPattern pattern error =>
    let reason := error.message
    s!"invalid Source pattern '{pattern}': {reason}"
  | missingSource path => s!"Source '{path}' does not exist"

inductive FileError where
  | projectUnreadable (path : String)
  | projectMalformed (path : String)
  | projectInvalid (fault : ProjectFault)
  | declarationsUnreadable (path : String)
  | declarationsMalformed (path : String)
  | declarationsInvalid (path : String) (fault : DeclarationFault)
  | outputUnwritable (path : String)
deriving DecidableEq, Repr

def FileError.message : FileError → String
  | projectUnreadable path => s!"Failed to read project file: {path}"
  | projectMalformed path => s!"Failed to parse project file: {path}"
  | projectInvalid fault =>
    let reason := fault.message
    s!"Invalid project file format: {reason}"
  | declarationsUnreadable path => s!"Failed to read declaration file: {path}"
  | declarationsMalformed path => s!"Failed to parse declaration file: {path}"
  | declarationsInvalid path fault =>
    let reason := fault.message
    s!"Invalid declaration in {path}: {reason}"
  | outputUnwritable path => s!"Failed to write output to {path}"

/-- Anything that ends a run. -/
inductive Failure where
  | file (error : FileError)
  | mapping (error : MappingError)
deriving DecidableEq, Repr

def Failure.message : Failure → String
  | file error => error.message
  | mapping error => error.message

end ClassMap

import ClassMap.Files.Disk

/-!
Ways of writing to a disk. What is written and in which order is decided elsewhere; a storage
carries it out, and each of its steps may fail.
-/

set_option autoImplicit false
set_option relaxedAutoImplicit false

namespace ClassMap

structure Storage (m : Type → Type) where
  /-- Makes a folder with those around it. -/
  makeFolders : String → m Bool
  writeFile : String → Bytes → m Bool
  /-- Moves a file to another path, over any file there. -/
  renameFile : String → String → m Bool
  removeFile : String → m Unit

/-- Writing to a disk that fails only where a path makes it fail. -/
def Storage.onDisk : Storage (StateM Disk) where
  makeFolders path := modifyGet (Disk.makeFolders path)
  writeFile path content := modifyGet (Disk.writeFile path content)
  renameFile source target := modifyGet (Disk.renameFile source target)
  removeFile path := modify (Disk.removeFile path)

end ClassMap

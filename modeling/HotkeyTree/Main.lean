import HotkeyTree.Program

/-!
# The program

The real file system, and the program on it.
-/

namespace HotkeyTree

/-- The result of an action, or the wording of its fault. -/
def attempt {α : Type} (action : IO α) : IO (Except String α) := do
  try return .ok (← action)
  catch fault => return .error (toString fault)

/-- The real file system. -/
instance : FileSystem IO where
  pathExists path := do
    match ← attempt (IO.FS.realPath path) with
    | .ok _ => return true
    | .error _ => return false
  readFile path := attempt (IO.FS.readBinFile path)
  createDirectories path := attempt (IO.FS.createDirAll path)
  writeFile path content := attempt (IO.FS.writeBinFile path content)

end HotkeyTree

/-- Runs the program on the real file system. -/
def main (words : List String) : IO UInt32 := do
  let o ← (HotkeyTree.Program.run words : IO HotkeyTree.Outcome)
  IO.print o.output
  IO.eprint o.errors
  return UInt32.ofNat o.exitCode

/-
  ToolGateway.Policy.FileSource

  `FilePolicySource`: the policy in a file, versioned by the hash of its bytes.
  A publication writes a temporary file and renames it over the policy file; all
  publishers of one path, in one replica or in several, use the same temporary
  name.

  The world keeps a trail of who opened, wrote and renamed; nothing in the code
  reads it.
-/

import ToolGateway.Coroutine.Trail
import ToolGateway.Python.Files

namespace ToolGateway.Policy

open Coroutine Py

-- ============================================================================
-- The trail
-- ============================================================================

/-- What a publisher did with the files. -/
inductive FileMark where
  /-- opened the temporary file, while no other running publisher was between
      its own opening of it and its rename (`alone`), or while one was -/
  | opened (file : ℕ) (alone : Bool)
  | wrote (file : ℕ) (raw : Bytes)
  /-- renamed it: from then on the policy file held this -/
  | renamed (held : Option Bytes)
  /-- the rename found no temporary file -/
  | lost

/-- Between the opening of the temporary file and its rename, by the marks of
    one publisher. -/
def unfinished : List FileMark → Bool
  | .opened _ _ :: _ => true
  | .wrote _ _ :: _ => true
  | _ => false

/-- The publisher has opened the temporary file and not come to its rename. -/
def publishing (tr : TrailOf FileMark) (j : ℕ) : Bool := unfinished (own j tr)

/-- The directory, and what was done in it. -/
structure FileWorld where
  files : Directory String
  trail : TrailOf FileMark

/-- Some other running publisher is between its opening and its rename. -/
def FileWorld.busy (w : FileWorld) (slot : Slot Unit) : Bool :=
  w.trail.any fun e => e.1 ≠ slot.me && slot.live e.1 && publishing w.trail e.1

/-- Note it. -/
def FileWorld.mark (w : FileWorld) (i : ℕ) (m : FileMark) : FileWorld :=
  { w with trail := (i, m) :: w.trail }

-- ============================================================================
-- Publishing
-- ============================================================================

/-- A policy in a JSON file. -/
structure FilePolicySource where
  path : String

/-- What `publish_policy` returns or raises. -/
inductive FilePublished where
  | version (v : String)
  /-- the FileNotFoundError of `os.replace` -/
  | fileNotFound
deriving DecidableEq

namespace FilePolicySource

/-- `path.with_suffix(path.suffix + ".tmp")` -/
def tmp (s : FilePolicySource) : String := s.path ++ ".tmp"

/-- `open(tmp, "wb")` -/
def openTmp (s : FilePolicySource) (slot : Slot Unit) (w : FileWorld) : Option (ℕ × FileWorld) :=
  let (file, files) := w.files.openTruncate s.tmp
  some (file, { w with files := files }.mark slot.me (.opened file (!w.busy slot)))

/-- `write(raw)` to the file it opened -/
def writeTmp (file : ℕ) (raw : Bytes) (slot : Slot Unit) (w : FileWorld) :
    Option (Unit × FileWorld) :=
  some ((), { w with files := w.files.write file raw }.mark slot.me (.wrote file raw))

/-- `os.replace(tmp, path)`: whether there was a file to rename. -/
def replaceTmp (s : FilePolicySource) (slot : Slot Unit) (w : FileWorld) :
    Option (Bool × FileWorld) :=
  match w.files.replace s.tmp s.path with
  | some files =>
      some (true, { w with files := files }.mark slot.me (.renamed (files.read s.path)))
  | none => some (false, w.mark slot.me .lost)

/-- `hashlib.sha256(raw).hexdigest()[:16]` -/
def versionOf (hexdigest : Bytes → String) (raw : Bytes) : String :=
  String.ofList ((hexdigest raw).toList.take 16)

variable [PrintTables]

/-- `publish_policy(doc)` -/
def publishPolicy (s : FilePolicySource) (hexdigest : Bytes → String) (doc : Json) :
    Co Unit FileWorld FilePublished := do
  let raw := doc.dumpsIndented
  let file ← Co.atomic s.openTmp
  Co.atomic (writeTmp file raw)
  if ← Co.atomic s.replaceTmp then return .version (versionOf hexdigest raw)
  else return .fileNotFound

/-- Publishers of these documents, on a directory as they find it. -/
def publishers (s : FilePolicySource) (hexdigest : Bytes → String) (start : Directory String)
    (docs : List Json) : Config Unit FileWorld FilePublished where
  world := { files := start, trail := [] }
  threads := docs.map fun doc => some (s.publishPolicy hexdigest doc)

end FilePolicySource

end ToolGateway.Policy

import SceneCanvas.Asset.Storage
import SceneCanvas.Memo

/-!
# The asset cache

Looking up a picture takes two questions: which file an identifier stands for, and what picture a
file holds. Both are asked of the storage at most once; the answers, failures included, are kept
for good. The cache also keeps the list of its accesses to the storage.
-/

namespace SceneCanvas.Asset

/-- One access to a storage. -/
inductive Access where
  /-- The storage was asked whether a file exists. -/
  | probe (path : String)
  /-- The storage was asked for a file's content. -/
  | read (path : String)
deriving Repr, BEq, DecidableEq, Inhabited

namespace Access

/-- The path asked about, if the access asks whether a file exists. -/
def probed? : Access → Option String
  | probe path => some path
  | read _ => none

/-- The access asks for a file's content. -/
def isRead : Access → Bool
  | read _ => true
  | probe _ => false

end Access

/-- The directory of pictures, below the root of the storage. -/
def imageDirectory : String := "gfx"

/-- The extensions that a picture may have, in the order in which they are tried. -/
def imageExtensions : List String := [".webp", ".png", ".jpg", ".jpeg"]

/-- The files that an identifier may stand for, in the order in which they are tried. -/
def candidates (identifier : String) : List String :=
  imageExtensions.map fun extension => imageDirectory ++ "/" ++ identifier ++ extension

/-- What is known of the storage, and how it became known. -/
structure Cache where
  /-- The file of an identifier, if it has one. -/
  paths : Memo String (Option String) := {}
  /-- The picture in a file, if it holds one. -/
  pictures : Memo String (Option Picture) := {}
  /-- The accesses to the storage, the latest first. -/
  accesses : List Access := []
deriving Inhabited

namespace Cache

/-- Ask the storage whether a file exists. -/
def probe (storage : Storage) (path : String) (c : Cache) : Bool × Cache :=
  (storage.fileExists path, { c with accesses := .probe path :: c.accesses })

/-- Ask the storage for the content of a file. -/
def read (storage : Storage) (path : String) (c : Cache) : Except SceneError File × Cache :=
  (storage.read path, { c with accesses := .read path :: c.accesses })

/-- The first of some files that exists. The files after it are not asked for. -/
def firstExisting (storage : Storage) (c : Cache) : List String → Option String × Cache
  | [] => (none, c)
  | path :: rest =>
    match c.probe storage path with
    | (true, c) => (some path, c)
    | (false, c) => firstExisting storage c rest

/-- The file that an identifier stands for. -/
def resolve (storage : Storage) (identifier : String) (c : Cache) : Option String × Cache :=
  match c.paths.find? identifier with
  | some found => (found, c)
  | none =>
    let (found, c) := c.firstExisting storage (candidates identifier)
    (found, { c with paths := c.paths.insert identifier found })

/-- The picture in a file. -/
def load (storage : Storage) (path : String) (c : Cache) : Option Picture × Cache :=
  match c.pictures.find? path with
  | some picture => (picture, c)
  | none =>
    let (file, c) := c.read storage path
    let picture := (file >>= File.decode).toOption
    (picture, { c with pictures := c.pictures.insert path picture })

/-- The picture that an identifier stands for. -/
def fetch (storage : Storage) (identifier : String) (c : Cache) : Option Picture × Cache :=
  match c.resolve storage identifier with
  | (some path, c) => c.load storage path
  | (none, c) => (none, c)

/-- Fetch several pictures, for their being in the cache afterwards. -/
def fetchAll (storage : Storage) (identifiers : List String) (c : Cache) : Cache :=
  identifiers.foldl (fun c identifier => (c.fetch storage identifier).2) c

/-- The number of identifiers looked up so far, found or not. -/
def resolvedCount (c : Cache) : Nat := c.paths.size

/-- The number of files loaded so far, decodable or not. -/
def pictureCount (c : Cache) : Nat := c.pictures.size

/-- The paths asked about so far, in order. -/
def probedPaths (c : Cache) : List String := c.accesses.reverse.filterMap Access.probed?

/-- The number of times that the storage was asked for a file's content. -/
def readCount (c : Cache) : Nat := c.accesses.countP Access.isRead

end Cache

end SceneCanvas.Asset

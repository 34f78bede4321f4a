import BitLayout.Text.Encoding
import BitLayout.Text.Quoted

/-!
# Files

The files and directories that a command sees, as one value. A path is relative to the current
directory unless it starts with a slash, and every part of it but the last has to be a directory.

## Main definitions

* `FilePath`: a path without empty parts, `FilePath.ofText`, `FilePath.render`
* `FileName.toBytes`: the bytes of a name, in which some surrogates stand for single bytes
* `FileError`, `FileError.message`
* `Files`, `Files.read`, `Files.write`, `Files.contains`
* `Files.changes`: the files that two states differ in
-/

namespace BitLayout

namespace FileName

/-- The longest part of a path in bytes. -/
def maxPartLength : Nat := 255

/-- The longest path in bytes. -/
def maxPathLength : Nat := 4095

/-- The byte that a surrogate stands for, in a name that is not UTF-8 otherwise. -/
def escapedByte? (c : CodePoint) : Option UInt8 :=
  if 0xDC80 ≤ c.toNat && c.toNat ≤ 0xDCFF then some (UInt8.ofNat (c.toNat - 0xDC00)) else none

/-- The bytes of one code point. -/
def spell? (c : CodePoint) : Option (List UInt8) :=
  match escapedByte? c with
  | some b => some [b]
  | none => Utf8.spell? c

/-- The bytes of the rest of a name of which `position` code points came before. A fault reaches
over all surrogates after it. -/
def bytesFrom (position : Nat) : Text → Except EncodeFault (List UInt8)
  | [] => .ok []
  | c :: rest =>
    match spell? c with
    | some bytes => (bytes ++ ·) <$> bytesFrom (position + 1) rest
    | none =>
      .error ⟨"utf-8", c, position, (rest.takeWhile CodePoint.isSurrogate).length + 1, .surrogate⟩

/-- The bytes of a name. -/
def toBytes (name : Text) : Except EncodeFault (List UInt8) := bytesFrom 0 name

/-- Whether a name has more bytes than the limit. -/
def isLongerThan (limit : Nat) (name : Text) : Bool :=
  match toBytes name with
  | .ok bytes => limit < bytes.length
  | .error _ => false

end FileName

/-- A path without empty parts and without the parts `.`, which stand for the place before them. -/
structure FilePath where
  /-- The slashes at the start, none in a relative path. -/
  root : Text
  parts : List Text
deriving DecidableEq

namespace FilePath

/-- The code point between the parts of a path. -/
def slash : CodePoint := .ofChar '/'

/-- The part that stands for the place before it. -/
def samePlace : Text := "."

/-- The part that stands for the directory around the place before it. -/
def parent : Text := ".."

/-- The path that a text spells. Two slashes at its start are kept, more count as one. -/
def ofText (t : Text) : FilePath :=
  let slashes := t.takeWhile (· = slash)
  ⟨if slashes.length ≤ 2 then slashes else [slash],
   (Text.pieces slash t).filter fun part => !part.isEmpty && part ≠ samePlace⟩

/-- The spelling of a path; the current directory is a single dot. -/
def render (path : FilePath) : Text :=
  if path.root.isEmpty && path.parts.isEmpty then samePlace
  else path.root ++ Text.joined [slash] path.parts

/-- The place at which a path starts: the current directory or the root of all directories. -/
def start (path : FilePath) : FilePath := ⟨path.root.take 1, []⟩

/-- The place that one more part leads to. The root of all directories lies in itself. -/
def child (place : FilePath) (part : Text) : FilePath :=
  if part ≠ parent then ⟨place.root, place.parts ++ [part]⟩
  else match place.parts.getLast? with
    | none => if place.root.isEmpty then ⟨[], [parent]⟩ else place
    | some last =>
      if last = parent then ⟨place.root, place.parts ++ [parent]⟩
      else ⟨place.root, place.parts.dropLast⟩

/-- The places on the way along parts, the last one included. -/
def placesFrom (place : FilePath) : List Text → List FilePath
  | [] => [place]
  | part :: rest => place :: placesFrom (place.child part) rest

/-- The places on the way along a path, its end included. -/
def places (path : FilePath) : List FilePath := placesFrom path.start path.parts

/-- Whether a place lies below a directory. -/
def isBelow (place directory : FilePath) : Bool :=
  place.root = directory.root && directory.parts.isPrefixOf place.parts &&
    directory.parts.length < place.parts.length

end FilePath

/-- Why a file cannot be read or written. -/
inductive FileError where
  | notFound (path : FilePath)
  /-- A part before the last one is a file. -/
  | notDirectory (path : FilePath)
  /-- A directory where a file is needed. -/
  | isDirectory (path : FilePath)
  /-- A path with too many bytes, or with too many in one part. -/
  | nameTooLong (path : FilePath)
  /-- No file has a null byte in its name. -/
  | embeddedNull
  /-- A surrogate that stands for no byte. -/
  | unencodable (fault : EncodeFault)

/-- The wording of a reason. -/
def FileError.message : FileError → Text
  | .notFound path => "[Errno 2] No such file or directory: " ++ path.render.quoted
  | .notDirectory path => "[Errno 20] Not a directory: " ++ path.render.quoted
  | .isDirectory path => "[Errno 21] Is a directory: " ++ path.render.quoted
  | .nameTooLong path => "[Errno 36] File name too long: " ++ path.render.quoted
  | .embeddedNull => "embedded null byte"
  | .unencodable fault => fault.message

/-- What is at a place. -/
inductive FileEntry where
  | file (content : List UInt8)
  | directory
deriving DecidableEq

/-- Files with their contents and directories, each at the place it is reached at. -/
structure Files where
  contents : List (FilePath × List UInt8)
  directories : List FilePath

namespace Files

/-- The content of the file at a place. -/
def content? (files : Files) (place : FilePath) : Option (List UInt8) :=
  (files.contents.find? fun (other, _) => other = place).map Prod.snd

/-- Whether there is a directory at a place. The places around the current directory are
directories, and so is everything that a file or directory lies in. -/
def hasDirectory (files : Files) (place : FilePath) : Bool :=
  place.parts.all (· = FilePath.parent) || files.directories.contains place ||
    files.contents.any (fun (other, _) => other.isBelow place) ||
    files.directories.any (·.isBelow place)

/-- What is at a place. -/
def entry? (files : Files) (place : FilePath) : Option FileEntry :=
  match files.content? place with
  | some content => some (.file content)
  | none => if files.hasDirectory place then some .directory else none

/-- The place that parts lead to; `path` is what errors report. -/
def walk (files : Files) (path place : FilePath) : List Text → Except FileError FilePath
  | [] => .ok place
  | part :: rest =>
    match files.entry? place with
    | some .directory =>
      if FileName.isLongerThan FileName.maxPartLength part then .error (.nameTooLong path)
      else walk files path (place.child part) rest
    | some (.file _) => .error (.notDirectory path)
    | none => .error (.notFound path)

/-- The place that a path leads to, where there need not be anything. -/
def locate (files : Files) (path : FilePath) : Except FileError FilePath :=
  match FileName.toBytes path.render with
  | .error fault => .error (.unencodable fault)
  | .ok bytes =>
    if bytes.contains 0 then .error .embeddedNull
    else if FileName.maxPathLength < bytes.length then .error (.nameTooLong path)
    else files.walk path path.start path.parts

/-- Whether a path leads to a file or directory. A path that is too long cannot be looked up. -/
def contains (files : Files) (path : FilePath) : Except FileError Bool :=
  match files.locate path with
  | .ok place => .ok (files.entry? place).isSome
  | .error (.nameTooLong path) => .error (.nameTooLong path)
  | .error _ => .ok false

/-- The content of a file. -/
def read (files : Files) (path : FilePath) : Except FileError (List UInt8) :=
  match files.locate path with
  | .error error => .error error
  | .ok place =>
    match files.entry? place with
    | some (.file content) => .ok content
    | some .directory => .error (.isDirectory path)
    | none => .error (.notFound path)

/-- The contents with that of one place changed or added. -/
def put (place : FilePath) (content : List UInt8) :
    List (FilePath × List UInt8) → List (FilePath × List UInt8)
  | [] => [(place, content)]
  | (other, old) :: rest =>
    if other = place then (place, content) :: rest else (other, old) :: put place content rest

/-- The files after a content is written, to a file that exists or to a new one in a directory that
exists. -/
def write (files : Files) (path : FilePath) (content : List UInt8) : Except FileError Files :=
  match files.locate path with
  | .error error => .error error
  | .ok place =>
    match files.entry? place with
    | some .directory => .error (.isDirectory path)
    | _ => .ok { files with contents := put place content files.contents }

/-- The files that are new or have another content than before. -/
def changes (before after : Files) : List (FilePath × List UInt8) :=
  after.contents.filter fun (place, content) => before.content? place ≠ some content

end Files

end BitLayout

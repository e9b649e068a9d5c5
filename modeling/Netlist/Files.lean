/-
Module: Netlist.Files
Layer: Files
Purpose: Loading descriptions, images and configurations from files. A file system is what opening a path
  gives: the bytes behind it, something that opens but cannot be read, or a failure to open.
Imports: Netlist.Description.Json, Netlist.Log.Journal
Main exports: Content, Files, Files.ofDirectory, Files.loadConfig, Files.loadDescription,
  Files.loadImage, Files.loadRom
-/
import Netlist.Description.Json
import Netlist.Log.Journal

namespace Netlist

/-- What an opened path holds. -/
inductive Content where
  /-- The bytes of a file. -/
  | bytes (data : List UInt8)
  /-- Something that cannot be read. -/
  | unreadable (cause : IoFailure)
deriving Repr, Inhabited, DecidableEq

/-- A file system, as the result of opening each path. -/
structure Files where
  /-- Opens a path. -/
  access : String → Except IoFailure Content

instance : Inhabited Files :=
  ⟨⟨fun _ => .error .notFound⟩⟩

namespace Files

/-!
### A single directory
-/

/-- A place that a path leads to. -/
inductive Node where
  /-- A directory with its files; of two files of one name the last one counts. -/
  | directory (entries : List (String × List UInt8))
  /-- A file. -/
  | file (data : List UInt8)
deriving Repr, Inhabited, DecidableEq

/-- Follows a component of a path. Nothing lies below a file; an empty component or a single dot stays
    in the directory, and two dots lead to the directory above, in which no file is known. -/
def Node.follow (node : Node) (component : String) : Except IoFailure Node :=
  match node with
  | .file _ => .error .notADirectory
  | .directory entries =>
    if component = "" ∨ component = "." then .ok node
    else if component = ".." then .ok (.directory [])
    else
      match entries.reverse.find? (fun e => e.1 == component) with
      | some e => .ok (.file e.2)
      | none => .error .notFound

/-- What opening a place gives. A directory opens, but cannot be read. -/
def Node.content : Node → Content
  | .directory _ => .unreadable .isADirectory
  | .file data => .bytes data

/-- The file system of one directory with the given files, which is the current directory. -/
def ofDirectory (entries : List (String × List UInt8)) : Files where
  access path :=
    if path.isEmpty then .error .notFound
    else
      let start := if path.front == '/' then Node.directory [] else Node.directory entries
      ((path.splitOn "/").foldlM Node.follow start).map Node.content

/-!
### Loading
-/

/-- The bytes behind a path. -/
def readBytes (files : Files) (path : String) : Except IoFailure (List UInt8) := do
  match ← files.access path with
  | .bytes data => .ok data
  | .unreadable cause => .error cause

/-- The text behind a path. -/
def readText (files : Files) (path : String) : Except IoFailure (List Char) := do
  match Text.Utf8.decode? (← files.readBytes path) with
  | some text => .ok text
  | none => .error .invalidText

/-- Loads a configuration. -/
def loadConfig (files : Files) (path : String) : Except ConfigError Config :=
  match files.readText path with
  | .ok text => Config.parse text
  | .error cause => .error (.unreadable path cause)

/-- Loads a description. -/
def loadDescription (files : Files) (path : String) : Except NetlistError Description :=
  match files.readText path with
  | .error cause => .error (.unreadable path cause)
  | .ok text =>
    match Description.parse? text with
    | some d => .ok d
    | none => .error .malformed

/-- The events of loading a description. -/
def loadDescriptionEvents (files : Files) (path : String) : List Event :=
  match files.loadDescription path with
  | .ok d => [.descriptionRead path d.name]
  | .error _ => []

/-- Loads an image. -/
def loadImage (files : Files) (path : String) : Except RomError RomImage :=
  match files.access path with
  | .error cause => .error (.unreadable path cause)
  | .ok (.unreadable cause) => .error (.interrupted cause)
  | .ok (.bytes data) => RomImage.read data

/-- The events of loading an image. -/
def loadImageEvents (files : Files) (path : String) : List Event :=
  match files.loadImage path with
  | .ok image => [.imageRead path image.words.length]
  | .error _ => []

/-- Fills the blocks of a store from an image. The path has to open even when there are no blocks, but
    then it is not read. -/
def loadRom (files : Files) (path : String) (store : RomStore) : Except RomError RomStore :=
  match files.access path with
  | .error cause => .error (.unreadable path cause)
  | .ok (.bytes data) => store.loadBytes data
  | .ok (.unreadable cause) => if store.isEmpty then .ok store else .error (.interrupted cause)

/-- The events of filling a store from an image. -/
def loadRomEvents (files : Files) (path : String) (store : RomStore) : List Event :=
  (match files.access path with
    | .error _ => []
    | .ok (.bytes data) => store.loadBytesEvents data
    | .ok (.unreadable _) => if store.isEmpty then [.imageSkipped] else []) ++
  (match files.loadRom path store with
    | .ok filled => [.imageApplied path filled.blocks.size filled.loaded]
    | .error _ => [])

end Files

end Netlist

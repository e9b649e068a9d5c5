/-
Module: Netlist.Rom.Store
Layer: Memory
Purpose: The contents of ROM blocks. One image feeds all blocks of a circuit: they are filled in the order
  of their names, each taking as many words as it has addresses before the next one starts. An address
  without a word reads the default word. A store changes only when everything it is given is accepted.
Imports: Netlist.Circuit.Basic, Netlist.Config, Netlist.Rom.Image
Main exports: RomContents, RomStore, RomStore.ofCircuit, RomStore.load, RomStore.loadBytes,
  RomStore.loadBlock, RomStore.read
-/
import Netlist.Circuit.Basic
import Netlist.Config
import Netlist.Rom.Image

namespace Netlist

/-- The contents of one ROM block. -/
structure RomContents where
  /-- The block. -/
  block : RomBlock
  /-- The words from address zero on. -/
  words : Array Word := #[]
deriving Repr, Inhabited, DecidableEq

namespace RomContents

/-- How many words the block can address. -/
def capacity (c : RomContents) : Nat :=
  Word.addressSpace c.block.addrWidth

/-- The words that the block takes from the front of a list, unless one of them is too wide. -/
def accept (c : RomContents) (words : List Word) : Except RomError (List Word) :=
  let taken := words.take c.capacity
  match taken.zipIdx.find? (fun e => !Word.fits e.1 c.block.wordWidth) with
  | some (value, index) => .error (.wordTooWide c.block.name index value c.block.wordWidth)
  | none => .ok taken

end RomContents

/-- The contents of all ROM blocks of a circuit. -/
structure RomStore where
  /-- The blocks, by block number. -/
  blocks : Array RomContents
  /-- The word that an address without a word reads. -/
  defaultWord : Word
  /-- Whether images with fewer words than addresses are refused. -/
  strict : Bool
  /-- Whether anything has been loaded. -/
  loaded : Bool := false
deriving Repr, Inhabited, DecidableEq

namespace RomStore

/-- The empty store of a circuit. -/
def ofCircuit (c : Circuit) (config : Config) : RomStore where
  blocks := (c.roms.map (fun block => { block })).toArray
  defaultWord := config.defaultWord
  strict := config.strictImageLength

/-- Whether there are no blocks. -/
def isEmpty (store : RomStore) : Bool :=
  store.blocks.isEmpty

/-- How many words all blocks can address together, as far as a count reaches. -/
def capacity (store : RomStore) : Nat :=
  store.blocks.foldl (fun total c => Word.addCount total c.capacity) 0

/-- Reads a word. -/
def read (store : RomStore) (block : Nat) (address : Word) : Word :=
  match store.blocks[block]? with
  | some contents => contents.words.getD address.toNat store.defaultWord
  | none => store.defaultWord

/-!
### The order of filling
-/

/-- Puts a numbered block before the first one whose name is not smaller. -/
def insertByName (entry : Nat × RomContents) : List (Nat × RomContents) → List (Nat × RomContents)
  | [] => [entry]
  | other :: rest =>
    if entry.2.block.name ≤ other.2.block.name then entry :: other :: rest
    else other :: insertByName entry rest

/-- The numbered blocks in the order of their names. -/
def byName (store : RomStore) : List (Nat × RomContents) :=
  (store.blocks.toList.zipIdx.map (fun e => (e.2, e.1))).foldr insertByName []

/-- The words given to blocks so far, and the fault that stopped the filling, if one did. -/
structure Filling where
  /-- The number and the words of each block that has been filled, in order. -/
  filled : List (Nat × List Word)
  /-- Why the next block could not be filled. -/
  fault : Option RomError
deriving Repr, Inhabited, DecidableEq

/-- Fills blocks one after the other from the words of an image, the first from position `offset` on. The
    position is a count, so it stops at the largest count, where no image has words left. -/
def fill (words : List Word) : Nat → List (Nat × RomContents) → Filling
  | _, [] => ⟨[], none⟩
  | offset, (number, contents) :: rest =>
    match contents.accept (words.drop offset) with
    | .error fault => ⟨[], some fault⟩
    | .ok taken =>
      let later := fill words (Word.addCount offset contents.capacity) rest
      ⟨(number, taken) :: later.filled, later.fault⟩

/-- Puts words into a block in place of what it held. -/
def put (blocks : Array RomContents) (number : Nat) (words : List Word) : Array RomContents :=
  blocks.modify number (fun contents => { contents with words := words.toArray })

/-!
### Loading
-/

/-- Whether an image of `count` words is refused for its length. -/
def refusesLength (store : RomStore) (count : Nat) : Bool :=
  store.strict && decide (count < store.capacity)

/-- Fills every block from one image. -/
def load (store : RomStore) (image : RomImage) : Except RomError RomStore :=
  if store.refusesLength image.words.length then
    .error (.imageTooShort store.capacity image.words.length)
  else
    match fill image.words 0 store.byName with
    | ⟨_, some fault⟩ => .error fault
    | ⟨filled, none⟩ =>
      .ok { store with
        blocks := filled.foldl (fun blocks e => put blocks e.1 e.2) store.blocks
        loaded := true }

/-- Reads an image and fills every block from it. Nothing is read when there are no blocks, and never
    more words than the blocks can hold. -/
def loadBytes (store : RomStore) (bytes : List UInt8) : Except RomError RomStore :=
  if store.isEmpty then .ok store
  else do
    let image ← RomImage.scan store.capacity bytes
    store.load image

/-- The number of the first block of a given name, with its contents. -/
def find? (store : RomStore) (name : String) : Option (Nat × RomContents) :=
  match store.blocks.findIdx? (fun c => c.block.name == name) with
  | some number => store.blocks[number]?.map (fun contents => (number, contents))
  | none => none

/-- Fills a single block and leaves the others as they are. -/
def loadBlock (store : RomStore) (name : String) (words : List Word) : Except RomError RomStore :=
  match store.find? name with
  | none => .error (.unknownBlock name)
  | some (number, contents) =>
    if store.strict && decide (words.length < contents.capacity) then
      .error (.imageTooShort contents.capacity words.length)
    else do
      let taken ← contents.accept words
      .ok { store with blocks := put store.blocks number taken, loaded := true }

end RomStore

end Netlist

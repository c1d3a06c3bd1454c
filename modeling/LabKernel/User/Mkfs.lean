/-
`mkfs`, which builds a file system image from input files.

The host is little-endian, so numbers are in the image as they are in memory. The image is a file
of whole sectors; reading behind its end is a short read, which ends the program.
-/

import LabKernel.Fs.Bitmap

set_option autoImplicit false

namespace LabKernel.User.Mkfs

open Fs LittleEndian

/-! ### The layout -/

def fsSize : Nat := 1000

def nInodes : Nat := 200

def nDirect : Nat := 12

def nIndirect : Nat := blockSize / 4

def inodeMaxBlocks : Nat := nDirect + nIndirect

/-- `FILE_NAME_MAX_LENGTH`. -/
def dirSiz : Nat := 14

/-- `sizeof(InodeEntry)`. -/
def inodeSize : Nat := 64

def ipb : Nat := blockSize / inodeSize

def nbitmap : Nat := fsSize / (blockSize * 8) + 1

def ninodeblocks : Nat := nInodes / ipb + 1

def numLogBlocks : Nat := logMaxSize

def nmeta : Nat := 2 + numLogBlocks + ninodeblocks + nbitmap

def inodeStart : Nat := 2 + numLogBlocks

def bitmapStart : Nat := 2 + numLogBlocks + ninodeblocks

def iblock (inum : Nat) : Nat := inum / ipb + inodeStart

def rootInodeNo : Nat := 1

def inodeDirectory : UInt16 := 1

def inodeRegular : UInt16 := 2

/-- The fields of the superblock in their order. -/
def superblockWord : Nat → Nat
  | 0 => fsSize
  | 1 => fsSize - nmeta
  | 2 => nInodes
  | 3 => numLogBlocks
  | 4 => 2
  | 5 => inodeStart
  | 6 => bitmapStart
  | _ => 0

/-! ### What is in a block -/

def ofWords (word : Nat → Nat) : BlockData := fun index =>
  UInt8.ofNat (byteAt (word (index.val / 4)) (index.val % 4))

/-- The 32-bit word at a word index of a block. -/
def u32At (data : BlockData) (index : Nat) : Nat :=
  readBytes (fun place =>
    if within : 4 * index + place < blockSize then (data ⟨4 * index + place, within⟩).toNat
    else 0) 4

structure InodeEntry where
  type : UInt16
  major : UInt16
  minor : UInt16
  numLinks : UInt16
  numBytes : UInt32
  addrs : Fin nDirect → UInt32
  indirect : UInt32

namespace InodeEntry

/-- An inode as 32-bit words, of which the first two hold two fields each. -/
def word (inode : InodeEntry) : Nat → Nat
  | 0 => inode.type.toNat + 2 ^ 16 * inode.major.toNat
  | 1 => inode.minor.toNat + 2 ^ 16 * inode.numLinks.toNat
  | 2 => inode.numBytes.toNat
  | index + 3 =>
      if within : index < nDirect then (inode.addrs ⟨index, within⟩).toNat
      else inode.indirect.toNat

/-- `*ip = *dip`. -/
def ofBlock (data : BlockData) (slot : Nat) : InodeEntry :=
  { type := UInt16.ofNat (u32At data (16 * slot))
    major := UInt16.ofNat (u32At data (16 * slot) / 2 ^ 16)
    minor := UInt16.ofNat (u32At data (16 * slot + 1))
    numLinks := UInt16.ofNat (u32At data (16 * slot + 1) / 2 ^ 16)
    numBytes := UInt32.ofNat (u32At data (16 * slot + 2))
    addrs := fun index => UInt32.ofNat (u32At data (16 * slot + 3 + index.val))
    indirect := UInt32.ofNat (u32At data (16 * slot + 15)) }

/-- `*dip = *ip`. -/
def put (inode : InodeEntry) (data : BlockData) (slot : Nat) : BlockData := fun index =>
  if index.val / inodeSize = slot then
    UInt8.ofNat (byteAt (inode.word (index.val % inodeSize / 4)) (index.val % 4))
  else data index

def setAddr (inode : InodeEntry) (index : Fin nDirect) (block : Nat) : InodeEntry :=
  { inode with addrs := Function.update inode.addrs index (UInt32.ofNat block) }

end InodeEntry

/-- A block read over the array `indirect`. -/
def indirectOf (data : BlockData) (index : Fin nIndirect) : UInt32 :=
  UInt32.ofNat (u32At data index.val)

/-- `(char*)indirect`. -/
def indirectBlock (addrs : Fin nIndirect → UInt32) : BlockData :=
  ofWords fun index => if within : index < nIndirect then (addrs ⟨index, within⟩).toNat else 0

/-- `bcopy(p, buf + start, n)`. -/
def overwrite (buf : BlockData) (start : Nat) (bytes : List UInt8) : BlockData := fun index =>
  if start ≤ index.val then bytes.getD (index.val - start) (buf index) else buf index

/-! ### The image -/

inductive Abort where
  | assertion
  | exit
  | endless
  deriving DecidableEq

structure InodeWrite where
  block : Nat
  inum : Nat
  inode : InodeEntry

/-- The image and the two counters. `handed` are the inode numbers that `ialloc` has returned, and
`writes` what `winode` has written. -/
structure Image where
  sector : Nat → BlockData
  size : Nat
  freeinode : Nat
  freeblock : Nat
  handed : List Nat
  writes : List InodeWrite

namespace Image

variable (image : Image)

def wsect (sec : Nat) (buf : BlockData) : Image :=
  { image with
    sector := Function.update image.sector sec buf
    size := max image.size (sec + 1) }

def rsect (sec : Nat) : Except Abort BlockData :=
  if sec < image.size then .ok (image.sector sec) else .error .exit

def winode (inum : Nat) (ip : InodeEntry) : Except Abort Image := do
  let buf ← image.rsect (iblock inum)
  let written := image.wsect (iblock inum) (ip.put buf (inum % ipb))
  pure { written with
    writes := image.writes ++ [{ block := iblock inum, inum := inum, inode := ip }] }

def rinode (inum : Nat) : Except Abort InodeEntry := do
  let buf ← image.rsect (iblock inum)
  pure (.ofBlock buf (inum % ipb))

def newInode (type : UInt16) : InodeEntry :=
  { type := type
    major := 0
    minor := 0
    numLinks := 1
    numBytes := 0
    addrs := fun _ => 0
    indirect := 0 }

def ialloc (type : UInt16) : Except Abort (Nat × Image) := do
  let inum := image.freeinode
  let image ← { image with freeinode := inum + 1 }.winode inum (newInode type)
  pure (inum, { image with handed := image.handed ++ [inum] })

/-- `freeblock++`. -/
def grab : Image := { image with freeblock := image.freeblock + 1 }

end Image

/-! ### Appending -/

/-- The variables of the loop of `iappend`. -/
structure Append where
  image : Image
  din : InodeEntry
  off : Nat

namespace Append

variable (state : Append)

/-- The entry of a direct block, which is allocated at its first use. -/
def direct (index : Fin nDirect) : Nat × Append :=
  let next :=
    if state.din.addrs index = 0 then
      { state with
        image := state.image.grab
        din := state.din.setAddr index state.image.freeblock }
    else state
  ((next.din.addrs index).toNat, next)

/-- The indirect block is allocated at its first use. -/
def withIndirect : Append :=
  if state.din.indirect = 0 then
    { state with
      image := state.image.grab
      din := { state.din with indirect := UInt32.ofNat state.image.freeblock } }
  else state

/-- An entry of the indirect block, which is allocated at its first use. -/
def entry (index : Fin nIndirect) : Except Abort (Nat × Append) := do
  let block := state.din.indirect.toNat
  let buf ← state.image.rsect block
  let indirect := indirectOf buf
  if indirect index = 0 then
    let indirect := Function.update indirect index (UInt32.ofNat state.image.freeblock)
    pure ((indirect index).toNat,
      { state with image := state.image.grab.wsect block (indirectBlock indirect) })
  else pure ((indirect index).toNat, state)

def blockFor (fbn : Fin inodeMaxBlocks) : Except Abort (Nat × Append) :=
  if within : fbn.val < nDirect then .ok (state.direct ⟨fbn.val, within⟩)
  else
    state.withIndirect.entry ⟨fbn.val - nDirect, by
      have bound := fbn.isLt
      unfold inodeMaxBlocks at bound
      omega⟩

/-- One round of the loop: how many bytes it takes. -/
def piece (p : List UInt8) : Except Abort (Nat × Append) :=
  if within : state.off / blockSize < inodeMaxBlocks then do
    let fbn := state.off / blockSize
    let (x, state) ← state.blockFor ⟨fbn, within⟩
    let n1 := min p.length ((fbn + 1) * blockSize - state.off)
    let buf ← state.image.rsect x
    pure (n1,
      { state with
        image := state.image.wsect x (overwrite buf (state.off - fbn * blockSize) (p.take n1))
        off := state.off + n1 })
  else .error .assertion

/-- The loop of `iappend`, in at most the given number of rounds. -/
def loop : Nat → Append → List UInt8 → Except Abort Append
  | _, state, [] => .ok state
  | 0, _, _ :: _ => .error .endless
  | rounds + 1, state, first :: rest => do
      let (n1, next) ← state.piece (first :: rest)
      loop rounds next ((first :: rest).drop n1)

end Append

namespace Image

variable (image : Image)

def iappend (inum : Nat) (p : List UInt8) : Except Abort Image := do
  let din ← image.rinode inum
  let final ← Append.loop p.length
    { image := image
      din := din
      off := din.numBytes.toNat } p
  final.image.winode inum { final.din with numBytes := UInt32.ofNat final.off }

end Image

/-! ### Input files -/

/-- What one `read` into the buffer returns. -/
def Chunk : Type := { bytes : List UInt8 // bytes ≠ [] ∧ bytes.length ≤ blockSize }

/-- A path without its terminating zero, and what is read from the file if it can be opened. -/
structure InputFile where
  path : List UInt8
  terminated : (0 : UInt8) ∉ path
  chunks : Option (List Chunk)

def slash : UInt8 := 47

def underscore : UInt8 := 95

/-- The loop that finds the file name, from `j` on. -/
def nameLoop : Int → List UInt8 → Int
  | j, [] => j
  | j, c :: rest => nameLoop ((if c = slash then -1 else j) + 1) rest

/-- `argv[i] -= j` from the end of the path. -/
def baseName (path : List UInt8) : List UInt8 :=
  path.drop (path.length - (nameLoop 0 path).toNat)

def skipUnderscore : List UInt8 → List UInt8
  | c :: rest => if c = underscore then rest else c :: rest
  | [] => []

/-- A `struct dirent` that has been cleared, with its name from `strncpy`. -/
def dirent (inum : Nat) (name : List UInt8) : List UInt8 :=
  [UInt8.ofNat (byteAt inum 0), UInt8.ofNat (byteAt inum 1)] ++
    (name.take dirSiz ++ List.replicate (dirSiz - name.length) 0)

namespace Image

variable (image : Image)

def appendChunks (inum : Nat) : Image → List Chunk → Except Abort Image
  | image, [] => .ok image
  | image, chunk :: rest => do
      let image ← image.iappend inum chunk.val
      appendChunks inum image rest

def addFile (file : InputFile) : Except Abort Image :=
  let name := baseName file.path
  if slash ∈ name then .error .assertion
  else
    match file.chunks with
    | none => .error .exit
    | some chunks => do
        let (inum, image) ← image.ialloc inodeRegular
        let image ← image.iappend rootInodeNo (dirent inum (skipUnderscore name))
        appendChunks inum image chunks

def addFiles : Image → List InputFile → Except Abort Image
  | image, [] => .ok image
  | image, file :: rest => do
      let image ← image.addFile file
      addFiles image rest

/-- The size of the root directory is rounded up. -/
def fixRoot : Except Abort Image := do
  let din ← image.rinode rootInodeNo
  let off := (din.numBytes.toNat / blockSize + 1) * blockSize
  image.winode rootInodeNo { din with numBytes := UInt32.ofNat off }

/-- `balloc(freeblock)`. -/
def writeBitmap : Except Abort Image :=
  match balloc image.freeblock with
  | none => .error .assertion
  | some buf => .ok (image.wsect bitmapStart buf)

end Image

def zeroLoop : Nat → Image → Image
  | 0, image => image
  | i + 1, image => (zeroLoop i image).wsect i (fun _ => 0)

/-- The image before the first inode: the file has been truncated and is cleared. -/
def blank : Image :=
  (zeroLoop fsSize
    { sector := fun _ _ => 0
      size := 0
      freeinode := 1
      freeblock := nmeta
      handed := []
      writes := [] }).wsect 1 (ofWords superblockWord)

def makeRoot (image : Image) : Except Abort Image := do
  let (rootino, image) ← image.ialloc inodeDirectory
  if rootino = rootInodeNo then
    let image ← image.iappend rootino (dirent rootino [46])
    image.iappend rootino (dirent rootino [46, 46])
  else .error .assertion

/-- `main`, up to `exit(0)`. -/
def mkfs (files : List InputFile) : Except Abort Image := do
  let image ← makeRoot blank
  let image ← image.addFiles files
  let image ← image.fixRoot
  image.writeBitmap

end LabKernel.User.Mkfs

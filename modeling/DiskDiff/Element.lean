import DiskDiff.Time

/-!
# `FilesystemElement`: the record of one entry, and its line in a listing

The fields of `FilesystemElement` are those of `diskdiff.h`: type, permissions, owner,
group, modification time, size and hash (of a regular file), path relative to the top
directory, symlink target, and the hard-link count, which is the one field not written
to a listing. A path is its text; `std::filesystem::path` is printed and read through
`std::quoted` (`DiskDiff.Stream`).

`writeTo` is the line printer and `readFrom` the line parser, with every check of the
source and the text of each error. `readFrom` updates the element it is called on, as the
C++ member function does: a field it does not read keeps its value. A failed read throws,
and the partly updated element is not modelled.
-/

namespace DiskDiff

/-- `std::filesystem::file_type`. -/
inductive FileType where
  | none | notFound | regular | directory | symlink | block | character | fifo | socket | unknown
  deriving DecidableEq, Repr

/-- `perms::unknown`, the permissions of a default-constructed element. -/
def permsUnknown : Nat := 0xFFFF

/-- `FilesystemElement`, with the defaults of its constructor `FilesystemElement()`. -/
structure FilesystemElement where
  ty : FileType := .unknown
  per : Nat := permsUnknown
  us : String := ""
  gs : String := ""
  mt : Int64 := 0
  sz : Int64 := 0
  fileHash : String := ""
  rp : String := ""
  symlink : String := ""
  hardLinkCnt : Nat := 1
  deriving DecidableEq, Repr

/-- What `ext_symlink_status(p)` of `extfs.h` reports on an entry, without following a
symlink. -/
structure ExtFileStatus where
  type : FileType
  permissions : Nat
  user : String
  group : String
  mtime : Int64
  hardLinkCount : Nat
  fileSize : Int64
  deriving DecidableEq, Repr

namespace FilesystemElement

/-- `isDirectory()`. -/
def isDirectory (e : FilesystemElement) : Bool := e.ty == .directory

/-- `FilesystemElement(p, top)`: the record of the entry at `p`, whose path relative to
the top directory is `rp`; `hash` is what `hashFile(p)` computes for a regular file and
`target` what `read_symlink(p)` returns for a symlink. A type the program does not handle
becomes `unknown`. -/
def ofStatus (rp : String) (s : ExtFileStatus) (hash target : String) : FilesystemElement :=
  let e : FilesystemElement :=
    { rp := rp, per := s.permissions, us := s.user, gs := s.group, mt := s.mtime, ty := s.type,
      hardLinkCnt := s.hardLinkCount }
  match s.type with
  | .regular => { e with sz := s.fileSize, fileHash := hash }
  | .directory => e
  | .symlink => { e with symlink := target }
  | _ => { e with ty := .unknown }

/-! ## `writeTo` -/

/-- The first character of the permission string. -/
def typeChar : FileType → Char
  | .regular => '-'
  | .directory => 'd'
  | .symlink => 'l'
  | _ => '?'

/-- One `rwx` character: `pe & mask ? c : '-'`. -/
def permChar (pe mask : Nat) (c : Char) : Char := if pe &&& mask = 0 then '-' else c

/-- The nine `rwx` characters, from bit `0400` down to bit `0001`. -/
def permString (pe : Nat) : List Char :=
  [permChar pe 0o400 'r', permChar pe 0o200 'w', permChar pe 0o100 'x',
    permChar pe 0o040 'r', permChar pe 0o020 'w', permChar pe 0o010 'x',
    permChar pe 0o004 'r', permChar pe 0o002 'w', permChar pe 0o001 'x']

/-- The fields of the `switch(ty)` of `writeTo`: size and hash of a regular file, target
of a symlink, each followed by a space. -/
def typeFields (e : FilesystemElement) : List Char :=
  match e.ty with
  | .regular => writeInt e.sz.val ++ ' ' :: e.fileHash.data ++ [' ']
  | .symlink => quoted e.symlink ++ [' ']
  | _ => []

/-- `writeTo(os)`: the line of the element, its `\n` included. -/
def writeTo (e : FilesystemElement) : List Char :=
  typeChar e.ty :: permString e.per ++ ' ' :: e.us.data ++ ' ' :: e.gs.data ++ ' ' ::
    putTime (gmtime e.mt) ++ ' ' :: typeFields e ++ quoted e.rp ++ ['\n']

/-! ## `readFrom` -/

/-- The text of the `runtime_error` that `fail(m)` throws in `readFrom`. -/
def failMessage (diffLine diffFileName : String) (lineNo : Int) (m : String) : String :=
  let s := if diffFileName.isEmpty then diffFileName else diffFileName ++ ": "
  let s := s ++ m
  let s := if lineNo > 0 then s ++ " at line" ++ toString lineNo else s
  s ++ ", wrong line is \x27" ++ diffLine ++ "\x27"

/-- The `switch(permStr.at(0))` of `readFrom`. -/
def fileTypeOf? : Char → Option FileType
  | '-' => some .regular
  | 'd' => some .directory
  | 'l' => some .symlink
  | '?' => some .unknown
  | _ => none

/-- One position of an `rwx` triple: `letter` sets `bit`, `-` sets nothing, any other
character is an error. -/
def permBit (letter : Char) (bit : Nat) (c : Char) (pe : Nat) : Option Nat :=
  if c = letter then some (pe ||| bit) else if c = '-' then some pe else none

/-- Turn `i` of the loop of `readFrom` over the triples `permStr.substr(3*i+1,3)`. -/
def readTriple (permStr : List Char) (pe i : Nat) : Option Nat :=
  let t := (permStr.drop (3 * i + 1)).take 3
  permBit 'r' 4 (t.getD 0 ' ') (pe <<< 3) >>= permBit 'w' 2 (t.getD 1 ' ') >>=
    permBit 'x' 1 (t.getD 2 ' ')

/-- The loop `for(int i=0;i<3;i++)` over the three triples, from `pe = 0`. -/
def readPerms (permStr : List Char) : Option Nat := [0, 1, 2].foldlM (readTriple permStr) 0

/-- The `switch(ty)` of `readFrom`: size and hash of a regular file, target of a symlink. -/
def readTypeFields (fail : String → String) (self : FilesystemElement) (s : IStream) :
    FileType → Except String (FilesystemElement × IStream)
  | .regular =>
    let sz := s.extractLong
    if sz.2.fail then throw (fail "Error reading size") else
    let fileHash := sz.2.extractString
    if fileHash.2.fail ∨ fileHash.1.length ≠ 40 then throw (fail "Error reading hash")
    else pure ({ self with sz := sz.1, fileHash := fileHash.1 }, fileHash.2)
  | .symlink =>
    let symlink := s.extractQuoted
    if symlink.2.fail then throw (fail "Error reading symlink target")
    else pure ({ self with symlink := symlink.1 }, symlink.2)
  | _ => pure (self, s)

/-- The body of `readFrom` from the stream `in` on: `fail` is its lambda of that name. Each
check returns at once when it fails. The `struct tm t` of the source is not initialised; the
model starts it at zero, and no run depends on that: a read of the time that leaves the stream
good has stored every field (`timeGet_good`), and any other fails one of the two checks of the
time with the same message. -/
def readFields (fail : String → String) (self : FilesystemElement) (s : IStream) :
    Except String FilesystemElement :=
  let permStr := s.extractString
  if permStr.2.fail ∨ permStr.1.length ≠ 10 then throw (fail "Error reading permission string")
  else match fileTypeOf? (permStr.1.data.getD 0 ' ') with
  | none => throw (fail "Unrecognized file type")
  | some ty => match readPerms permStr.1.data with
    | none => throw (fail "Permissions not correct")
    | some pe =>
      let us := permStr.2.extractString
      let gs := us.2.extractString
      if gs.2.fail then throw (fail "Error reading user/group") else
      let t := gs.2.getTime ⟨0, 0, 0, 0, 0, 0⟩ timeFormat
      let mt := timegm t.1
      if t.2.fail ∨ mt.val = -1 then throw (fail "Error reading mtime") else
      let tz := t.2.read 6
      if tz.2.fail ∨ tz.1 ≠ " +0000".data then throw (fail "Error reading mtime") else
      readTypeFields fail self tz.2 ty >>= fun e =>
      let rp := e.2.extractQuoted
      if rp.2.fail then throw (fail "Error reading path")
      else if rp.2.get.1.isSome then throw (fail "Extra characters at end of line")
      else pure { e.1 with
        ty := ty, per := pe, us := us.1, gs := gs.1, mt := mt, rp := rp.1, hardLinkCnt := 1 }

/-- `readFrom(diffLine, diffFileName, lineNo)` on the element `self`; the C++ defaults
are `diffFileName = ""` and `lineNo = -1`. -/
def readFrom (self : FilesystemElement) (diffLine diffFileName : String) (lineNo : Int) :
    Except String FilesystemElement :=
  readFields (failMessage diffLine diffFileName lineNo) self (IStream.ofList diffLine.data)

/-- `FilesystemElement(diffLine, diffFileName, lineNo)`: `readFrom` on a default-constructed
element. -/
def ofLine (diffLine diffFileName : String) (lineNo : Int) : Except String FilesystemElement :=
  ({} : FilesystemElement).readFrom diffLine diffFileName lineNo

end FilesystemElement

end DiskDiff

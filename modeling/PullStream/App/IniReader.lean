import PullStream.App.Common
import PullStream.Base.Chunks
import Mathlib.Algebra.Group.Int.Defs
import Mathlib.Logic.Function.Basic
/-!
# The configuration file (`config/iniReader.cpp`)

Both programs have the same `CIniReader`. `Load` reads the file into a buffer of `CONFIGLEN` bytes with `fgets`, so that
a line of more than 255 bytes comes in several pieces, and takes each piece for a line. A piece with both brackets in it
is the header of a section, and otherwise one with a `=` sets a key. The keys of a section are put into `m_Map` as a
whole when the next header or the end of the file has been read.

Positions in a string are `int`s, `-1` when there is none. `erase` and `substr` throw `std::out_of_range` for one that
is beyond the string, which nothing in the programs catches (`none`).
-/

namespace PullStream

/-- `CONFIGLEN` -/
def configLen : Nat := 256

def lf : UInt8 := 10

def cr : UInt8 := 13

def leftBracket : UInt8 := 91

def rightBracket : UInt8 := 93

def equalsSign : UInt8 := 61

/-! ### Strings -/

/-- `find`, as an `int`. -/
def find (s : Str) (b : UInt8) : Int := if b ∈ s then s.idxOf b else -1

/-- `erase(pos, 1)` -/
def eraseAt (s : Str) (pos : Int) : Option Str :=
  if 0 ≤ pos ∧ pos ≤ s.length then some (s.eraseIdx pos.toNat) else none

/-- `substr(pos, n)` -/
def substr (s : Str) (pos n : Int) : Option Str :=
  if 0 ≤ pos ∧ pos ≤ s.length then some ((s.drop pos.toNat).take n.toNat) else none

/-- `isspace` -/
def isSpace (b : UInt8) : Bool := b = 32 ∨ (9 ≤ b ∧ b ≤ 13)

def isDigit (b : UInt8) : Bool := 48 ≤ b ∧ b ≤ 57

theorem isDigit_iff {b : UInt8} : isDigit b = true ↔ 48 ≤ b.toNat ∧ b.toNat ≤ 57 := by
  simp [isDigit, UInt8.le_iff_toNat_le]

/-- The number that the digits at the beginning stand for. -/
def digitsValue (s : Str) : Nat := (s.takeWhile isDigit).foldl (fun n b => 10 * n + (b.toNat - 48)) 0

/-- `atoi`, which is `strtol` with its result, a `long`, cut to an `int`. -/
def atoi (s : Str) : Int32 :=
  let s := s.dropWhile isSpace
  let n : Int :=
    match s with
    | 45 :: s => -(digitsValue s : Int)
    | 43 :: s => digitsValue s
    | s => digitsValue s
  Int32.ofInt (max (-2 ^ 63) (min n (2 ^ 63 - 1)))

/-! ### Reading a file -/

/-- The pieces that `fgets` reads with a buffer of `CONFIGLEN` bytes, which leaves room for the terminator. -/
def pieces (text : Str) : List Str := Chunks.chunks (· == lf) (configLen - 2) text

/-- `szLine`: what is in the buffer, without the first `\n` and the first `\r`. -/
def szLine (strLine : Str) : Str := ((cStr strLine).erase lf).erase cr

/-- What a line is taken for. -/
inductive Item where
  | header (name : Str)
  | pair (key value : Str)
  | other
  deriving DecidableEq, Repr

def parse (szLine : Str) : Option Item :=
  let nLeftPos := find szLine leftBracket
  let nRightPos := find szLine rightBracket
  if nLeftPos ≠ -1 ∧ nRightPos ≠ -1 then do
    let szLine ← eraseAt szLine nLeftPos
    let nRightPos := nRightPos - 1
    let szLine ← eraseAt szLine nRightPos
    return .header szLine
  else
    let nIndexPos := find szLine equalsSign
    if nIndexPos ≠ -1 then do
      let szSubKey ← substr szLine 0 nIndexPos
      let szSubValue ← substr szLine (nIndexPos + 1) (szLine.length - nIndexPos - 1)
      return .pair szSubKey szSubValue
    else return .other

/-- `KEYMAP` -/
abbrev KeyMap := Str → Option Str

/-- `MAINKEYMAP` -/
abbrev MainKeyMap := Str → Option KeyMap

/-- The variables of the loop of `Load`. -/
structure Reading where
  map : MainKeyMap
  szLastMainKey : Str
  mLastMap : KeyMap

namespace Reading

def start : Reading := ⟨fun _ => none, [], fun _ => none⟩

def take (st : Reading) : Item → Reading
  | .header name => ⟨Function.update st.map st.szLastMainKey (some st.mLastMap), name, fun _ => none⟩
  | .pair key value => { st with mLastMap := Function.update st.mLastMap key (some value) }
  | .other => st

/-- `m_Map` when the file has been read. -/
def finish (st : Reading) : MainKeyMap := Function.update st.map st.szLastMainKey (some st.mLastMap)

/-- The loop, and whether it has come to the end of the file. -/
def loop : List Str → Reading → Bool × Reading
  | [], st => (true, st)
  | strLine :: rest, st =>
    match parse (szLine strLine) with
    | none => (false, st)
    | some item => loop rest (st.take item)

end Reading

/-! ### The class -/

/-- `INI_RES`, as far as it is used. -/
inductive IniRes where
  | success
  | openFileError
  deriving DecidableEq, Repr

/-- `CIniReader` -/
structure IniReader where
  szKey : Str
  map : MainKeyMap

namespace IniReader

/-- The constructor. -/
def new : IniReader := ⟨[], fun _ => none⟩

/-- `Load`. The file cannot be opened if it is `none`, and `none` is returned when an exception is thrown. -/
def load (file : Option Str) (r : IniReader) : Option IniRes × IniReader :=
  match file with
  | none => (some .openFileError, r)
  | some text =>
    match Reading.loop (pieces text) .start with
    | (true, st) => (some .success, { r with map := st.finish })
    | (false, st) => (none, { r with map := st.map })

/-- `GetKey`. The `operator[]` of a map makes an entry if there is none, here in `m_Map`, and there in a copy of the
section. The last component is what is copied to `pValue`. -/
def getKey (mAttr cAttr : Str) (r : IniReader) : IniRes × IniReader × Str :=
  let mKey := (r.map (cStr mAttr)).getD fun _ => none
  let sTemp := (mKey (cStr cAttr)).getD []
  (.success, { r with map := Function.update r.map (cStr mAttr) (some mKey) }, cStr sTemp)

/-- `GetInt` -/
def getInt (mAttr cAttr : Str) (r : IniReader) : Int32 × IniReader :=
  match getKey mAttr cAttr { r with szKey := [] } with
  | (.success, r, value) => (atoi value, { r with szKey := value })
  | (_, r, value) => (0, { r with szKey := value })

/-- `GetStr`, which returns `m_szKey`. -/
def getStr (mAttr cAttr : Str) (r : IniReader) : Str × IniReader :=
  match getKey mAttr cAttr { r with szKey := [] } with
  | (.success, r, value) => (value, { r with szKey := value })
  | (_, r, _) => (lit "NULL", { r with szKey := lit "NULL" })

end IniReader

/-- The functions that look something up. -/
inductive IniLookup where
  | getStr (mAttr cAttr : Str)
  | getInt (mAttr cAttr : Str)

def IniLookup.after (r : IniReader) : IniLookup → IniReader
  | .getStr mAttr cAttr => (r.getStr mAttr cAttr).2
  | .getInt mAttr cAttr => (r.getInt mAttr cAttr).2

end PullStream

import Mathlib.Algebra.GroupWithZero.Nat
import Mathlib.Data.List.TakeWhile
/-!
# The service's data (`app/common.h`)

Strings of the source are `std::string`s, counted sequences of bytes that may hold a NUL. Where the
source passes `c_str()` on, only the bytes before the first NUL get through (`cStr`).
-/

namespace PullStream

/-- The numerals of `Fin 2`, by one proof wherever they stand. -/
instance two_neZero : NeZero 2 := ⟨by decide⟩

/-- A `std::string`. -/
abbrev Str := List UInt8

/-- A literal of the source (all of them are ASCII). -/
def lit (s : String) : Str := s.toList.map fun c => UInt8.ofNat c.toNat

/-- What a callee sees of a string that is passed as `c_str()`. -/
def cStr (s : Str) : Str := s.takeWhile (· ≠ 0)

@[simp] theorem cStr_cStr (s : Str) : cStr (cStr s) = cStr s := by
  exact List.takeWhile_idem

/-- `event_t`. -/
inductive EventType where
  | createProcess
  | reloadProcess
  | removeProcess
  | terminateProcess
  deriving DecidableEq, Repr

/-- `translate_type`. -/
inductive TranslateType where
  | rtmp2Rtmp
  | rtsp2Rtmp
  deriving DecidableEq, Repr

def TranslateType.val : TranslateType → Int
  | .rtmp2Rtmp => 0
  | .rtsp2Rtmp => 1

/-- `process_info`. -/
structure ProcessInfo where
  sid : Str
  pid : Int
  ppid : Int
  srcUrl : Str
  destUrl : Str
  type : Int
  status : Str
  host : Str
  deriving DecidableEq, Repr

/-- `rec_event`. -/
structure Event where
  process : ProcessInfo
  type : EventType
  deriving DecidableEq, Repr

/-- `error_code`. -/
inductive ErrorCode where
  | errorOk
  | errorStreamExist
  | recErrorPorcessInfoNone
  | recErrorGetCollectionFailed
  | recErrorForkFailed
  | recErrorStreamNotExist
  | recErrorMongodb
  | recErrorJsonParser
  | recErrorInternal
  | recErrorPortUnspecified
  | recErrorRootPathUnspecified
  | recErrorM3u8PathExist
  | recErrorJsonParserException
  | errorOpenPidFile
  | errorTranslateTypeUnexcepted
  deriving DecidableEq, Repr

/-- The integer the source returns for a code: its position in the enumeration. -/
def ErrorCode.val : ErrorCode → Int
  | .errorOk => 0
  | .errorStreamExist => 1
  | .recErrorPorcessInfoNone => 2
  | .recErrorGetCollectionFailed => 3
  | .recErrorForkFailed => 4
  | .recErrorStreamNotExist => 5
  | .recErrorMongodb => 6
  | .recErrorJsonParser => 7
  | .recErrorInternal => 8
  | .recErrorPortUnspecified => 9
  | .recErrorRootPathUnspecified => 10
  | .recErrorM3u8PathExist => 11
  | .recErrorJsonParserException => 12
  | .errorOpenPidFile => 13
  | .errorTranslateTypeUnexcepted => 14

instance : Coe ErrorCode Int := ⟨ErrorCode.val⟩

/-- What the surroundings of a running service supply: its own pid (`getpid`), the integers found in the
uninitialised fields of a fresh `_process_info`, the value seen by the caller of a function whose
body ends without a `return`, and what becomes of the string in a member of a document when libbson prints it
(`bson_as_json`) and jsoncpp parses it. -/
structure Env where
  pid : Int
  junkPid : Int
  junkPpid : Int
  noReturn : Int
  shown : String → Str → Str

/-- A `_process_info` as its constructor leaves it: only `type` is set. -/
def Env.newInfo (env : Env) : ProcessInfo where
  sid := []
  pid := env.junkPid
  ppid := env.junkPpid
  srcUrl := []
  destUrl := []
  type := TranslateType.rtmp2Rtmp.val
  status := []
  host := []

/-- The byte that jsoncpp reads where libbson has printed this one. `bson_utf8_escape_for_json` has escapes for the
bytes 8 to 10, 12 and 13. The other control characters it writes as `\u%04u`, in decimal digits, which jsoncpp
takes for hexadecimal ones. -/
def jsonByte (b : UInt8) : UInt8 := if b = 11 ∨ 14 ≤ b ∧ b < 32 then b / 10 * 16 + b % 10 else b

/-- What the libraries under `lib/` make of a string, which is UTF-8. -/
def libShown (_ : String) (s : Str) : Str := s.map jsonByte

/-- The sid under which the store knows the stream an event is about. -/
def Event.key (ev : Event) : Str := cStr ev.process.sid

end PullStream

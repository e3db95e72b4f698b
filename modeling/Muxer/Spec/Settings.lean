import Muxer.Spec.Config

/-!
# What the lines of the configuration file set (`common/config.c`, `common/str.h`, `global.c`)

Strings are without their `NUL`. `memalloc` is taken to succeed.
-/

namespace Muxer.Settings

open Muxer.Config

/-- What ends the process while the file is read, or a line of it. -/
inductive Failure
  | reading (e : Stop)
  /-- `isspace` of a `char` below `EOF`, which is not defined. -/
  | isspace
  /-- `strcpy_s` of a string that does not fit calls the handler of invalid parameters. -/
  | invalidParameter
deriving DecidableEq, Repr

/-- `MAX_IP_ADDR_LEN`. -/
def maxIpAddrLen : ℕ := 16

/-- `ip_address_t`: the string fits, with its `NUL`. -/
structure IpAddress where
  ip : Bytes
  port : UInt16
  length_lt : ip.length < maxIpAddrLen
deriving DecidableEq

/-- `config_t`. -/
structure Config where
  connectionIn : IpAddress
  connectionOut : IpAddress
  logInfo : Bool
  logDebug : Bool
  logError : Bool
deriving DecidableEq

/-- The bytes of a string of the source. -/
def ascii (s : String) : Bytes := s.toList.map fun c => UInt8.ofNat c.toNat

/-- `global_config`, as it is initialised. -/
def globalConfig : Config where
  connectionIn := ⟨ascii "localhost", 27014, by decide⟩
  connectionOut := ⟨ascii "localhost", 27015, by decide⟩
  logInfo := false
  logDebug := true
  logError := false

/-! ## Strings -/

/-- White space: the blank, and the bytes 9 to 13. -/
def isSpace (ch : UInt8) : Bool := ch = 32 || 9 ≤ ch && ch ≤ 13

def isspace (ch : UInt8) : Except Failure Bool :=
  if charValue ch < eof then .error .isspace else .ok (isSpace ch)

/-- Where the token first is in a string. -/
def strstr (token : Bytes) : Bytes → Option ℕ
  | [] => if token = [] then some 0 else none
  | ch :: s => if token <+: ch :: s then some 0 else (strstr token s).map (· + 1)

/-- `split`: the key and the value. -/
def split (pair delimToken : Bytes) : Option (Bytes × Bytes) :=
  match strstr delimToken pair with
  | none => none
  | some keyLen =>
    let valueLen := pair.length - delimToken.length - keyLen
    some (pair.take keyLen, (pair.drop (keyLen + delimToken.length)).take valueLen)

/-- The first loop of `trim_ws`. -/
def trimFront : Bytes → Except Failure Bytes
  | [] => .ok []
  | ch :: s => do
    if ← isspace ch then trimFront s else .ok (ch :: s)

/-- The second loop of `trim_ws`, of the string from its end: it does not come to the first byte. -/
def trimBack : Bytes → Except Failure Bytes
  | ch :: ch' :: s => do
    if ← isspace ch then trimBack (ch' :: s) else .ok (ch :: ch' :: s)
  | s => .ok s

/-- `trim_ws`. -/
def trimWs (str : Bytes) : Except Failure Bytes := do
  let str ← trimFront str
  let str ← trimBack str.reverse
  .ok str.reverse

def isDigit (ch : UInt8) : Bool := 48 ≤ ch && ch ≤ 57

/-- The number of the digits that a string starts with. -/
def leadingNumber (s : Bytes) : ℕ :=
  (s.takeWhile isDigit).foldl (fun n ch => 10 * n + (ch.toNat - 48)) 0

/-- `atoi`, which gives the nearest `int` where the number is none. -/
def atoi (s : Bytes) : ℤ :=
  match s.dropWhile isSpace with
  | 45 :: s => max (-leadingNumber s) (-intMax - 1)
  | 43 :: s => min (leadingNumber s) intMax
  | s => min (leadingNumber s) intMax

/-! ## Lines -/

def eqToken : Bytes := ascii "="

def colToken : Bytes := ascii ":"

/-- `LOG_INFO`. -/
def keyLogInfo : Bytes := ascii "LOG_INFO"

/-- `LOG_DEBUG`. -/
def keyLogDebug : Bytes := ascii "LOG_DEBUG"

/-- `LOG_ERROR`. -/
def keyLogError : Bytes := ascii "LOG_ERROR"

/-- `CONN_IN`. -/
def keyConnIn : Bytes := ascii "CONNECTION_IN"

/-- `CONN_OUT`. -/
def keyConnOut : Bytes := ascii "CONNECTION_OUT"

/-- `STR(TRUE)`. -/
def strTrue : Bytes := ascii "TRUE"

/-- `strcpy_s` into `ip`, and the port. -/
def IpAddress.set (ip : Bytes) (port : ℤ) : Except Failure IpAddress :=
  if h : ip.length < maxIpAddrLen then .ok ⟨ip, UInt16.ofNat (port % 65536).toNat, h⟩
  else .error .invalidParameter

/-- `read_ip_address`. -/
def readIpAddress (input : Bytes) (ipAddress : IpAddress) : Except Failure IpAddress :=
  match split input colToken with
  | some (ip, port) => do
    let ipTrimmed ← trimWs ip
    let portTrimmed ← trimWs port
    IpAddress.set ipTrimmed (atoi portTrimmed)
  | none => .ok ipAddress

/-- The tests of `read_config_line` for the flags. -/
def setFlags (config : Config) (keyTrimmed valueTrimmed : Bytes) : Config :=
  let config := if keyTrimmed = keyLogInfo then
    { config with logInfo := decide (valueTrimmed = strTrue) } else config
  let config := if keyTrimmed = keyLogDebug then
    { config with logDebug := decide (valueTrimmed = strTrue) } else config
  if keyTrimmed = keyLogError then { config with logError := decide (valueTrimmed = strTrue) }
  else config

/-- `read_config_line`. -/
def readConfigLine (config : Config) (line : Bytes) : Except Failure Config :=
  match split line eqToken with
  | some (key, value) => do
    let keyTrimmed ← trimWs key
    let valueTrimmed ← trimWs value
    let config := setFlags config keyTrimmed valueTrimmed
    let config ← if keyTrimmed = keyConnIn then do
        let address ← readIpAddress valueTrimmed config.connectionIn
        .ok { config with connectionIn := address }
      else .ok config
    if keyTrimmed = keyConnOut then do
      let address ← readIpAddress valueTrimmed config.connectionOut
      .ok { config with connectionOut := address }
    else .ok config
  | none => .ok config

/-- The loop of `read_config`. -/
def readSettings (config : Config) (file : File) : Except Failure Config :=
  if _hfile : file.atEof then .ok config
  else
    match _hline : readLine file with
    | .error e => .error (.reading e)
    | .ok (line, file') => do
      let config ← readConfigLine config line
      readSettings config file'
termination_by file.left
decreasing_by exact readLine_left (Bool.eq_false_iff.2 _hfile) _hline

end Muxer.Settings

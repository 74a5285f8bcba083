import Hyunjin.Conf.Optionlist
import Hyunjin.Net.Uue
import Hyunjin.Run.Loops

/-!
# Reading from a connection

`netconnRead` reads what is asked for, and if that looks like HTTP or UUE it goes on to read and
decode until there is a packet. The peer is a list of chunks: what arrives at a time, or an error;
when there are no more, reads time out. `none` is an access out of range, or the fuel being out.

What is outside of the code comes as a `NetHost`: whether a spool can be made large enough, and what
a name resolves to.
-/

namespace Hyunjin.Net

/-! ## Connections -/

/-- Whether there is memory for so many more bytes behind what a spool holds, and the address of a
name. -/
structure NetHost where
  reserve : List U8 → ℕ → Bool
  resolve : List U8 → Option U32

/-- A host with memory enough. -/
def plainHost : NetHost where
  reserve _ _ := true
  resolve _ := none

/-- What arrives. -/
inductive Chunk
  | bytes (data : List U8)
  | error
  deriving DecidableEq

/-- `net_read` of up to `n` bytes: an error, or what has been read, which is nothing if the time is
out. -/
def netRead (n : ℕ) : List Chunk → Option (List U8) × List Chunk
  | [] => (some [], [])
  | .error :: peer => (none, peer)
  | .bytes data :: peer =>
    if data.length ≤ n then (some data, peer)
    else (some (data.take n), .bytes (data.drop n) :: peer)

/-- The fields of a connection that are read or written. A spool is what it holds. -/
structure Netstate where
  modeHttp : Bool
  modeUue : Bool
  netbuffer : List U8
  svcHostaddr : U32
  svcHostaddrFull : Option (List U8)
  connectionClosed : Bool
  deriving DecidableEq

/-- A connection that has not been used. -/
def newNet : Netstate where
  modeHttp := false
  modeUue := false
  netbuffer := []
  svcHostaddr := 0#32
  svcHostaddrFull := none
  connectionClosed := false

/-- The variables of the loop that decodes. -/
structure Decode where
  net : Netstate
  readMode : ReadMode
  decodebuffer : List U8
  contentLength : U32
  modedetPending : Bool
  httpClose : Bool
  needClose : Bool
  gotfullpacket : Bool
  deriving DecidableEq

namespace Decode

/-- `netspool_pophead` -/
def pophead (d : Decode) (skip : ℕ) : Decode := { d with decodebuffer := d.decodebuffer.drop skip }

def fail (d : Decode) : Decode := { d with needClose := true }

def done (d : Decode) : Bool := d.needClose || d.gotfullpacket

/-! ## HTTP -/

/-- `sizeof(lcbuf)` -/
def LCBUF : ℕ := 64

/-- `http/1.` -/
def HTTP1_DOT : List U8 := HTTP1_LOWER ++ [46#8]

/-- `content-length: ` -/
def CONTENT_LENGTH : List U8 :=
  [99#8, 111#8, 110#8, 116#8, 101#8, 110#8, 116#8, 45#8, 108#8, 101#8, 110#8, 103#8, 116#8,
    104#8, 58#8, 32#8]

/-- `x-keyserver: ` -/
def X_KEYSERVER : List U8 :=
  [120#8, 45#8, 107#8, 101#8, 121#8, 115#8, 101#8, 114#8, 118#8, 101#8, 114#8, 58#8, 32#8]

/-- `connection: close` -/
def CONNECTION_CLOSE : List U8 :=
  [99#8, 111#8, 110#8, 110#8, 101#8, 99#8, 116#8, 105#8, 111#8, 110#8, 58#8, 32#8, 99#8, 108#8,
    111#8, 115#8, 101#8]

/-- The status of a line that begins with `http/1.` -/
def httpStatus (line : List U8) : ℤ :=
  (Conf.atoi (((line.drop 7).dropWhile (· ≠ SPACE)).dropWhile (· = SPACE))).toInt

/-- The address that the keyserver tells, if none is known. -/
def keyserver (host : NetHost) (name : List U8) (net : Netstate) : Netstate :=
  if net.svcHostaddr = 0#32 ∧ net.svcHostaddrFull = none then
    match host.resolve name with
    | some newaddr => { net with svcHostaddr := newaddr }
    | none => { net with svcHostaddrFull := some name }
  else net

/-- A line of the header, and whether another one is looked at. -/
def httpLine (host : NetHost) (d : Decode) : Decode × Bool :=
  match peekNetline d.decodebuffer with
  | .unended => (d, false)
  | .binary => (d.fail, false)
  | .line linelen skip =>
    let lcbuf := lineBuffer d.decodebuffer linelen LCBUF
    if linelen < 1 then
      ({ d.pophead skip with
          readMode := .raw
          modedetPending := true
          needClose := d.needClose || d.contentLength = 0#32 }, false)
    else if HTTP1_DOT <+: lcbuf then
      let status := httpStatus (d.decodebuffer.take linelen)
      if status < 200 ∨ 300 ≤ status then
        ({ d.fail with
            decodebuffer := d.decodebuffer.set linelen 0#8
            net := { d.net with svcHostaddr := 0#32 } }, false)
      else (d.pophead skip, true)
    else if CONTENT_LENGTH <+: lcbuf then
      ({ d.pophead skip with contentLength := Conf.atoi (lcbuf.drop CONTENT_LENGTH.length) }, true)
    else if X_KEYSERVER <+: lcbuf then
      ({ d.pophead skip with net := keyserver host (lcbuf.drop X_KEYSERVER.length) d.net }, true)
    else if CONNECTION_CLOSE <+: lcbuf then ({ d.pophead skip with httpClose := true }, true)
    else (d.pophead skip, true)

/-! ## UUE -/

/-- The size of the copy of a line that UUE is decoded by. -/
def UUE_LCBUF : ℕ := 10

/-- A line of UUE, and whether another one is looked at. -/
def uueLine (host : NetHost) (d : Decode) : Option (Decode × Bool) :=
  match peekNetline d.decodebuffer with
  | .unended => some (d, false)
  | .binary => some (d.fail, false)
  | .line linelen skip =>
    let lcbuf := lineBuffer d.decodebuffer linelen UUE_LCBUF
    if END <+: lcbuf then some ({ d with gotfullpacket := true }, false)
    else if 1 < linelen ∧ ¬BEGIN <+: lcbuf then
      let n := (uuDec (d.decodebuffer.headD 0#8)).toNat
      if linelen < uuLen n then some (d.fail, false)
      else (uuDecodeLine d.decodebuffer.length n d.decodebuffer).map fun mem ↦
        let d := { d with decodebuffer := mem }
        if host.reserve d.net.netbuffer n then
          ({ d.pophead skip with
              net := { d.net with netbuffer := d.net.netbuffer ++ mem.take n } }, true)
        else (d.fail, false)
    else some (d.pophead skip, true)

/-! ## The loop -/

/-- The lines that have come. -/
def linesLoop (line : Decode → Option (Decode × Bool)) : ℕ → Decode → Option Decode
  | 0, _ => none
  | fuel + 1, d => (line d).bind fun (d, more) ↦ if more then linesLoop line fuel d else some d

/-- Data that is not encoded. -/
def rawData (host : NetHost) (d : Decode) : Decode :=
  if d.modedetPending then d
  else if host.reserve d.net.netbuffer d.decodebuffer.length then
    let netbuffer := d.net.netbuffer ++ d.decodebuffer
    { d with
      net := { d.net with netbuffer := netbuffer }
      decodebuffer := []
      gotfullpacket := d.gotfullpacket || d.contentLength.toNat ≤ netbuffer.length }
  else d.fail

/-- What follows a header is looked at. -/
def detect (d : Decode) : Decode :=
  if d.modedetPending then
    if d.contentLength.toNat < 6 then { d with readMode := .raw, modedetPending := false }
    else
      match autoSenseHttpUue d.decodebuffer with
      | some mode => { d with readMode := mode, modedetPending := false }
      | none => d
  else d

/-- What has come is decoded. There are at most as many lines as there are characters. -/
def decode (host : NetHost) (d : Decode) : Option Decode :=
  let d := d.detect
  match d.readMode with
  | .http => linesLoop (fun d ↦ some (httpLine host d)) (d.decodebuffer.length + 1)
      { d with net := { d.net with modeHttp := true } }
  | .uue => linesLoop (uueLine host) (d.decodebuffer.length + 1)
      { d with net := { d.net with modeUue := true } }
  | .raw => some (rawData host d)

/-- How much is to be read. -/
def request (d : Decode) : ℕ :=
  if d.contentLength = 0#32 then 500 else d.contentLength.toNat - d.decodebuffer.length

/-- More is read. -/
def readMore (host : NetHost) (d : Decode) (peer : List Chunk) : Decode × List Chunk :=
  if d.request = 0 then (d, peer)
  else if host.reserve d.decodebuffer d.request then
    match netRead d.request peer with
    | (some (c :: data), peer) => ({ d with decodebuffer := d.decodebuffer ++ c :: data }, peer)
    | (_, peer) => (d.fail, peer)
  else (d.fail, peer)

/-- A round of the loop. -/
def round (host : NetHost) (s : Decode × List Chunk) : Option (Decode × List Chunk) :=
  (decode host s.1).map fun d ↦ if d.done then (d, s.2) else readMore host d s.2

/-- The loop that decodes. -/
def loop (host : NetHost) (fuel : ℕ) (s : Decode × List Chunk) : Option (Decode × List Chunk) :=
  Run.whileLoop (fun s ↦ s.1.done) (round host) fuel s

end Decode

/-! ## Reading -/

/-- What is asked for is read, unless an error or a timeout comes before. There are at most as many
reads as there are bytes. -/
def readLoop : ℕ → ℕ → List Chunk → List U8 × List Chunk
  | 0, _, peer => ([], peer)
  | fuel + 1, want, peer =>
    if want = 0 then ([], peer)
    else
      match netRead want peer with
      | (some (c :: data), peer) =>
        let (rest, peer) := readLoop fuel (want - (data.length + 1)) peer
        (c :: data ++ rest, peer)
      | (_, peer) => ([], peer)

/-- The mode that what has been read is in. -/
def initialMode (net : Netstate) (data : List U8) : ReadMode :=
  (autoSenseHttpUue data).getD
    (if net.modeHttp then .http else if net.modeUue then .uue else .raw)

/-- The loop is entered with what has been read. -/
def enter (host : NetHost) (net : Netstate) (mode : ReadMode) (data : List U8) : Decode where
  net := net
  readMode := mode
  decodebuffer := if host.reserve [] data.length then data else []
  contentLength := 0#32
  modedetPending := false
  httpClose := false
  needClose := !host.reserve [] data.length
  gotfullpacket := false

/-- What follows the loop. The bytes that are not asked for stay where they are, and those at the
head of the buffer are kept. -/
def leave (numRequested : ℕ) (d : Decode) : Netstate × List U8 :=
  let totalRead := min d.net.netbuffer.length numRequested
  let net := { d.net with
    netbuffer := d.net.netbuffer.take (d.net.netbuffer.length - totalRead)
    connectionClosed := d.net.connectionClosed || d.needClose || d.httpClose }
  (net, d.net.netbuffer.take totalRead)

/-- What is returned without decoding, or the state that the loop is entered with. -/
def netconnStart (host : NetHost) (net : Netstate) (numRequested : ℤ) (peer : List Chunk) :
    (Netstate × List U8) × List Chunk ⊕ Decode × List Chunk :=
  if numRequested ≤ 0 then .inl ((net, []), peer)
  else if numRequested.toNat ≤ net.netbuffer.length then
    .inl (({ net with netbuffer := net.netbuffer.drop numRequested.toNat },
      net.netbuffer.take numRequested.toNat), peer)
  else
    let (data, peer) := readLoop numRequested.toNat numRequested.toNat peer
    if data.length < numRequested.toNat then .inl ((net, data), peer)
    else
      match initialMode net data with
      | .raw => .inl ((net, data), peer)
      | mode => .inr (enter host net mode data, peer)

/-- The connection and the data that is returned. -/
def netconnRead (host : NetHost) (fuel : ℕ) (net : Netstate) (numRequested : ℤ)
    (peer : List Chunk) : Option ((Netstate × List U8) × List Chunk) :=
  match netconnStart host net numRequested peer with
  | .inl r => some r
  | .inr s => (Decode.loop host fuel s).map fun (d, peer) ↦ (leave numRequested.toNat d, peer)

end Hyunjin.Net

import Hyunjin.Conf.Optionlist
import Hyunjin.Net.Netline
import Hyunjin.Word.Strings

/-!
# Hosts and a port

The keyserver is written into the ini file as a list of hosts, with `*:port` in front of them if
there is a port for all. It is read into a buffer `hostbuf` host by host, and each host is put
behind the others in the buffer of the caller. `none` is an access out of range. Pointers are not
null, and what is read from the ini file is what has been written, cut to the size of the buffer it
goes to.
-/

namespace Hyunjin.Conf

open Memory
open Net (tolower)

/-- `char buffer[128]`, `char hostbuf[sizeof(buffer)]` -/
def BUFFER : ℕ := 128

def ASTERISK : U8 := 42#8

def LBRACKET : U8 := 91#8

def RBRACKET : U8 := 93#8

/-- `auto` -/
def AUTO : List U8 := [97#8, 117#8, 116#8, 111#8]

/-- `.v27.distributed.net` -/
def V27 : List U8 :=
  [46#8, 118#8, 50#8, 55#8, 46#8, 100#8, 105#8, 115#8, 116#8, 114#8, 105#8, 98#8, 117#8, 116#8,
    101#8, 100#8, 46#8, 110#8, 101#8, 116#8]

/-! ## Writing -/

/-- The port that is written; 0 if there is none. -/
def portWritten (port : ℤ) : ℕ := if port < 0 ∨ 0xffff < port then 0 else port.toNat

/-- `sprintf(hostbuf, "*:%d;", foundport)` -/
def portText (port : ℕ) : List U8 :=
  if port ≠ 0 then ASTERISK :: COLON :: (decimal port ++ [SEMICOLON]) else []

/-- The hosts behind the `len` characters of the buffer, without blanks. -/
def writeLoop (multiple : Bool) : List U8 → List U8 → ℕ → Option (List U8 × ℕ)
  | [], hostbuf, len => some (hostbuf, len)
  | c :: hostname, hostbuf, len =>
    if BUFFER - 1 ≤ len then some (hostbuf, len)
    else if c = COMMA ∨ c = SEMICOLON then
      if multiple then
        (store hostbuf len SEMICOLON).bind fun hostbuf ↦
          writeLoop multiple hostname hostbuf (len + 1)
      else some (hostbuf, len)
    else if isspace c then
      if multiple then writeLoop multiple hostname hostbuf len else some (hostbuf, len)
    else
      (store hostbuf len c).bind fun hostbuf ↦ writeLoop multiple hostname hostbuf (len + 1)

/-- The entry of the ini file after it has been written. An empty one is not made. -/
def writeHostnameAndPort (multiple : Bool) (entry hostname : List U8) (port : ℤ)
    (hostbuf : List U8) : Option (List U8) := do
  let hostbuf ← strcpy hostbuf (portText (portWritten port))
  let (hostbuf, len) ← writeLoop multiple (hostname.dropWhile isspace) hostbuf
    (portText (portWritten port)).length
  let hostbuf ← store hostbuf len 0#8
  let text ← cstr hostbuf
  some (if text ≠ [] ∨ entry ≠ [] then text else entry)

/-! ## Reading -/

/-- What stands between hosts. -/
def isSeparator (c : U8) : Bool := isspace c || c == SEMICOLON || c == COMMA

/-- The next host is copied in lower case. What is behind it, the buffer and the length. -/
def copyHost : List U8 → List U8 → ℕ → Option (List U8 × List U8 × ℕ)
  | [], hostbuf, len => some ([], hostbuf, len)
  | c :: p, hostbuf, len =>
    if isSeparator c then some (c :: p, hostbuf, len)
    else (store hostbuf len (tolower c)).bind fun hostbuf ↦ copyHost p hostbuf (len + 1)

/-- Where a colon is looked for. After a bracket that opens a literal nothing more is looked at. -/
def colonPos : List U8 → ℕ
  | [] => 0
  | c :: s => if c = COLON then 0 else if c = LBRACKET then 1 else colonPos s + 1

/-- The port behind a colon; 0 if there is none. -/
def portOf (s : List U8) : ℕ :=
  if (atoi s).toInt ≤ 0 ∨ 0xffff ≤ (atoi s).toInt then 0 else (atoi s).toNat

/-- A port is cut off. The buffer, the length and the port. -/
def cutPort (hostbuf : List U8) (len : ℕ) : Option (List U8 × ℕ × ℕ) :=
  (cstr hostbuf).bind fun host ↦
    if host[colonPos host]? = some COLON then
      (store hostbuf (colonPos host) 0#8).map fun hostbuf ↦
        (hostbuf, colonPos host, portOf (host.drop (colonPos host + 1)))
    else some (hostbuf, len, 0)

/-- The name stands for no host: the port is for all. -/
def IsDefault (name : List U8) : Prop := name = [ASTERISK] ∨ name = AUTO

instance (name : List U8) : Decidable (IsDefault name) := inferInstanceAs (Decidable (_ ∨ _))

/-- `.v27.` proxy names are updated to `.v29.`. -/
def updateName (hostbuf : List U8) (len : ℕ) : Option (List U8) :=
  if 20 < len ∧ cstr (hostbuf.drop (len - 20)) = some V27 then store hostbuf (len - 17) 57#8
  else some hostbuf

/-- The port is put behind the host. -/
def putPort (hostbuf : List U8) (len port : ℕ) : Option (List U8) :=
  if port ≠ 0 then stores hostbuf len (COLON :: (decimal port ++ [0#8])) else some hostbuf

/-- The variables of the loop over the hosts. The hosts go to the place `used` of the caller's
buffer. -/
structure Hosts where
  hostbuf : List U8
  hostname : List U8
  used : ℕ
  hnamelen : ℕ
  hostcount : ℕ
  foundport : ℕ

/-- A semicolon behind the hosts, if there are any. -/
def Hosts.separate (r : Hosts) : Option Hosts :=
  if r.hostcount ≠ 0 then
    (store r.hostname r.used SEMICOLON).map fun hostname ↦
      { r with hostname := hostname, used := r.used + 1, hnamelen := r.hnamelen - 1 }
  else some r

/-- A host behind the others. -/
def Hosts.add (r : Hosts) (host : List U8) : Option Hosts :=
  r.separate.bind fun r ↦
    (stores r.hostname r.used (host ++ [0#8])).map fun hostname ↦
      { r with
        hostname := hostname
        used := r.used + host.length
        hnamelen := r.hnamelen - host.length
        hostcount := r.hostcount + 1 }

/-- A host and its port, and whether the loop goes on. -/
def Hosts.keep (multiple : Bool) (r : Hosts) (len port : ℕ) : Option (Hosts × Bool) := do
  let hostbuf ← updateName r.hostbuf len
  let hostbuf ← putPort hostbuf len port
  let host ← cstr hostbuf
  if r.hnamelen ≤ host.length + 3 then some ({ r with hostbuf := hostbuf }, false)
  else (({ r with hostbuf := hostbuf } : Hosts).add host).map fun r ↦ (r, multiple)

/-- The host in the buffer, and whether the loop goes on. -/
def Hosts.take (multiple : Bool) (r : Hosts) (len : ℕ) : Option (Hosts × Bool) := do
  let (hostbuf, len, port) ← cutPort r.hostbuf len
  let host ← cstr hostbuf
  if len = 0 then some ({ r with hostbuf := hostbuf }, true)
  else if IsDefault host then
    some ({ r with
      hostbuf := hostbuf
      foundport := if r.foundport = 0 then port else r.foundport }, true)
  else Hosts.keep multiple { r with hostbuf := hostbuf } len port

/-- The loop over the hosts. There are at most as many as there are characters. -/
def hostsLoop (multiple : Bool) : ℕ → List U8 → Hosts → Option Hosts
  | 0, _, _ => none
  | fuel + 1, p, r =>
    if p = [] then some r
    else do
      let (p, hostbuf, len) ← copyHost (p.dropWhile isSeparator) r.hostbuf 0
      let hostbuf ← store hostbuf len 0#8
      let (r, more) ← ({ r with hostbuf := hostbuf } : Hosts).take multiple len
      if more then hostsLoop multiple fuel p r else some r

/-- The hosts in the buffer of the caller, and the port. -/
def readHostnameAndPort (multiple : Bool) (entry hostname : List U8) (hnamelen : ℕ) (port : ℤ)
    (hostbuf : List U8) : Option (List U8 × ℤ) :=
  if hnamelen ≠ 0 ∧ entry ≠ [] then
    (hostsLoop multiple BUFFER (entry.take (BUFFER - 1)) ⟨hostbuf, hostname, 0, hnamelen, 0, 0⟩).map
      fun r ↦ (r.hostname, if r.foundport ≠ 0 then (r.foundport : ℤ) else port)
  else some (hostname, port)

end Hyunjin.Conf

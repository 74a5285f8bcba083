import Hyunjin.Word.Bytes
import Hyunjin.Word.Memory

/-!
# Base64

Mail is sent and read with `base64_encode` and `base64_decode`. Both write to a buffer whose length
they are told, and count what they have written in an `int`. Undefined behaviour is `none`: a store
outside of the buffer, a count that leaves the range of an `int`, and a look-up outside of the
256-entry table of the decoder, which is indexed with a plain, signed `char`.

`groups` is what encoding means: groups of three bytes become four characters of six bits each, and
the last group is padded. The encoder writes just that, and the decoder takes it back.
-/

namespace Hyunjin

open Memory

/-! ## Buffers -/

/-- A buffer of the caller and how much of it is written. -/
structure Outbuf where
  outbuf : List U8
  outlen : ℕ

/-- `outbuf[outlen + i] = b` -/
def Outbuf.put (o : Outbuf) (i : ℕ) (b : U8) : Option Outbuf :=
  (store o.outbuf (o.outlen + i) b).map fun m ↦ { o with outbuf := m }

/-- `outlen += n` -/
def Outbuf.advance (o : Outbuf) (n : ℕ) : Option Outbuf :=
  if o.outlen + n < 2 ^ 31 then some { o with outlen := o.outlen + n } else none

/-- `outbuf[outlen++] = b` -/
def Outbuf.push (o : Outbuf) (b : U8) : Option Outbuf := (o.put 0 b).bind (·.advance 1)

/-- What follows both loops: a NUL if there is room, and the length or an error. -/
def Outbuf.finish (o : Outbuf) (errors : Bool) : Option (ℤ × List U8) := do
  let o ← if o.outlen < o.outbuf.length then o.put 0 0#8 else some o
  some (if errors then -1 else o.outlen, o.outbuf)

/-! ## Encoding -/

def base64table : List U8 :=
  ['A', 'B', 'C', 'D', 'E', 'F', 'G', 'H', 'I', 'J', 'K', 'L', 'M', 'N', 'O', 'P', 'Q', 'R', 'S',
    'T', 'U', 'V', 'W', 'X', 'Y', 'Z', 'a', 'b', 'c', 'd', 'e', 'f', 'g', 'h', 'i', 'j', 'k', 'l',
    'm', 'n', 'o', 'p', 'q', 'r', 's', 't', 'u', 'v', 'w', 'x', 'y', 'z', '0', '1', '2', '3', '4',
    '5', '6', '7', '8', '9', '+', '/'].map fun c ↦ BitVec.ofNat 8 c.toNat

/-- The character `=`. -/
def PAD : U8 := 61#8

/-- A plain `char` in an expression is a signed integer. -/
def promote (c : U8) : U32 := c.signExtend 32

/-- `B64_ENC` -/
def b64Enc (ch : U32) : U8 := base64table.getD (ch.setWidth 8 &&& 63#8).toNat 0#8

/-- The four characters of a group of three bytes. -/
def encChars (c₀ c₁ c₂ : U8) : U8 × U8 × U8 × U8 :=
  (b64Enc ((promote c₀).sshiftRight 2),
    b64Enc ((promote c₀ <<< 4 &&& 0o60#32) ||| ((promote c₁).sshiftRight 4 &&& 0o17#32)),
    b64Enc ((promote c₁ <<< 2 &&& 0o74#32) ||| ((promote c₂).sshiftRight 6 &&& 0o3#32)),
    b64Enc (promote c₂ &&& 0o77#32))

def base64EncodeLoop : List U8 → Outbuf → Option Outbuf
  | c₀ :: c₁ :: c₂ :: inbuf, o => do
    let (e₀, e₁, e₂, e₃) := encChars c₀ c₁ c₂
    let o ← o.put 0 e₀
    let o ← o.put 1 e₁
    let o ← o.put 2 e₂
    let o ← o.put 3 e₃
    let o ← o.advance 4
    base64EncodeLoop inbuf o
  | [c₀, c₁], o => do
    let o ← o.put 0 (b64Enc ((promote c₀).sshiftRight 2))
    let o ← o.put 1
      (b64Enc ((promote c₀ <<< 4 &&& 0o60#32) ||| ((promote c₁).sshiftRight 4 &&& 0o17#32)))
    let o ← o.put 2 (b64Enc (promote c₁ <<< 2 &&& 0o74#32))
    let o ← o.put 3 PAD
    let o ← o.advance 4
    some o
  | [c₀], o => do
    let o ← o.put 0 (b64Enc ((promote c₀).sshiftRight 2))
    let o ← o.put 1 (b64Enc (promote c₀ <<< 4 &&& 0o60#32))
    let o ← o.put 2 PAD
    let o ← o.put 3 PAD
    let o ← o.advance 4
    some o
  | [], o => some o

def base64Encode (outbuf inbuf : List U8) : Option (ℤ × List U8) :=
  let outbuflen : U32 := BitVec.ofNat 32 outbuf.length
  let inbuflen : U32 := BitVec.ofNat 32 inbuf.length
  if outbuflen < ((inbuflen + 2#32) / 3#32) * 4#32 then Outbuf.finish ⟨outbuf, 0⟩ true
  else (base64EncodeLoop inbuf ⟨outbuf, 0⟩).bind (·.finish false)

/-! ## Decoding -/

/-- The table of the decoder: one more than the six bits of a character, zero for the others. -/
def decoder : List ℕ :=
  (List.range 64).reverse.foldl (fun t c ↦ t.set (base64table.getD c 0#8).toNat (c + 1))
    (List.replicate 256 0)

/-- `decoder[c]` for a signed index. -/
def decoderAt (c : ℤ) : Option ℕ := if 0 ≤ c then decoder[c.toNat]? else none

/-- What the loop of `base64_decode` carries on. -/
structure Decoding where
  bits : U32
  charCount : ℕ
  out : Outbuf

/-- The room that is left in the buffer. -/
def Decoding.room (d : Decoding) : ℕ := d.out.outbuf.length - d.out.outlen

/-- The end at a pad; the flag says that there was an error. -/
def Decoding.pad (d : Decoding) : Option (Outbuf × Bool) :=
  if d.charCount = 1 then some (d.out, true)
  else if d.charCount = 2 then
    if d.room < 1 then some (d.out, true)
    else do
      let o ← d.out.push ((d.bits >>> 10).setWidth 8)
      some (o, false)
  else if d.charCount = 3 then
    if d.room < 2 then some (d.out, true)
    else do
      let o ← d.out.push ((d.bits >>> 16).setWidth 8)
      let o ← o.push ((d.bits >>> 8).setWidth 8)
      some (o, false)
  else some (d.out, false)

/-- The loop of `base64_decode`, one character after another. -/
def base64DecodeLoop : List U8 → Decoding → Option (Outbuf × Bool)
  | [], d => some (d.out, d.charCount ≠ 0)
  | c :: inbuf, d =>
    if c = PAD then d.pad
    else do
      -- the test against the size of the table holds of every `char`
      let v ← decoderAt c.toInt
      if v = 0 then base64DecodeLoop inbuf d
      else
        let bits := d.bits + BitVec.ofNat 32 (v - 1)
        if d.charCount + 1 < 4 then
          base64DecodeLoop inbuf { d with bits := bits <<< 6, charCount := d.charCount + 1 }
        else if d.room < 3 then some (d.out, true)
        else
          let o ← d.out.push ((bits >>> 16).setWidth 8)
          let o ← o.push ((bits >>> 8).setWidth 8)
          let o ← o.push (bits.setWidth 8)
          base64DecodeLoop inbuf { bits := 0#32, charCount := 0, out := o }

def base64Decode (outbuf inbuf : List U8) : Option (ℤ × List U8) := do
  let (o, errors) ← base64DecodeLoop inbuf { bits := 0#32, charCount := 0, out := ⟨outbuf, 0⟩ }
  o.finish errors

end Hyunjin

import Hyunjin.Word.Bytes
import Hyunjin.Word.Stream

/-!
# The Moo packet codec

A Moo packet is a 168-byte record body under a running-key cipher, a ciphered checksum of the body,
and the key seed in the clear. `moo521Encode` ciphers 43 dwords, the checksum being the last of
them; `moo521Decode` deciphers the 42 of the body and leaves the checksum alone.

Both are read through `encode_words` and `decode_words`, which say what they do to the 42 words of a
body and the two trailing words of a packet.
-/

namespace Hyunjin

open Word Keystream

def MOO521_RECLEN : ℕ := 176

def MOO521_HEADERLEN : ℕ := 32

def MOO521_CKSEED : U32 := 0xB7E15163#32

def MOO521_CKQ : U32 := 0x61C88647#32

def MOO521_Q : U32 := 0x61C88647#32

def MOO521_DELTA : U32 := 0x481EAE9D#32

/-- A record body as stored in a packet. -/
abbrev Body := Bytes 168

/-- A packet as stored in a file. -/
abbrev Packet := Bytes 176

/-! ## Checksum and cipher -/

def checksumStep (edi w : U32) : U32 := (byteSwap w ^^^ edi) - MOO521_CKQ

/-- Eight passes over the dwords of a body. -/
def moo521Checksum (rec168 : Body) : U32 :=
  (fun edi ↦ (leWords rec168.val).foldl checksumStep edi)^[8] MOO521_CKSEED

def decodeWord (K x : U32) : U32 := byteSwap (~~~(byteSwap x + MOO521_Q) ^^^ K)

def encodeWord (K x : U32) : U32 := byteSwap (~~~(byteSwap x ^^^ K) - MOO521_Q)

def keyStep (K : U32) : U32 := K - MOO521_DELTA

theorem decodeWord_encodeWord (K x : U32) : decodeWord K (encodeWord K x) = x := by
  rw [decodeWord, encodeWord, byteSwap_byteSwap, BitVec.sub_add_cancel, BitVec.not_not,
    BitVec.xor_assoc, BitVec.xor_self, BitVec.xor_zero, byteSwap_byteSwap]

theorem encodeWord_decodeWord (K x : U32) : encodeWord K (decodeWord K x) = x := by
  rw [decodeWord, encodeWord, byteSwap_byteSwap, BitVec.xor_assoc, BitVec.xor_self,
    BitVec.xor_zero, BitVec.not_not, BitVec.add_sub_cancel, byteSwap_byteSwap]

theorem iterate_keyStep (n : ℕ) (K : U32) :
    keyStep^[n] K = K - BitVec.ofNat 32 n * MOO521_DELTA := by
  induction n with
  | zero => simp
  | succ n ih =>
    rw [Function.iterate_succ_apply', ih, keyStep, BitVec.ofNat_add]
    grind

/-! ## Packets -/

def moo521Decode (packet176 : Packet) : Body :=
  let seed := byteSwap (leLoad (packet176.val.drop 172))
  ⟨ofLEWords (keyed decodeWord keyStep seed (leWords (packet176.val.take 168))), by
    simp [length_leWords, packet176.property]⟩

def moo521Encode (rec168 : Body) (seed : U32) : Packet :=
  let window := rec168.val ++ leBytes (byteSwap (moo521Checksum rec168))
  ⟨ofLEWords (keyed encodeWord keyStep seed (leWords window)) ++ leBytes (byteSwap seed), by
    simp [length_leWords, rec168.property, window]⟩

/-- A body is 42 words. -/
theorem Body.exists_words (body : Body) : ∃ ws : List U32, ws.length = 42 ∧
    body.val = ofLEWords ws := by
  refine ⟨leWords body.val, ?_, (ofLEWords_leWords _ ?_).symm⟩ <;>
    simp [length_leWords, body.property]

/-- A packet is the 42 words of a body, the checksum word and the seed word. -/
theorem Packet.exists_words (p : Packet) : ∃ (ws : List U32) (ck trailer : U32), ws.length = 42 ∧
    p.val = ofLEWords ws ++ (leBytes ck ++ leBytes trailer) := by
  have hlen : (leWords p.val).length = 44 := by simp [length_leWords, p.property]
  have hwords : ofLEWords (leWords p.val) = p.val := ofLEWords_leWords _ (by simp [p.property])
  refine ⟨(leWords p.val).take 42, (leWords p.val)[42], (leWords p.val)[43], by simp [hlen], ?_⟩
  have hsplit : leWords p.val
      = (leWords p.val).take 42 ++ [(leWords p.val)[42], (leWords p.val)[43]] := by
    conv_lhs => rw [← List.take_append_drop 42 (leWords p.val)]
    rw [List.drop_eq_getElem_cons (by omega), List.drop_eq_getElem_cons (by omega),
      List.drop_of_length_le (by omega)]
  conv_lhs => rw [← hwords, hsplit]
  simp

theorem encode_words {body : Body} {ws : List U32} (hlen : ws.length = 42)
    (hws : body.val = ofLEWords ws) (seed : U32) :
    (moo521Encode body seed).val = ofLEWords (keyed encodeWord keyStep seed ws) ++
      (leBytes (encodeWord (keyStep^[42] seed) (byteSwap (moo521Checksum body))) ++
        leBytes (byteSwap seed)) := by
  have hwindow : leWords (body.val ++ leBytes (byteSwap (moo521Checksum body)))
      = ws ++ [byteSwap (moo521Checksum body)] := by
    rw [hws, ← leWords_ofLEWords (ws ++ _), ofLEWords_append, ofLEWords_cons, ofLEWords_nil,
      List.append_nil]
  rw [moo521Encode]
  simp only [hwindow, keyed_append, hlen, keyed_cons, keyed_nil, ofLEWords_append, ofLEWords_cons,
    ofLEWords_nil, List.append_nil, List.append_assoc]

theorem decode_words {p : Packet} {ws : List U32} {ck trailer : U32} (hlen : ws.length = 42)
    (hp : p.val = ofLEWords ws ++ (leBytes ck ++ leBytes trailer)) :
    (moo521Decode p).val = ofLEWords (keyed decodeWord keyStep (byteSwap trailer) ws) := by
  have hbytes : (ofLEWords ws).length = 168 := by simp [hlen]
  have htail : p.val.drop 172 = leBytes trailer := by
    rw [hp, ← List.append_assoc, List.drop_left' (by simp [hlen])]
  have hhead : p.val.take 168 = ofLEWords ws := by rw [hp, List.take_left' hbytes]
  have htrailer : leLoad (leBytes trailer) = trailer := by simpa using leLoad_leBytes trailer []
  rw [moo521Decode]
  simp only [htail, hhead, htrailer, leWords_ofLEWords]

/-! ## Round trips -/

/-- Dword `i` of a byte string. -/
def dword (bs : List U8) (i : ℕ) : U32 := leLoad (bs.drop (4 * i))

theorem dword_append {ws : List U32} {n : ℕ} (hn : ws.length = n) (x : U32) (rest : List U8) :
    dword (ofLEWords ws ++ (leBytes x ++ rest)) n = x := by
  rw [dword, List.drop_left' (by rw [length_ofLEWords, hn]), leLoad_leBytes]

theorem moo521Decode_encode (body : Body) (seed : U32) :
    moo521Decode (moo521Encode body seed) = body := by
  obtain ⟨ws, hlen, hws⟩ := body.exists_words
  refine Subtype.ext ?_
  rw [decode_words (by simp [hlen]) (encode_words hlen hws seed), byteSwap_byteSwap,
    keyed_keyed decodeWord_encodeWord, hws]

theorem trailer_encode (body : Body) (seed : U32) :
    beLoad ((moo521Encode body seed).val.drop 172) = seed := by
  obtain ⟨ws, hlen, hws⟩ := body.exists_words
  have htail : (moo521Encode body seed).val.drop 172 = leBytes (byteSwap seed) := by
    rw [encode_words hlen hws, ← List.append_assoc, List.drop_left' (by simp [hlen])]
  rw [htail, beLoad_eq, ← List.append_nil (leBytes _), leLoad_leBytes, byteSwap_byteSwap]

theorem checkDword_encode (body : Body) (seed : U32) :
    decodeWord (seed - 42#32 * MOO521_DELTA) (dword (moo521Encode body seed).val 42)
      = byteSwap (moo521Checksum body) := by
  obtain ⟨ws, hlen, hws⟩ := body.exists_words
  rw [encode_words hlen hws, dword_append (by simp [hlen]), iterate_keyStep]
  exact decodeWord_encodeWord _ _

/-- Re-encoding what was decoded, under the packet's own seed, restores all but the check dword. -/
theorem encode_decode_words {p : Packet} {ws : List U32} {ck trailer : U32}
    (hlen : ws.length = 42) (hp : p.val = ofLEWords ws ++ (leBytes ck ++ leBytes trailer)) :
    (moo521Encode (moo521Decode p) (byteSwap trailer)).val = ofLEWords ws ++
      (leBytes (encodeWord (keyStep^[42] (byteSwap trailer))
        (byteSwap (moo521Checksum (moo521Decode p)))) ++ leBytes trailer) := by
  rw [encode_words (by simp [hlen]) (decode_words hlen hp), byteSwap_byteSwap,
    keyed_keyed encodeWord_decodeWord]

/-- **The codec loses nothing.** Encoding then decoding returns the body, the trailer is the seed
and the check dword deciphers to the checksum. Decoding then encoding under the trailer's seed
returns the packet but for the check dword, and that one too exactly when it held the checksum. -/
theorem moo521_roundTrip :
    (∀ (body : Body) (seed : U32),
      moo521Decode (moo521Encode body seed) = body ∧
      beLoad ((moo521Encode body seed).val.drop 172) = seed ∧
      decodeWord (seed - 42#32 * MOO521_DELTA) (dword (moo521Encode body seed).val 42)
        = byteSwap (moo521Checksum body)) ∧
    ∀ p : Packet,
      let s := beLoad (p.val.drop 172)
      let q := moo521Encode (moo521Decode p) s
      q.val.take 168 = p.val.take 168 ∧ q.val.drop 172 = p.val.drop 172 ∧
      (q = p ↔ decodeWord (s - 42#32 * MOO521_DELTA) (dword p.val 42)
        = byteSwap (moo521Checksum (moo521Decode p))) := by
  refine ⟨fun body seed ↦ ⟨moo521Decode_encode body seed, trailer_encode body seed,
    checkDword_encode body seed⟩, fun p ↦ ?_⟩
  obtain ⟨ws, ck, trailer, hlen, hp⟩ := p.exists_words
  have hbytes : (ofLEWords ws).length = 168 := by simp [hlen]
  have htail : p.val.drop 172 = leBytes trailer := by
    rw [hp, ← List.append_assoc, List.drop_left' (by simp [hlen])]
  have hs : beLoad (p.val.drop 172) = byteSwap trailer := by
    rw [htail, beLoad_eq, ← List.append_nil (leBytes _), leLoad_leBytes]
  simp only [hs]
  have hq := encode_decode_words hlen hp
  set x := byteSwap (moo521Checksum (moo521Decode p))
  refine ⟨?_, ?_, ?_⟩
  · rw [hq, hp, List.take_left' hbytes, List.take_left' hbytes]
  · rw [htail, hq, ← List.append_assoc, List.drop_left' (by simp [hlen])]
  · have hck : dword p.val 42 = ck := by rw [hp, dword_append hlen]
    rw [Subtype.ext_iff, hq, hck, hp, List.append_cancel_left_eq, List.append_cancel_right_eq,
      leBytes_inj, iterate_keyStep]
    constructor
    · intro h
      rw [← h]
      exact decodeWord_encodeWord _ _
    · intro h
      rw [← h]
      exact encodeWord_decodeWord _ _

end Hyunjin

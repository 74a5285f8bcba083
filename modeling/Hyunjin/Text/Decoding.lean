import Hyunjin.Text.Groups

/-!
# Decoding arbitrary bytes

The decoder is given whatever a mail server sends. It skips what is not in its alphabet, ends at a
pad or at a group for which there is no room, and never writes outside of its buffer. It is undone
by a byte from 128 on: a plain `char` is negative there, and the test against the size of the table
does not keep it from being an index.

`SafeFrom` says of the input where this does not happen. What the decoder has done when it comes to
a byte is known from how many characters of the alphabet there were before, so the condition is
about every byte before the first pad, up to the group for which there is no room.
-/

namespace Hyunjin

open Memory

/-- A character for six bits. -/
def IsSym (c : U8) : Prop := c ∈ base64table

instance (c : U8) : Decidable (IsSym c) := inferInstanceAs (Decidable (_ ∈ _))

/-- What a byte adds to the count of characters. -/
def symCount (c : U8) : ℕ := if IsSym c then 1 else 0

/-- The characters for six bits in an input. -/
def syms (l : List U8) : ℕ := (l.map symCount).sum

/-- The bytes that are written when a byte is decoded after `k` characters. -/
def writtenAt (k : ℕ) (c : U8) : ℕ :=
  if c = PAD then 3 * (k / 4) + (k % 4 - 1) else 3 * ((k + symCount c) / 4)

/-- The table is not left, and what has room in the buffer can be counted in an `int`. -/
def SafeAt (n k : ℕ) (c : U8) : Prop :=
  c.toNat < 128 ∧ (writtenAt k c ≤ n → writtenAt k c < 2 ^ 31)

/-- Every byte that the decoder comes to is safe, with room for `n` bytes and after `k` characters:
it comes to those before which there is no pad and no group without room. -/
def SafeFrom (n k : ℕ) (l : List U8) : Prop :=
  ∀ pre c post, l = pre ++ c :: post → PAD ∉ pre → (k + syms pre) / 4 ≤ n / 3 →
    SafeAt n (k + syms pre) c

theorem safeFrom_nil (n k : ℕ) : SafeFrom n k [] := by
  intro pre c post h
  exact absurd h (by simp)

theorem safeFrom_cons {n k : ℕ} (hk : k / 4 ≤ n / 3) (c : U8) (l : List U8) :
    SafeFrom n k (c :: l) ↔ SafeAt n k c ∧
      (c ≠ PAD → (k + symCount c) / 4 ≤ n / 3 → SafeFrom n (k + symCount c) l) := by
  constructor
  · intro h
    refine ⟨h [] c l rfl (by simp) hk, fun hpad hroom pre c' post hl hpre hroom' ↦ ?_⟩
    have hsyms : k + syms (c :: pre) = k + symCount c + syms pre := by
      rw [syms, List.map_cons, List.sum_cons, syms, Nat.add_assoc]
    rw [← hsyms] at hroom' ⊢
    exact h (c :: pre) c' post (by rw [hl]; rfl) (by simp [hpre, Ne.symm hpad]) hroom'
  · rintro ⟨hc, hrest⟩ pre c' post hl hpre hroom
    cases pre with
    | nil =>
      obtain ⟨rfl, rfl⟩ := List.cons.inj hl
      exact hc
    | cons d pre =>
      obtain ⟨rfl, rfl⟩ := List.cons.inj hl
      rw [List.mem_cons, not_or] at hpre
      have hsyms : k + syms (c :: pre) = k + symCount c + syms pre := by
        rw [syms, List.map_cons, List.sum_cons, syms, Nat.add_assoc]
      rw [hsyms] at hroom ⊢
      refine hrest (Ne.symm hpre.1) ?_ pre c' post rfl hpre.2 hroom
      exact (Nat.div_le_div_right (Nat.le_add_right _ _)).trans hroom

/-! ## One byte -/

/-- The state after `k` characters, with room for `n` bytes. -/
structure Decoding.After (d : Decoding) (n k : ℕ) : Prop where
  charCount : d.charCount = k % 4
  wrote : ∃ xs, xs.length = 3 * (k / 4) ∧ d.out.Wrote n 0 xs
  fits : 3 * (k / 4) ≤ n
  int : 3 * (k / 4) < 2 ^ 31

/-- The decoder ends, with some bytes written. -/
def DecodeEnds (r : Option (Outbuf × Bool)) (n : ℕ) : Prop :=
  ∃ o errors xs, r = some (o, errors) ∧ o.Wrote n 0 xs

/-- The table has an entry for a `char` below 128 only, and it is not zero for the alphabet. -/
theorem decoderAt_eq : ∀ c : U8,
    if c.toNat < 128 then
      if IsSym c then ∃ v < 64, c = sym v else c ≠ PAD → decoderAt c.toInt = some 0
    else c ≠ PAD ∧ decoderAt c.toInt = none := by
  decide +kernel

variable {d : Decoding} {n k : ℕ}

theorem Decoding.After.room_eq (h : d.After n k) : d.room = n - 3 * (k / 4) := by
  obtain ⟨xs, hlen, hwrote⟩ := h.wrote
  have houtlen : d.out.outlen = xs.length := hwrote.outlen
  rw [room, hwrote.length, houtlen, hlen]

theorem Outbuf.Wrote.push_none {o : Outbuf} {xs : List U8} (h : o.Wrote n 0 xs) {b : U8}
    (hroom : xs.length < n) (hint : 2 ^ 31 ≤ xs.length + 1) : o.push b = none := by
  obtain ⟨o', hput, h'⟩ := h.put hroom b
  rw [Outbuf.push, hput, Option.bind_some]
  exact h'.advance_none (by rwa [List.length_append, List.length_singleton])

/-- Two bytes that cannot be counted, whatever is done with what is written then. -/
theorem Outbuf.Wrote.push_two_none {o : Outbuf} {xs : List U8} (h : o.Wrote n 0 xs) {b₀ b₁ : U8}
    (hroom : xs.length + 1 < n) (hint : 2 ^ 31 ≤ xs.length + 2) {β : Type} (f : Outbuf → Option β) :
    (do
      let o ← o.push b₀
      let o ← o.push b₁
      f o) = none := by
  rcases Nat.lt_or_ge (xs.length + 1) (2 ^ 31) with hlt | hge
  · obtain ⟨o', hpush, h'⟩ := h.push (by omega) hlt b₀
    rw [hpush, Option.bind_eq_bind, Option.bind_some,
      h'.push_none (by simp; omega) (by simp; omega)]
    rfl
  · rw [h.push_none (by omega) hge]
    rfl

/-- At a pad the decoder ends, unless what it writes cannot be counted. -/
theorem Decoding.After.pad (h : d.After n k) :
    (SafeAt n k PAD → DecodeEnds d.pad n) ∧ (¬SafeAt n k PAD → d.pad = none) := by
  obtain ⟨xs, hlen, hwrote⟩ := h.wrote
  have hfits := h.fits; have hint := h.int
  have hsafe : SafeAt n k PAD
      ↔ (3 * (k / 4) + (k % 4 - 1) ≤ n → 3 * (k / 4) + (k % 4 - 1) < 2 ^ 31) := by
    rw [SafeAt, writtenAt, if_pos rfl]
    exact and_iff_right (by decide)
  rw [hsafe, Decoding.pad, h.charCount, h.room_eq]
  have hmod : k % 4 = 0 ∨ k % 4 = 1 ∨ k % 4 = 2 ∨ k % 4 = 3 := by omega
  rcases hmod with hk | hk | hk | hk <;> rw [hk]
  · exact ⟨fun _ ↦ ⟨d.out, false, xs, rfl, hwrote⟩, fun hn ↦ absurd (fun _ ↦ hint) hn⟩
  · exact ⟨fun _ ↦ ⟨d.out, true, xs, rfl, hwrote⟩, fun hn ↦ absurd (fun _ ↦ hint) hn⟩
  · rw [if_neg (by decide), if_pos rfl]
    by_cases hroom : n - 3 * (k / 4) < 1
    · rw [if_pos hroom]
      exact ⟨fun _ ↦ ⟨d.out, true, xs, rfl, hwrote⟩, fun hn ↦ absurd (fun hle ↦ by omega) hn⟩
    · rw [if_neg hroom]
      refine ⟨fun hlt ↦ ?_, fun hn ↦ ?_⟩
      · obtain ⟨o', hpush, h'⟩ := hwrote.push (by omega) (by omega)
          ((d.bits >>> 10).setWidth 8)
        exact ⟨o', false, _, by rw [hpush]; rfl, h'⟩
      · rw [hwrote.push_none (by omega) (by omega)]
        rfl
  · rw [if_neg (by decide), if_neg (by decide), if_pos rfl]
    by_cases hroom : n - 3 * (k / 4) < 2
    · rw [if_pos hroom]
      exact ⟨fun _ ↦ ⟨d.out, true, xs, rfl, hwrote⟩, fun hn ↦ absurd (fun hle ↦ by omega) hn⟩
    · rw [if_neg hroom]
      refine ⟨fun hlt ↦ ?_, fun hn ↦ ?_⟩
      · obtain ⟨o₁, o₂, hpush₁, hpush₂, h'⟩ := hwrote.push_two (by omega) (by omega)
          ((d.bits >>> 16).setWidth 8) ((d.bits >>> 8).setWidth 8)
        refine ⟨o₂, false, _, ?_, h'⟩
        simp only [Option.bind_eq_bind, hpush₁, hpush₂, Option.bind_some]
      · exact hwrote.push_two_none (by omega) (by omega) _

/-- The character that fills a group, when there is no room or the count is too large. -/
theorem base64DecodeLoop_full_eq {v : ℕ} (hv : v < 64) (hcount : d.charCount = 3) (l : List U8) :
    base64DecodeLoop (sym v :: l) d
      = if d.room < 3 then some (d.out, true)
        else (do
          let bits := d.bits + BitVec.ofNat 32 v
          let o ← d.out.push ((bits >>> 16).setWidth 8)
          let o ← o.push ((bits >>> 8).setWidth 8)
          let o ← o.push (bits.setWidth 8)
          base64DecodeLoop l { bits := 0#32, charCount := 0, out := o }) := by
  obtain ⟨hpad, hat⟩ := decoderAt_sym v hv
  rw [base64DecodeLoop, if_neg hpad, hat, Option.bind_eq_bind, Option.bind_some,
    if_neg v.succ_ne_zero, Nat.add_sub_cancel, if_neg (by omega)]

theorem isSym_sym : ∀ v < 64, IsSym (sym v) ∧ (sym v).toNat < 128 := by decide +kernel

theorem safeAt_sym {v : ℕ} (hv : v < 64) :
    SafeAt n k (sym v) ↔ (3 * ((k + 1) / 4) ≤ n → 3 * ((k + 1) / 4) < 2 ^ 31) := by
  obtain ⟨hsym, hlt⟩ := isSym_sym v hv
  rw [SafeAt, writtenAt, if_neg (decoderAt_sym v hv).1, symCount, if_pos hsym]
  exact and_iff_right hlt

/-- A character for six bits that does not fill a group is safe. -/
theorem Decoding.After.sym_more (h : d.After n k) {v : ℕ} (hv : v < 64) (hk : k % 4 < 3) :
    ∃ d', d'.After n (k + 1)
      ∧ ∀ l, base64DecodeLoop (sym v :: l) d = base64DecodeLoop l d' := by
  obtain ⟨xs, hlen, hwrote⟩ := h.wrote
  have hdiv : (k + 1) / 4 = k / 4 := by omega
  refine ⟨{ d with bits := (d.bits + BitVec.ofNat 32 v) <<< 6, charCount := d.charCount + 1 },
    ⟨?_, ⟨xs, ?_, hwrote⟩, ?_, ?_⟩, fun l ↦ base64DecodeLoop_sym hv ?_ l⟩
  · dsimp only
    rw [h.charCount]
    omega
  · rw [hlen, hdiv]
  · rw [hdiv]
    exact h.fits
  · rw [hdiv]
    exact h.int
  · rw [h.charCount]
    omega

/-- A character for six bits that fills a group. -/
theorem Decoding.After.sym_full (h : d.After n k) {v : ℕ} (hv : v < 64) (hk : k % 4 = 3)
    (hroom : (k + 1) / 4 ≤ n / 3) :
    (SafeAt n k (sym v) → ∃ d', d'.After n (k + 1)
        ∧ ∀ l, base64DecodeLoop (sym v :: l) d = base64DecodeLoop l d')
      ∧ (¬SafeAt n k (sym v) → ∀ l, base64DecodeLoop (sym v :: l) d = none) := by
  obtain ⟨xs, hlen, hwrote⟩ := h.wrote
  have hcount : d.charCount = 3 := h.charCount.trans hk
  have hnot : ¬d.room < 3 := by
    rw [h.room_eq]
    omega
  rw [safeAt_sym hv]
  constructor
  · intro hsafe
    have hint := hsafe (by omega)
    have hroom' : xs.length + 3 ≤ n := by omega
    have hint' : xs.length + 3 < 2 ^ 31 := by omega
    obtain ⟨o₁, o₂, hpush₁, hpush₂, h₂⟩ := hwrote.push_two (by omega) (by omega)
      (((d.bits + BitVec.ofNat 32 v) >>> 16).setWidth 8)
      (((d.bits + BitVec.ofNat 32 v) >>> 8).setWidth 8)
    obtain ⟨o₃, hpush₃, h₃⟩ := h₂.push (by simp; omega) (by simp; omega)
      ((d.bits + BitVec.ofNat 32 v).setWidth 8)
    refine ⟨{ bits := 0#32, charCount := 0, out := o₃ }, ⟨?_, ⟨_, ?_, h₃⟩, by omega, by omega⟩,
      fun l ↦ ?_⟩
    · dsimp only
      omega
    · simp
      omega
    · rw [base64DecodeLoop_full_eq hv hcount, if_neg hnot]
      simp only [Option.bind_eq_bind, hpush₁, hpush₂, hpush₃, Option.bind_some]
  · intro hsafe l
    rw [base64DecodeLoop_full_eq hv hcount, if_neg hnot]
    rcases Nat.lt_or_ge (xs.length + 2) (2 ^ 31) with hlt | hge
    · obtain ⟨o₁, o₂, hpush₁, hpush₂, h₂⟩ := hwrote.push_two (by omega) hlt
        (((d.bits + BitVec.ofNat 32 v) >>> 16).setWidth 8)
        (((d.bits + BitVec.ofNat 32 v) >>> 8).setWidth 8)
      have hpush₃ := h₂.push_none (b := (d.bits + BitVec.ofNat 32 v).setWidth 8)
        (by simp; omega) (by simp; omega)
      simp only [Option.bind_eq_bind, hpush₁, hpush₂, hpush₃, Option.bind_some, Option.bind_none]
    · exact hwrote.push_two_none (by omega) (by omega) _

/-- **A character for six bits**, if there is room for its group. -/
theorem Decoding.After.sym_step (h : d.After n k) {v : ℕ} (hv : v < 64)
    (hroom : (k + 1) / 4 ≤ n / 3) :
    (SafeAt n k (sym v) → ∃ d', d'.After n (k + 1)
        ∧ ∀ l, base64DecodeLoop (sym v :: l) d = base64DecodeLoop l d')
      ∧ (¬SafeAt n k (sym v) → ∀ l, base64DecodeLoop (sym v :: l) d = none) := by
  rcases Nat.lt_or_ge (k % 4) 3 with hk | hk
  · refine ⟨fun _ ↦ h.sym_more hv hk, fun hn ↦ absurd ?_ hn⟩
    have hint := h.int
    rw [safeAt_sym hv]
    omega
  · exact h.sym_full hv (by omega) hroom

/-- The character of a group for which there is no room ends the loop. -/
theorem Decoding.After.sym_no_room (h : d.After n k) {v : ℕ} (hv : v < 64)
    (hfull : n / 3 < (k + 1) / 4) (l : List U8) :
    DecodeEnds (base64DecodeLoop (sym v :: l) d) n ∧ SafeAt n k (sym v) := by
  obtain ⟨xs, hlen, hwrote⟩ := h.wrote
  have hfits := h.fits
  have hk : k % 4 = 3 := by omega
  constructor
  · refine ⟨d.out, true, xs, ?_, hwrote⟩
    rw [base64DecodeLoop_full_eq hv (h.charCount.trans hk), if_pos]
    rw [h.room_eq]
    omega
  · rw [safeAt_sym hv]
    omega

/-! ## The whole input -/

/-- **What the decoder comes to.** It ends if every byte that it comes to is safe, and is undefined
otherwise. -/
theorem Decoding.After.loop {l : List U8} (h : d.After n k) :
    (SafeFrom n k l → DecodeEnds (base64DecodeLoop l d) n)
      ∧ (¬SafeFrom n k l → base64DecodeLoop l d = none) := by
  induction l generalizing d k with
  | nil =>
    obtain ⟨xs, hlen, hwrote⟩ := h.wrote
    exact ⟨fun _ ↦ ⟨d.out, _, xs, rfl, hwrote⟩, fun hn ↦ absurd (safeFrom_nil n k) hn⟩
  | cons c l ih =>
    have hfits : k / 4 ≤ n / 3 := by
      have := h.fits
      omega
    rw [safeFrom_cons hfits]
    have hat := decoderAt_eq c
    by_cases hchar : c.toNat < 128
    · rw [if_pos hchar] at hat
      by_cases hpad : c = PAD
      · -- a pad: the rest is not looked at
        rw [base64DecodeLoop, if_pos hpad, hpad]
        obtain ⟨hends, hnone⟩ := h.pad
        exact ⟨fun hs ↦ hends hs.1, fun hn ↦ hnone fun hs ↦ hn ⟨hs, fun hne ↦ absurd rfl hne⟩⟩
      · by_cases hsym : IsSym c
        · rw [if_pos hsym] at hat
          obtain ⟨v, hv, rfl⟩ := hat
          rw [symCount, if_pos hsym]
          rcases Nat.lt_or_ge (n / 3) ((k + 1) / 4) with hfull | hroom
          · obtain ⟨hends, hsafe⟩ := h.sym_no_room hv hfull l
            exact ⟨fun _ ↦ hends, fun hn ↦ absurd ⟨hsafe, fun _ hle ↦ absurd hle (by omega)⟩ hn⟩
          · obtain ⟨hgoes, hnone⟩ := h.sym_step hv hroom
            constructor
            · rintro ⟨hsafe, hrest⟩
              obtain ⟨d', h', hloop⟩ := hgoes hsafe
              rw [hloop]
              exact (ih h').1 (hrest hpad hroom)
            · intro hn
              by_cases hsafe : SafeAt n k (sym v)
              · obtain ⟨d', h', hloop⟩ := hgoes hsafe
                rw [hloop]
                exact (ih h').2 fun hrest ↦ hn ⟨hsafe, fun _ _ ↦ hrest⟩
              · exact hnone hsafe l
        · -- a byte that is skipped
          rw [if_neg hsym] at hat
          have hskip : base64DecodeLoop (c :: l) d = base64DecodeLoop l d := by
            rw [base64DecodeLoop, if_neg hpad, hat hpad, Option.bind_eq_bind, Option.bind_some,
              if_pos rfl]
          have hsafe : SafeAt n k c := by
            rw [SafeAt, writtenAt, if_neg hpad, symCount, if_neg hsym, Nat.add_zero]
            exact ⟨hchar, fun _ ↦ h.int⟩
          rw [hskip, symCount, if_neg hsym, Nat.add_zero, and_iff_right hsafe]
          obtain ⟨hends, hnone⟩ := ih h
          exact ⟨fun hs ↦ hends (hs hpad hfits), fun hn ↦ hnone fun hs ↦ hn fun _ _ ↦ hs⟩
    · -- a negative index
      rw [if_neg hchar] at hat
      refine ⟨fun hs ↦ absurd hs.1.1 hchar, fun _ ↦ ?_⟩
      rw [base64DecodeLoop, if_neg hat.1, hat.2]
      rfl

/-- **When decoding is defined**: the input is safe from its beginning. -/
theorem base64Decode_isSome_iff (outbuf inbuf : List U8) :
    (base64Decode outbuf inbuf).isSome ↔ SafeFrom outbuf.length 0 inbuf := by
  have hstart : Decoding.After ⟨0#32, 0, ⟨outbuf, 0⟩⟩ outbuf.length 0 :=
    ⟨rfl, ⟨[], rfl, Outbuf.wrote_start outbuf⟩, Nat.zero_le _, by norm_num⟩
  obtain ⟨hends, hnone⟩ := hstart.loop (l := inbuf)
  rw [base64Decode]
  by_cases hsafe : SafeFrom outbuf.length 0 inbuf
  · obtain ⟨o, errors, xs, hloop, hwrote⟩ := hends hsafe
    obtain ⟨m, hfinish, -⟩ := hwrote.finish errors
    rw [hloop, Option.bind_eq_bind, Option.bind_some]
    exact iff_of_true (by dsimp only; rw [hfinish]; rfl) hsafe
  · rw [hnone hsafe]
    exact iff_of_false (by decide) hsafe

/-- **Base64 does what it should**: strings come back from their encoding, and decoding arbitrary
bytes is defined. Strings do as long as their encoding can be counted in an `int`, and bytes as long
as the decoder comes to none from 128 on and to no count beyond an `int`. -/
theorem base64_iff {x outbuf outbuf' : List U8} (hroom : encodedLength x ≤ outbuf.length)
    (hlen : outbuf.length < 2 ^ 32) (hroom' : x.length ≤ outbuf'.length) (buf inbuf : List U8) :
    RoundTrips x outbuf outbuf' ∧ (base64Decode buf inbuf).isSome
      ↔ encodedLength x < 2 ^ 31 ∧ SafeFrom buf.length 0 inbuf :=
  and_congr (roundTrips_iff hroom hlen hroom') (base64Decode_isSome_iff buf inbuf)

/-- Four bytes, the first of them negative as chars, with no byte of room to spare, and a decoding
that ends before it comes to a byte from 128 on. -/
theorem base64_iff_four :
    RoundTrips [255#8, 128#8, 1#8, 3#8] (List.replicate 8 0#8) (List.replicate 4 0#8)
      ∧ (base64Decode [0#8] [65#8, 65#8, PAD, 200#8]).isSome := by
  refine (base64_iff (by decide +kernel) (by decide +kernel) (by decide +kernel) _ _).mpr
    ⟨by decide +kernel, ?_⟩
  rw [← base64Decode_isSome_iff]
  decide +kernel

/-- A single byte 128 is looked up at index -128. -/
theorem not_base64_negative :
    ¬(RoundTrips [] [] [] ∧ (base64Decode [0#8] [128#8]).isSome) := by
  rintro ⟨-, h⟩
  exact absurd h (by decide +kernel)

end Hyunjin
